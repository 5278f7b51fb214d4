import FontHosting.Css.Item
import FontHosting.Decimal.Shortest

/-!
# Writing values briefly

Names, strings, addresses and numbers as they are written in a stylesheet, with as few
characters as the format allows.
-/

namespace FontHosting.Css

/-- A character as an escape that tells its number. -/
def escapeCode (c : Char) : List Char :=
  '\\' :: Text.Hex.ofNat c.toNat ++ [' ']

/-- Whether a character is a control. -/
def isControl (c : Char) : Bool := c.toNat < 0x20 || c.toNat == 0x7F

/-- A character inside a name. -/
def writeNameChar (c : Char) : List Char :=
  if isNameChar c then [c]
  else if c.toNat = 0 then [Char.ofNat 0xFFFD]
  else if isControl c then escapeCode c
  else ['\\', c]

/-- A name. -/
def writeName (name : List Char) : List Char :=
  match name with
  | '-' :: '-' :: rest => '-' :: '-' :: rest.flatMap writeNameChar
  | ['-'] => ['\\', '-']
  | '-' :: c :: rest =>
      if c.isDigit then '-' :: escapeCode c ++ rest.flatMap writeNameChar
      else name.flatMap writeNameChar
  | c :: rest =>
      if c.isDigit then escapeCode c ++ rest.flatMap writeNameChar else name.flatMap writeNameChar
  | [] => []

/-- A character inside a string. -/
def writeStringChar (c : Char) : List Char :=
  if c = '"' ∨ c = '\\' then ['\\', c]
  else if c.toNat = 0 then [Char.ofNat 0xFFFD]
  else if isControl c then escapeCode c
  else [c]

/-- A string in its quotes. -/
def writeString (value : List Char) : List Char :=
  '"' :: value.flatMap writeStringChar ++ ['"']

/-- A character inside an address without quotes. -/
def writeUrlChar (c : Char) : List Char :=
  if c.toNat ≤ 0x20 ∨ c.toNat = 0x7F then escapeCode c
  else if c = '(' ∨ c = ')' ∨ c = '"' ∨ c = '\'' ∨ c = '\\' then ['\\', c]
  else [c]

/-- An address, in quotes if that is shorter. -/
def writeUrl (address : List Char) : List Char :=
  let plain := "url(".toList ++ address.flatMap writeUrlChar ++ [')']
  let quoted := "url(".toList ++ writeString address ++ [')']
  if quoted.length < plain.length then quoted else plain

/-! ## Numbers -/

/-- The number of digits that a number is written with. -/
def numberPrecision : Nat := 6

/-- A number rounded to six digits, a half going up. -/
def roundDigits (binary : Decimal.Binary) : Decimal.Scientific :=
  if binary.mantissa = 0 then ⟨0, 0⟩
  else
    let exponent := binary.firstPlace - numberPrecision
    let (a, b) := Decimal.scaled binary.mantissa binary.exponent (-exponent)
    let digits := (2 * a + b) / (2 * b)
    dropZeros numberPrecision ⟨digits, exponent⟩
where
  /-- The same number without zeros at its end. -/
  dropZeros : Nat → Decimal.Scientific → Decimal.Scientific
    | 0, number => number
    | fuel + 1, number =>
        if number.digits % 10 = 0 ∧ number.digits ≠ 0 then
          dropZeros fuel ⟨number.digits / 10, number.exponent + 1⟩
        else number

/-- A number with six digits at most. -/
def writeDigits (value : Float32) : List Char :=
  match Decimal.floatKind value.toFloat with
  | .notANumber => "NaN".toList
  | .infinite negative => Decimal.signed negative "inf".toList
  | .finite binary =>
      let rounded := roundDigits binary
      let digits :=
        if rounded.digits = 0 ∨ (-6 ≤ rounded.magnitude ∧ rounded.magnitude < 21) then
          rounded.positional 0
        else (rounded.exponential).filter (· != '+')
      Decimal.signed binary.negative digits

/-- A number without a zero in front of its point. -/
def writeNumber (value : Float32) : List Char :=
  match writeDigits value with
  | '0' :: '.' :: rest => '.' :: rest
  | '-' :: '0' :: '.' :: rest => '-' :: '.' :: rest
  | ['-', '0'] => ['0']
  | digits => digits

/-- A share of a hundred.  A number that was written with a point keeps one if the share is
still whole after it was taken for a fraction of one and back. -/
def writePercentage (numeral : Numeral) : List Char :=
  let value := (numeral.value / 100.0).toFloat32 * 100.0
  let digits := writeDigits value
  let sign := if numeral.signed && digits.head? != some '-' then ['+'] else []
  let isPlain := !digits.contains '.' && !digits.contains 'e'
  let tail := if !numeral.whole && value == value.floor && isPlain then ['.', '0'] else []
  sign ++ digits ++ tail ++ ['%']

/-! ## Values as they are -/

/-- A token, every blank as one space. -/
def Token.write (token : Token) : List Char :=
  match token.kind with
  | .blank => [' ']
  | .word name => writeName name
  | .call name => writeName name ++ ['(']
  | .atWord name => '@' :: writeName name
  | .hash name => '#' :: name.flatMap writeNameChar
  | .text value => writeString value
  | .url address => writeUrl address
  | .number numeral => writeNumber numeral.value.toFloat32
  | .percentage numeral => writePercentage numeral
  | .dimension numeral unit => writeNumber numeral.value.toFloat32 ++ writeName unit
  | .mark c | .opening c | .closing c => [c]
  | .bad => token.spelling

mutual

/-- An item. -/
def Item.write : Item → List Char
  | .token token => token.write
  | .block opening items => opening :: writeItems items ++ [closingOf opening]
  | .call name items => writeName name ++ '(' :: writeItems items ++ [')']

/-- Items one after the other. -/
def writeItems : List Item → List Char
  | [] => []
  | item :: rest => item.write ++ writeItems rest

end

/-- Items with one space for several blanks in a row. -/
def squeeze : List Item → List Item
  | [] => []
  | item :: rest =>
      match squeeze rest with
      | next :: others =>
          if item.isBlank && next.isBlank then next :: others else item :: next :: others
      | [] => [item]

/-- A value that is not understood, as it is. -/
def writeValue (items : List Item) : List Char :=
  writeItems (squeeze (trimItems items))

end FontHosting.Css
