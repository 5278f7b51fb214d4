import FontHosting.Json.Value
import FontHosting.Decimal.Reading
import FontHosting.Text.Hex
import FontHosting.Text.Search

/-!
# Reading JSON

`Value.read?` accepts exactly one document with blanks around its tokens.  Lists
and objects may be nested 127 deep.  A number without point and exponent is
whole if it fits 64 bits, with or without a sign; every other number becomes a
binary fraction and must be finite.  A repeated key keeps its place and takes
the last value.
-/

namespace FontHosting.Json

/-- The blanks between tokens. -/
def isSpace (c : Char) : Bool :=
  c == ' ' || c == '\n' || c == '\t' || c == '\r'

/-- A text without the blanks it starts with. -/
def skipSpace (text : List Char) : List Char :=
  text.dropWhile isSpace

/-! ## Numbers

A fraction is read in two parts: a significand of at most 64 bits and a power of
ten.  Digits that no longer fit the significand count only by their place.
-/

/-- The digits of a significand: its value, and the digits that no longer fit it. -/
def takeSignificand : Nat → List Char → Nat × List Char
  | value, [] => (value, [])
  | value, c :: rest =>
      let extended := 10 * value + (c.toNat - 0x30)
      if extended < 0x10000000000000000 then takeSignificand extended rest else (value, c :: rest)

/-- The significand scaled by a power of ten; nothing if that is no finite number.
The scale is applied in steps of at most 308 decimal places. -/
def scaleFloat : Nat → Float → Int → Option Float
  | 0, value, _ => some value
  | fuel + 1, value, exponent =>
      if exponent.natAbs ≤ 308 then
        if exponent ≥ 0 then
          let scaled := value * Decimal.nearestFloat 1 exponent
          if scaled.isInf then none else some scaled
        else
          some (value / Decimal.nearestFloat 1 (-exponent))
      else if value == 0.0 then some value
      else if exponent ≥ 0 then none
      else scaleFloat fuel (value / Decimal.nearestFloat 1 308) (exponent + 308)

/-- A significand and a power of ten as a finite binary fraction. -/
def assemble (negative : Bool) (significand : Nat) (exponent : Int) : Option Number :=
  let magnitude? := scaleFloat 8 (Decimal.nearestFloat significand 0)
    (if exponent < -2200 then -2200 else exponent)
  magnitude?.map fun magnitude => .real (if negative then -magnitude else magnitude)

/-- The digits of an exponent after its `e`: the value and the rest. -/
def readExponent (text : List Char) : Option (Int × List Char) :=
  let (negative, text) := Decimal.splitSign text
  let (digits, rest) := Decimal.spanDigits text
  if digits.isEmpty then none
  else
    let value : Int := Decimal.digitsValue digits
    some (if negative then -value else value, rest)

/-- What follows the whole digits of a number. -/
def readTail (negative : Bool) (whole : List Char) (text : List Char) :
    Option (Number × List Char) := do
  let (significand, dropped) := takeSignificand 0 whole
  let isReal := match text with
    | '.' :: _ | 'e' :: _ | 'E' :: _ => true
    | _ => !dropped.isEmpty
  if !isReal then
    let value : Int := if negative then -significand else significand
    let fits := if negative then -0x8000000000000000 ≤ value && value < 0 else true
    if fits then return (.whole value, text)
    else
      let magnitude := Decimal.nearestFloat significand 0
      return (.real (if negative then -magnitude else magnitude), text)
  else
    let (significand, exponent, text) ← (match text with
      | '.' :: rest =>
          let (digits, rest) := Decimal.spanDigits rest
          if digits.isEmpty then none
          else if dropped.isEmpty then
            let (significand, left) := takeSignificand significand digits
            let used : Int := (digits.length - left.length : Nat)
            some (significand, -used, rest)
          else
            let (significand, left) := takeSignificand significand digits
            let used : Int := (digits.length - left.length : Nat)
            some (significand, dropped.length - used, rest)
      | _ => some (significand, (dropped.length : Int), text) : Option (Nat × Int × List Char))
    let (shift, text) ← (match text with
      | 'e' :: rest | 'E' :: rest => readExponent rest
      | _ => some (0, text) : Option (Int × List Char))
    let number ← assemble negative significand (exponent + shift)
    return (number, text)

/-- A number.  A zero may not be followed by a digit. -/
def readNumber (text : List Char) : Option (Number × List Char) :=
  let (negative, body) := match text with
    | '-' :: rest => (true, rest)
    | _ => (false, text)
  match Decimal.spanDigits body with
  | ([], _) => none
  | ('0' :: _ :: _, _) => none
  | (whole, rest) => readTail negative whole rest

/-! ## Strings -/

/-- Four hexadecimal digits. -/
def readUnit : List Char → Option (Nat × List Char)
  | a :: b :: c :: d :: rest => do
      let a ← Text.Hex.value? a
      let b ← Text.Hex.value? b
      let c ← Text.Hex.value? c
      let d ← Text.Hex.value? d
      return (((a * 16 + b) * 16 + c) * 16 + d, rest)
  | _ => none

/-- The character of `\u` and four digits; a high surrogate needs its partner. -/
def readEscapedUnit (text : List Char) : Option (Char × List Char) := do
  let (unit, rest) ← readUnit text
  if 0xD800 ≤ unit ∧ unit < 0xDC00 then
    match rest with
    | '\\' :: 'u' :: rest =>
        let (low, rest) ← readUnit rest
        if 0xDC00 ≤ low ∧ low < 0xE000 then
          return (Char.ofNat (0x10000 + (unit - 0xD800) * 1024 + (low - 0xDC00)), rest)
        else none
    | _ => none
  else if 0xDC00 ≤ unit ∧ unit < 0xE000 then none
  else return (Char.ofNat unit, rest)

/-- The character of an escape, after its backslash. -/
def readEscape : List Char → Option (Char × List Char)
  | '"' :: rest => some ('"', rest)
  | '\\' :: rest => some ('\\', rest)
  | '/' :: rest => some ('/', rest)
  | 'b' :: rest => some ('\x08', rest)
  | 'f' :: rest => some ('\x0c', rest)
  | 'n' :: rest => some ('\n', rest)
  | 'r' :: rest => some ('\r', rest)
  | 't' :: rest => some ('\t', rest)
  | 'u' :: rest => readEscapedUnit rest
  | _ => none

/-- The characters of a string up to its closing quote.  `fuel` bounds their number. -/
def readCharacters : Nat → List Char → List Char → Option (List Char × List Char)
  | 0, _, _ => none
  | fuel + 1, done, text =>
      match text with
      | [] => none
      | '"' :: rest => some (done.reverse, rest)
      | '\\' :: rest => do
          let (c, rest) ← readEscape rest
          readCharacters fuel (c :: done) rest
      | c :: rest => if c.toNat < 0x20 then none else readCharacters fuel (c :: done) rest

/-- A string, after its opening quote. -/
def readString (text : List Char) : Option (String × List Char) :=
  (readCharacters (text.length + 1) [] text).map fun (characters, rest) =>
    (String.ofList characters, rest)

/-! ## Documents -/

/-- What stands after a word, if the text starts with it. -/
def afterWord (word : String) (text : List Char) : Option (List Char) :=
  Text.after? word.toList text

mutual

/-- A value that may contain `depth` more levels. -/
def readValue : Nat → Nat → List Char → Option (Value × List Char)
  | 0, _, _ => none
  | fuel + 1, depth, text =>
      match skipSpace text with
      | [] => none
      | '"' :: rest => do
          let (value, rest) ← readString rest
          return (.text value, rest)
      | '[' :: rest =>
          match depth with
          | 0 => none
          | depth + 1 =>
              match skipSpace rest with
              | ']' :: rest => some (.list [], rest)
              | _ => do
                  let (items, rest) ← readItems fuel depth [] rest
                  return (.list items, rest)
      | '{' :: rest =>
          match depth with
          | 0 => none
          | depth + 1 =>
              match skipSpace rest with
              | '}' :: rest => some (.object [], rest)
              | _ => do
                  let (fields, rest) ← readFields fuel depth [] rest
                  return (.object (Fields.ofList fields), rest)
      | 'n' :: rest => (afterWord "ull" rest).map fun rest => (.null, rest)
      | 't' :: rest => (afterWord "rue" rest).map fun rest => (.boolean true, rest)
      | 'f' :: rest => (afterWord "alse" rest).map fun rest => (.boolean false, rest)
      | text => (readNumber text).map fun (value, rest) => (.number value, rest)

/-- The items of a list up to its bracket, those before them in reverse. -/
def readItems : Nat → Nat → List Value → List Char → Option (List Value × List Char)
  | 0, _, _, _ => none
  | fuel + 1, depth, done, text => do
      let (item, rest) ← readValue fuel depth text
      match skipSpace rest with
      | ',' :: rest => readItems fuel depth (item :: done) rest
      | ']' :: rest => return ((item :: done).reverse, rest)
      | _ => none

/-- The fields of an object up to its brace, those before them in reverse. -/
def readFields : Nat → Nat → List (String × Value) → List Char →
    Option (List (String × Value) × List Char)
  | 0, _, _, _ => none
  | fuel + 1, depth, done, text =>
      match skipSpace text with
      | '"' :: rest => do
          let (key, rest) ← readString rest
          match skipSpace rest with
          | ':' :: rest =>
              let (value, rest) ← readValue fuel depth rest
              match skipSpace rest with
              | ',' :: rest => readFields fuel depth ((key, value) :: done) rest
              | '}' :: rest => return (((key, value) :: done).reverse, rest)
              | _ => none
          | _ => none
      | _ => none

end

/-- The document that a text consists of, if it is not nested deeper than `depth`. -/
def Value.readWithin? (depth : Nat) (text : List Char) : Option Value := do
  let (value, rest) ← readValue (2 * text.length + 2) depth text
  if (skipSpace rest).isEmpty then some value else none

/-- How deep lists and objects may be nested. -/
def maximalDepth : Nat := 127

/-- The document that a text consists of. -/
def Value.read? (text : List Char) : Option Value :=
  Value.readWithin? maximalDepth text

end FontHosting.Json
