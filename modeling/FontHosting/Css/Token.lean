import FontHosting.Decimal.Reading
import FontHosting.Text.Hex

/-!
# Tokens of stylesheets

A stylesheet is read as a list of tokens; every text has one.  A token keeps the
characters it was read from, since some values are told by their spelling.
-/

namespace FontHosting.Css

/-- A number with what its spelling tells. -/
structure Numeral where
  value : Float
  /-- Whether it was written without a point and without an exponent. -/
  whole : Bool
  /-- Whether a sign was written. -/
  signed : Bool

/-- The kinds of tokens. -/
inductive TokenKind where
  /-- Blanks and comments. -/
  | blank
  | word (name : List Char)
  /-- A name with an opening bracket behind it. -/
  | call (name : List Char)
  | atWord (name : List Char)
  | hash (name : List Char)
  | text (value : List Char)
  | url (address : List Char)
  | number (value : Numeral)
  | percentage (value : Numeral)
  | dimension (value : Numeral) (unit : List Char)
  | mark (c : Char)
  | opening (c : Char)
  | closing (c : Char)
  /-- A string or an address that is not ended as it should be. -/
  | bad

/-- A token with its spelling. -/
structure Token where
  kind : TokenKind
  spelling : List Char

/-- Blanks. -/
def isBlank (c : Char) : Bool :=
  c == ' ' || c == '\t' || c == '\n' || c == '\r' || c == '\x0c'

/-- Line ends. -/
def isLineEnd (c : Char) : Bool := c == '\n' || c == '\r' || c == '\x0c'

/-- Characters that a name may start with. -/
def isNameStart (c : Char) : Bool := c.isAlpha || c == '_' || c.toNat ≥ 0x80

/-- Characters that a name may contain. -/
def isNameChar (c : Char) : Bool := isNameStart c || c.isDigit || c == '-'

/-- The character that an escape stands for, after its backslash. -/
def readEscape : List Char → Char × List Char
  | [] => (Char.ofNat 0xFFFD, [])
  | c :: rest =>
      let digits := ((c :: rest).take 6).takeWhile fun c => (Text.Hex.value? c).isSome
      if digits.isEmpty then (c, rest)
      else
        let code := digits.foldl (fun value c => 16 * value + (Text.Hex.value? c).getD 0) 0
        let after := (c :: rest).drop digits.length
        let after := match after with
          | '\r' :: '\n' :: after => after
          | blank :: tail => if isBlank blank then tail else after
          | [] => []
        let value := Char.ofNat code
        (if code = 0 ∨ value.toNat != code then Char.ofNat 0xFFFD else value, after)

/-- Whether an escape starts a text. -/
def startsEscape : List Char → Bool
  | '\\' :: c :: _ => !isLineEnd c
  | _ => false

/-- Whether a name starts a text. -/
def startsName : List Char → Bool
  | '-' :: '-' :: _ => true
  | '-' :: c :: rest => isNameStart c || startsEscape (c :: rest)
  | c :: rest => isNameStart c || startsEscape (c :: rest)
  | [] => false

/-- Whether a number starts a text. -/
def startsNumber (text : List Char) : Bool :=
  let unsigned := match text with
    | '+' :: rest | '-' :: rest => rest
    | rest => rest
  match unsigned with
  | '.' :: c :: _ => c.isDigit
  | c :: _ => c.isDigit
  | [] => false

/-- The characters of a name, those before them in reverse. -/
def readName : Nat → List Char → List Char → List Char × List Char
  | 0, done, text => (done.reverse, text)
  | fuel + 1, done, text =>
      match text with
      | '\\' :: rest =>
          if startsEscape text then
            let (c, rest) := readEscape rest
            readName fuel (c :: done) rest
          else (done.reverse, text)
      | c :: rest => if isNameChar c then readName fuel (c :: done) rest else (done.reverse, text)
      | [] => (done.reverse, [])

/-- The characters of a string up to its quote, those before them in reverse; a string ends
with its line, but then it is bad. -/
def readString (quote : Char) : Nat → List Char → List Char → Option (List Char) × List Char
  | 0, done, text => (some done.reverse, text)
  | fuel + 1, done, text =>
      match text with
      | [] => (some done.reverse, [])
      | '\\' :: '\r' :: '\n' :: rest => readString quote fuel done rest
      | '\\' :: c :: rest =>
          if isLineEnd c then readString quote fuel done rest
          else
            let (value, rest) := readEscape (c :: rest)
            readString quote fuel (value :: done) rest
      | ['\\'] => (some done.reverse, [])
      | c :: rest =>
          if c = quote then (some done.reverse, rest)
          else if isLineEnd c then (none, text)
          else readString quote fuel (c :: done) rest

/-- What stands behind the end of a bad address. -/
def afterBadUrl : List Char → List Char
  | [] => []
  | '\\' :: _ :: rest => afterBadUrl rest
  | ')' :: rest => rest
  | _ :: rest => afterBadUrl rest

/-- The characters of an address without quotes, those before them in reverse. -/
def readUrl : Nat → List Char → List Char → Option (List Char) × List Char
  | 0, done, text => (some done.reverse, text)
  | fuel + 1, done, text =>
      match text with
      | [] => (some done.reverse, [])
      | ')' :: rest => (some done.reverse, rest)
      | '\\' :: rest =>
          if startsEscape text then
            let (c, rest) := readEscape rest
            readUrl fuel (c :: done) rest
          else (none, afterBadUrl rest)
      | c :: rest =>
          if isBlank c then
            match rest.dropWhile isBlank with
            | [] => (some done.reverse, [])
            | ')' :: rest => (some done.reverse, rest)
            | rest => (none, afterBadUrl rest)
          else if c = '"' ∨ c = '\'' ∨ c = '(' ∨ c.toNat < 0x20 ∨ c.toNat = 0x7F then
            (none, afterBadUrl (c :: rest))
          else readUrl fuel (c :: done) rest

/-- A number, and what stands behind it. -/
def readNumeral (text : List Char) : Numeral × List Char :=
  let signed := text.head? = some '+' || text.head? = some '-'
  let (negative, rest) := Decimal.splitSign text
  let (whole, rest) := Decimal.spanDigits rest
  let (fraction, rest) := match rest with
    | '.' :: tail =>
        let (digits, after) := Decimal.spanDigits tail
        if digits.isEmpty then ([], rest) else (digits, after)
    | _ => ([], rest)
  let exponent? : Option (Int × List Char) := match rest with
    | 'e' :: tail | 'E' :: tail =>
        let (down, tail) := Decimal.splitSign tail
        let (digits, after) := Decimal.spanDigits tail
        if digits.isEmpty then none
        else
          let value : Int := Decimal.digitsValue digits
          some (if down then -value else value, after)
    | _ => none
  let (exponent, after) := exponent?.getD (0, rest)
  let magnitude := Decimal.nearestFloat (Decimal.digitsValue (whole ++ fraction))
    (exponent - fraction.length)
  (⟨if negative then -magnitude else magnitude, fraction.isEmpty && exponent?.isNone, signed⟩,
    after)

/-- What stands behind the end of a comment. -/
def afterComment : List Char → List Char
  | [] => []
  | '*' :: '/' :: rest => rest
  | _ :: rest => afterComment rest

/-- The token of a name: a call if a bracket follows, an address if it is `url`. -/
def nameKind (fuel : Nat) (name rest : List Char) : TokenKind × List Char :=
  match rest with
  | '(' :: after =>
      if name.map Char.toLower = "url".toList then
        match after.dropWhile isBlank with
        | '"' :: _ | '\'' :: _ => (.call name, after)
        | inner =>
            match readUrl fuel [] inner with
            | (some address, rest) => (.url address, rest)
            | (none, rest) => (.bad, rest)
      else (.call name, after)
  | _ => (.word name, rest)

/-- The token of a number: what stands directly behind it may be its unit. -/
def numberKind (fuel : Nat) (value : Numeral) (rest : List Char) : TokenKind × List Char :=
  match rest with
  | '%' :: after => (.percentage value, after)
  | _ =>
      if startsName rest then
        let (unit, after) := readName fuel [] rest
        (.dimension value unit, after)
      else (.number value, rest)

/-- The first token of a text that is not empty, and the rest. -/
def readKind (c : Char) (rest : List Char) : TokenKind × List Char :=
  let text := c :: rest
  let fuel := text.length + 1
  if isBlank c then (.blank, rest.dropWhile isBlank)
  else if c = '/' ∧ rest.head? = some '*' then (.blank, afterComment (rest.drop 1))
  else if c = '"' ∨ c = '\'' then
    match readString c fuel [] rest with
    | (some value, rest) => (.text value, rest)
    | (none, rest) => (.bad, rest)
  else if startsNumber text then
    let (value, rest) := readNumeral text
    numberKind fuel value rest
  else if startsName text then
    let (name, rest) := readName fuel [] text
    nameKind fuel name rest
  else if c = '#' ∧ (rest.head?.any isNameChar ∨ startsEscape rest) then
    let (name, rest) := readName fuel [] rest
    (.hash name, rest)
  else if c = '@' ∧ startsName rest then
    let (name, rest) := readName fuel [] rest
    (.atWord name, rest)
  else if c = '(' ∨ c = '[' ∨ c = '\x7b' then (.opening c, rest)
  else if c = ')' ∨ c = ']' ∨ c = '\x7d' then (.closing c, rest)
  else (.mark c, rest)

/-- The tokens of a text, at most `fuel` of them. -/
def readTokens : Nat → List Char → List Token
  | 0, _ => []
  | _ + 1, [] => []
  | fuel + 1, c :: rest =>
      let (kind, after) := readKind c rest
      ⟨kind, (c :: rest).take (rest.length + 1 - after.length)⟩ :: readTokens fuel after

/-- The tokens of a text.  Each has at least one character. -/
def tokens (text : List Char) : List Token :=
  readTokens text.length text

end FontHosting.Css
