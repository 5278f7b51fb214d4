import FontHosting.Decimal.Reading
import FontHosting.Text.Search

/-!
# Values of TOML

The values that a TOML document is made of, and how the plain ones are written:
truth values, numbers, and dates with times.
-/

namespace FontHosting.Toml

/-- A value. -/
inductive Value where
  | text (value : String)
  | whole (value : Int)
  | real (value : Float)
  | boolean (value : Bool)
  /-- A date, a time or both, as it is written. -/
  | moment (written : String)
  | list (items : List Value)
  | table (entries : List (String × Value))
  deriving Inhabited

/-! ## Numbers -/

/-- Digits without the single underscores between them. -/
def plainDigits? (isDigit : Char → Bool) (written : List Char) : Option (List Char) :=
  let pieces := Text.splitOn '_' written
  if pieces.all fun piece => !piece.isEmpty && piece.all isDigit then some pieces.flatten
  else none

/-- Decimal digits that do not start with a needless zero. -/
def wholeDigits? (written : List Char) : Option (List Char) :=
  (plainDigits? Char.isDigit written).filter fun digits =>
    digits.length = 1 || digits.head? != some '0'

/-- The value of a digit in a base up to sixteen. -/
def digitValue (c : Char) : Nat :=
  if c.isDigit then c.toNat - 0x30 else c.toLower.toNat - 0x61 + 10

/-- Whether a character is a digit in a base up to sixteen. -/
def isDigitIn (base : Nat) (c : Char) : Bool :=
  (c.isDigit || ('a' ≤ c.toLower && c.toLower ≤ 'f')) && digitValue c < base

/-- Digits in a base other than ten. -/
def readInBase? (base : Nat) (written : List Char) : Option Int :=
  (plainDigits? (isDigitIn base) written).map fun digits =>
    ((digits.foldl (fun value c => base * value + digitValue c) 0 : Nat) : Int)

/-- A whole number of 64 bits. -/
def readWhole? (written : List Char) : Option Int :=
  let value? := match written with
    | '0' :: 'x' :: digits => readInBase? 16 digits
    | '0' :: 'o' :: digits => readInBase? 8 digits
    | '0' :: 'b' :: digits => readInBase? 2 digits
    | _ =>
        let (negative, digits) := Decimal.splitSign written
        (wholeDigits? digits).map fun digits =>
          let value : Int := Decimal.digitsValue digits
          if negative then -value else value
  value?.filter Decimal.fitsInt64

/-- The part of a number from its exponent mark on, without underscores. -/
def readExponentPart? (written : List Char) : Option (List Char) :=
  match written with
  | [] => some []
  | _ :: rest =>
      let (negative, digits) := Decimal.splitSign rest
      (plainDigits? Char.isDigit digits).map fun digits =>
        'e' :: (if negative then ['-'] else []) ++ digits

/-- The part of a number from its point on, without underscores. -/
def readFractionPart? (written : List Char) : Option (List Char) :=
  match written with
  | [] => some []
  | _ :: digits => (plainDigits? Char.isDigit digits).map ('.' :: ·)

/-- A number with a point or an exponent, or one of the words `inf` and `nan`. -/
def readReal? (written : List Char) : Option Float := do
  let (negative, body) := Decimal.splitSign written
  let isMark := fun c => c = 'e' || c = 'E'
  let magnitude ←
    if body = "inf".toList || body = "nan".toList then Decimal.readFloat? body
    else do
      let mantissa := body.takeWhile fun c => !isMark c
      let whole ← wholeDigits? (mantissa.takeWhile (· != '.'))
      let fraction ← readFractionPart? (mantissa.dropWhile (· != '.'))
      let exponent ← readExponentPart? (body.dropWhile fun c => !isMark c)
      (Decimal.readFloat? (whole ++ fraction ++ exponent)).filter fun value => !value.isInf
  return if negative then -magnitude else magnitude

/-! ## Dates and times -/

/-- Exactly `count` digits, their value and the rest. -/
def takeDigits? (count : Nat) (written : List Char) : Option (Nat × List Char) :=
  let digits := written.take count
  if digits.length = count ∧ digits.all Char.isDigit then
    some (Decimal.digitsValue digits, written.drop count)
  else none

/-- The number of days of a month. -/
def daysIn (year month : Nat) : Nat :=
  if month = 2 then
    if year % 4 = 0 ∧ (year % 100 ≠ 0 ∨ year % 400 = 0) then 29 else 28
  else if [4, 6, 9, 11].contains month then 30
  else 31

/-- What follows a date. -/
def afterDate? (written : List Char) : Option (List Char) := do
  let (year, rest) ← takeDigits? 4 written
  let (month, rest) ← takeDigits? 2 (← Text.after? ['-'] rest)
  let (day, rest) ← takeDigits? 2 (← Text.after? ['-'] rest)
  if 1 ≤ month ∧ month ≤ 12 ∧ 1 ≤ day ∧ day ≤ daysIn year month then some rest else none

/-- What follows a fraction of a second, if there is one. -/
def afterFraction? (written : List Char) : Option (List Char) :=
  match written with
  | '.' :: rest =>
      let (digits, rest) := Decimal.spanDigits rest
      if digits.isEmpty then none else some rest
  | _ => some written

/-- What follows a time of day. -/
def afterTime? (written : List Char) : Option (List Char) := do
  let (hour, rest) ← takeDigits? 2 written
  let (minute, rest) ← takeDigits? 2 (← Text.after? [':'] rest)
  let (second, rest) ← takeDigits? 2 (← Text.after? [':'] rest)
  if hour ≤ 23 ∧ minute ≤ 59 ∧ second ≤ 60 then afterFraction? rest else none

/-- Whether a text is the distance of a clock from universal time. -/
def isOffset (written : List Char) : Bool :=
  match written with
  | ['Z'] | ['z'] | [] => true
  | sign :: rest =>
      (sign = '+' || sign = '-') &&
        match takeDigits? 2 rest with
        | some (hour, ':' :: rest) =>
            match takeDigits? 2 rest with
            | some (minute, []) => hour ≤ 23 && minute ≤ 59
            | _ => false
        | _ => false

/-- Whether a text is a date, a time of day, or both. -/
def isMoment (written : List Char) : Bool :=
  match afterDate? written with
  | some [] => true
  | some (separator :: rest) =>
      ['T', 't', ' '].contains separator && ((afterTime? rest).map isOffset).getD false
  | none => afterTime? written = some []

/-- A value that is written without quotes and brackets. -/
def readPlain? (written : List Char) : Option Value :=
  if written = "true".toList then some (.boolean true)
  else if written = "false".toList then some (.boolean false)
  else if isMoment written then some (.moment (String.ofList written))
  else
    match readWhole? written with
    | some value => some (.whole value)
    | none => (readReal? written).map .real

end FontHosting.Toml
