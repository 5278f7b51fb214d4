import FontHosting.Decimal.Binary
import FontHosting.Text.Blank

/-!
# Reading numbers

Texts of whole numbers and of decimal fractions.  Nothing may follow the number,
and no blank may stand before it.
-/

namespace FontHosting.Decimal

/-- The value of a run of decimal digits. -/
def digitsValue (digits : List Char) : Nat :=
  digits.foldl (fun value c => 10 * value + (c.toNat - 0x30)) 0

/-- The digits a text starts with, and the rest. -/
def spanDigits (text : List Char) : List Char × List Char :=
  (text.takeWhile Char.isDigit, text.dropWhile Char.isDigit)

/-- A sign in front of a number: whether it is a minus, and the rest. -/
def splitSign : List Char → Bool × List Char
  | '-' :: rest => (true, rest)
  | '+' :: rest => (false, rest)
  | text => (false, text)

/-- A whole number: digits, with a sign if one is wanted. -/
def readInt? (text : List Char) : Option Int :=
  let (negative, digits) := splitSign text
  if digits.isEmpty ∨ !digits.all Char.isDigit then none
  else
    let value : Int := digitsValue digits
    some (if negative then -value else value)

/-- The whole numbers of 64 bits with a sign. -/
def fitsInt64 (value : Int) : Bool :=
  -0x8000000000000000 ≤ value && value < 0x8000000000000000

/-- A whole number of 64 bits. -/
def readInt64? (text : List Char) : Option Int :=
  (readInt? text).filter fitsInt64

/-- The exponent part of a decimal number: `e` or `E`, a sign if wanted, and digits. -/
def readExponent? (text : List Char) : Option Int :=
  match text with
  | [] => some 0
  | marker :: rest => if marker = 'e' ∨ marker = 'E' then readInt? rest else none

/-- A decimal fraction: a sign if wanted, then digits with a point anywhere among
them and an exponent if wanted, or one of the words for infinity and not-a-number
in any case. -/
def readFloat? (text : List Char) : Option Float :=
  let (negative, body) := splitSign text
  let magnitude? : Option Float :=
    let word := body.map Char.toLower
    if word = "inf".toList ∨ word = "infinity".toList then some (1.0 / 0.0)
    else if word = "nan".toList then some (0.0 / 0.0)
    else
      let (whole, rest) := spanDigits body
      let (fraction, rest) := match rest with
        | '.' :: tail => spanDigits tail
        | _ => ([], rest)
      if whole.isEmpty ∧ fraction.isEmpty then none
      else
        (readExponent? rest).map fun exponent =>
          nearestFloat (digitsValue (whole ++ fraction)) (exponent - fraction.length)
  magnitude?.map fun magnitude => if negative then -magnitude else magnitude

end FontHosting.Decimal
