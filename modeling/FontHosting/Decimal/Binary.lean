/-!
# Binary fractions

A finite floating-point number is `± mantissa · 2 ^ exponent`.  This file takes a
`Float` apart into these three and puts decimal numbers together into floats.
-/

namespace FontHosting.Decimal

/-- A finite binary fraction `± mantissa · 2 ^ exponent`. -/
structure Binary where
  negative : Bool
  mantissa : Nat
  exponent : Int
  /-- Whether the next smaller number is only half as far away as the next larger one. -/
  lowerEdge : Bool
  deriving Repr, DecidableEq

/-- The kinds of floating-point numbers. -/
inductive FloatKind where
  | notANumber
  | infinite (negative : Bool)
  | finite (value : Binary)
  deriving Repr, DecidableEq

/-- Take the 64 bits of a float apart. -/
def floatKind (value : Float) : FloatKind :=
  let bits := value.toBits.toNat
  let negative := bits / Nat.pow 2 63 == 1
  let biased : Nat := bits / Nat.pow 2 52 % 2048
  let fraction : Nat := bits % Nat.pow 2 52
  if biased = 2047 then
    if fraction = 0 then .infinite negative else .notANumber
  else if biased = 0 then
    .finite ⟨negative, fraction, -1074, false⟩
  else
    .finite ⟨negative, Nat.pow 2 52 + fraction, (biased : Int) - 1075,
      fraction == 0 && biased != 1⟩

/-- The whole number that a fraction is equal to, if it is equal to one. -/
def Binary.whole? (value : Binary) : Option Int :=
  let magnitude? : Option Nat :=
    if 0 ≤ value.exponent then some (value.mantissa * Nat.pow 2 value.exponent.natAbs)
    else
      let divisor := Nat.pow 2 value.exponent.natAbs
      if value.mantissa % divisor = 0 then some (value.mantissa / divisor) else none
  magnitude?.map fun magnitude => if value.negative then -(magnitude : Int) else magnitude

/-- The float nearest to `mantissa · 10 ^ exponent`.  Numbers that are out of range
by their count of digits alone are not computed. -/
def nearestFloat (mantissa : Nat) (exponent : Int) : Float :=
  let magnitude : Int := (Nat.toDigits 10 mantissa).length + exponent
  if mantissa = 0 ∨ magnitude < -340 then 0.0
  else if magnitude > 320 then 1.0 / 0.0
  else if exponent < 0 then Float.ofScientific mantissa true exponent.natAbs
  else Float.ofScientific mantissa false exponent.natAbs

/-- The number `a / b` rounded to an integer, a half going to the even neighbour. -/
def roundHalfEven (a b : Nat) : Nat :=
  let quotient := a / b
  let remainder := a % b
  if 2 * remainder < b then quotient
  else if b < 2 * remainder then quotient + 1
  else if quotient % 2 = 0 then quotient else quotient + 1

end FontHosting.Decimal
