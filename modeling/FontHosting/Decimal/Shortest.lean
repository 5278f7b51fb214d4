import FontHosting.Decimal.Binary

/-!
# The fewest digits that read back

A binary fraction stands for every real number that rounds to it.  Among the
decimal numbers in that interval, `shortest` picks one with as few digits as
possible, and of those the one nearest to the fraction.  Everything is exact
arithmetic on natural numbers.

`exponential` and `positional` are the two ways the digits are written.
-/

namespace FontHosting.Decimal

/-- A decimal number `digits · 10 ^ exponent`. -/
structure Scientific where
  digits : Nat
  exponent : Int
  deriving Repr, DecidableEq

/-- `a · 2 ^ p · 10 ^ e` as a fraction of natural numbers. -/
def scaled (a : Nat) (p e : Int) : Nat × Nat :=
  (a * Nat.pow 2 p.toNat * Nat.pow 10 e.toNat, Nat.pow 2 (-p).toNat * Nat.pow 10 (-e).toNat)

/-- Whether the first fraction is at most the second. -/
def fractionLe (x y : Nat × Nat) : Bool := x.1 * y.2 ≤ y.1 * x.2

/-- Whether the first fraction is below the second. -/
def fractionLt (x y : Nat × Nat) : Bool := x.1 * y.2 < y.1 * x.2

/-- Whether a decimal number rounds to a binary fraction.  The ends of the interval
belong to it if the mantissa is even. -/
def Binary.roundsFrom (value : Binary) (candidate : Scientific) : Bool :=
  let below := if value.lowerEdge then 4 * value.mantissa - 1 else 4 * value.mantissa - 2
  let low := scaled below (value.exponent - 2) 0
  let high := scaled (4 * value.mantissa + 2) (value.exponent - 2) 0
  let point := scaled candidate.digits 0 candidate.exponent
  if value.mantissa % 2 = 0 then
    fractionLe low point && fractionLe point high
  else
    fractionLt low point && fractionLt point high

/-- The place of the first digit: `10 ^ (place - 1) ≤ value < 10 ^ place`, found by
counting digits and mending the count by at most one. -/
def Binary.firstPlace (value : Binary) : Int :=
  let (a, b) := scaled value.mantissa value.exponent 0
  let guess : Int := ((Nat.toDigits 10 a).length : Int) - (Nat.toDigits 10 b).length
  if fractionLe (scaled 1 0 guess) (a, b) then guess + 1 else guess

/-- The better of the two neighbours of the value on the grid of multiples of
`10 ^ exponent`, if one of them rounds to it. -/
def Binary.onGrid? (value : Binary) (exponent : Int) : Option Scientific :=
  let (a, b) := scaled value.mantissa value.exponent (-exponent)
  let lower : Scientific := ⟨a / b, exponent⟩
  let upper : Scientific := ⟨a / b + 1, exponent⟩
  let lowerFits := value.roundsFrom lower
  let upperFits := value.roundsFrom upper
  if lowerFits && upperFits then
    if 2 * (a % b) < b ∨ (2 * (a % b) = b ∧ a / b % 2 = 0) then some lower else some upper
  else if lowerFits then some lower
  else if upperFits then some upper
  else none

/-- The first grid with a hit, from `count` digits on. -/
def Binary.searchGrids (value : Binary) (place : Int) : Nat → Nat → Scientific
  | 0, count => ⟨value.mantissa, value.exponent - count⟩
  | fuel + 1, count =>
      match value.onGrid? (place - count) with
      | some found => found
      | none => value.searchGrids place fuel (count + 1)

/-- Seventeen digits are always enough. -/
def Binary.shortest (value : Binary) : Scientific :=
  if value.mantissa = 0 then ⟨0, 0⟩
  else
    let found := value.searchGrids value.firstPlace 17 1
    if found.digits % 10 = 0 then ⟨found.digits / 10, found.exponent + 1⟩ else found

/-! ## Writing the digits -/

/-- Digits with a point and without an exponent, and at least one digit before the
point.  `fraction` is the least number of digits after it. -/
def Scientific.positional (number : Scientific) (fraction : Nat) : List Char :=
  let digits := Nat.toDigits 10 number.digits
  let places := (-number.exponent).toNat
  let whole := digits ++ List.replicate number.exponent.toNat '0'
  let padded := List.replicate (places + 1 - whole.length) '0' ++ whole
  let before := padded.take (padded.length - places)
  let after := padded.drop (padded.length - places)
  let after := after ++ List.replicate (fraction - after.length) '0'
  if after.isEmpty then before else before ++ '.' :: after

/-- One digit, a point and the other digits if there are any, and the exponent with
its sign. -/
def Scientific.exponential (number : Scientific) : List Char :=
  let digits := Nat.toDigits 10 number.digits
  let exponent := number.exponent + digits.length - 1
  let sign := if exponent < 0 then '-' else '+'
  let tail := if digits.length ≤ 1 then [] else '.' :: digits.drop 1
  digits.take 1 ++ tail ++ 'e' :: sign :: Nat.toDigits 10 exponent.natAbs

/-- The decimal place of the first digit, as the exponent of scientific notation. -/
def Scientific.magnitude (number : Scientific) : Int :=
  number.exponent + (Nat.toDigits 10 number.digits).length - 1

/-- A minus sign before the digits of a negative number. -/
def signed (negative : Bool) (digits : List Char) : List Char :=
  if negative then '-' :: digits else digits

/-- A float as plain digits, however large or small: `100`, `62.5`, `0.0000001`. -/
def plainText (value : Float) : List Char :=
  match floatKind value with
  | .notANumber => "NaN".toList
  | .infinite negative => signed negative "inf".toList
  | .finite binary => signed binary.negative (binary.shortest.positional 0)

/-- A float with exactly `places` digits after the point, a half going to the even digit. -/
def fixedText (places : Nat) (value : Float) : List Char :=
  match floatKind value with
  | .notANumber => "NaN".toList
  | .infinite negative => signed negative "inf".toList
  | .finite binary =>
      let (a, b) := scaled binary.mantissa binary.exponent places
      let rounded : Scientific := ⟨roundHalfEven a b, -(places : Int)⟩
      signed binary.negative (rounded.positional places)

end FontHosting.Decimal
