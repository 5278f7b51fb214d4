/-!
# Hexadecimal digits
-/

namespace FontHosting.Text.Hex

/-- The lower-case digit of a value below 16. -/
def lowerDigit (value : Nat) : Char :=
  if value < 10 then Char.ofNat (0x30 + value) else Char.ofNat (0x57 + value)

/-- The upper-case digit of a value below 16. -/
def upperDigit (value : Nat) : Char :=
  if value < 10 then Char.ofNat (0x30 + value) else Char.ofNat (0x37 + value)

/-- The value of a hexadecimal digit, in either case. -/
def value? (c : Char) : Option Nat :=
  let code := c.toNat
  if 0x30 ≤ code ∧ code ≤ 0x39 then some (code - 0x30)
  else if 0x41 ≤ code ∧ code ≤ 0x46 then some (code - 0x37)
  else if 0x61 ≤ code ∧ code ≤ 0x66 then some (code - 0x57)
  else none

/-- Two lower-case digits per byte. -/
def ofBytes (bytes : List UInt8) : List Char :=
  bytes.flatMap fun byte => [lowerDigit (byte.toNat / 16), lowerDigit (byte.toNat % 16)]

/-- The bytes that pairs of digits stand for. -/
def toBytes? : List Char → Option (List UInt8)
  | [] => some []
  | high :: low :: rest => do
      let byte := 16 * (← value? high) + (← value? low)
      return UInt8.ofNat byte :: (← toBytes? rest)
  | _ => none

/-- The shortest lower-case digits of a number, `0` for zero. -/
def ofNat (value : Nat) : List Char :=
  Nat.toDigits 16 value

end FontHosting.Text.Hex
