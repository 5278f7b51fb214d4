import FontHosting.Text.Hex

/-!
# SHA-256

The digest that names font files and stylesheets after their content.  A message
is padded to blocks of sixteen words; each block is extended to sixty-four words
and stirred into the eight words of the state.
-/

namespace FontHosting.Digest

/-- The cube-root constants, one per round. -/
def roundConstants : List UInt32 := [
  0x428a2f98, 0x71374491, 0xb5c0fbcf, 0xe9b5dba5, 0x3956c25b, 0x59f111f1, 0x923f82a4, 0xab1c5ed5,
  0xd807aa98, 0x12835b01, 0x243185be, 0x550c7dc3, 0x72be5d74, 0x80deb1fe, 0x9bdc06a7, 0xc19bf174,
  0xe49b69c1, 0xefbe4786, 0x0fc19dc6, 0x240ca1cc, 0x2de92c6f, 0x4a7484aa, 0x5cb0a9dc, 0x76f988da,
  0x983e5152, 0xa831c66d, 0xb00327c8, 0xbf597fc7, 0xc6e00bf3, 0xd5a79147, 0x06ca6351, 0x14292967,
  0x27b70a85, 0x2e1b2138, 0x4d2c6dfc, 0x53380d13, 0x650a7354, 0x766a0abb, 0x81c2c92e, 0x92722c85,
  0xa2bfe8a1, 0xa81a664b, 0xc24b8b70, 0xc76c51a3, 0xd192e819, 0xd6990624, 0xf40e3585, 0x106aa070,
  0x19a4c116, 0x1e376c08, 0x2748774c, 0x34b0bcb5, 0x391c0cb3, 0x4ed8aa4a, 0x5b9cca4f, 0x682e6ff3,
  0x748f82ee, 0x78a5636f, 0x84c87814, 0x8cc70208, 0x90befffa, 0xa4506ceb, 0xbef9a3f7, 0xc67178f2]

/-- The eight words stirred by the rounds. -/
structure Words where
  a : UInt32
  b : UInt32
  c : UInt32
  d : UInt32
  e : UInt32
  f : UInt32
  g : UInt32
  h : UInt32
  deriving DecidableEq, Repr

/-- The square-root constants every digest starts from. -/
def Words.initial : Words :=
  ⟨0x6a09e667, 0xbb67ae85, 0x3c6ef372, 0xa54ff53a, 0x510e527f, 0x9b05688c, 0x1f83d9ab, 0x5be0cd19⟩

/-- A word turned to the right. -/
def rotateRight (word : UInt32) (count : UInt32) : UInt32 :=
  (word >>> count) ||| (word <<< (32 - count))

/-- One round. -/
def Words.round (state : Words) (key word : UInt32) : Words :=
  let sum1 := rotateRight state.e 6 ^^^ rotateRight state.e 11 ^^^ rotateRight state.e 25
  let choice := (state.e &&& state.f) ^^^ (~~~state.e &&& state.g)
  let first := state.h + sum1 + choice + key + word
  let sum0 := rotateRight state.a 2 ^^^ rotateRight state.a 13 ^^^ rotateRight state.a 22
  let majority := (state.a &&& state.b) ^^^ (state.a &&& state.c) ^^^ (state.b &&& state.c)
  ⟨first + sum0 + majority, state.a, state.b, state.c, state.d + first, state.e, state.f, state.g⟩

/-- The states of two blocks, added word by word. -/
def Words.add (x y : Words) : Words :=
  ⟨x.a + y.a, x.b + y.b, x.c + y.c, x.d + y.d, x.e + y.e, x.f + y.f, x.g + y.g, x.h + y.h⟩

/-- The words of a state in order. -/
def Words.toList (state : Words) : List UInt32 :=
  [state.a, state.b, state.c, state.d, state.e, state.f, state.g, state.h]

/-- The next word of a schedule, given the words so far with the latest first. -/
def scheduledWord (latest : List UInt32) : UInt32 :=
  let two := latest.getD 1 0
  let seven := latest.getD 6 0
  let fifteen := latest.getD 14 0
  let sixteen := latest.getD 15 0
  let small0 := rotateRight fifteen 7 ^^^ rotateRight fifteen 18 ^^^ (fifteen >>> 3)
  let small1 := rotateRight two 17 ^^^ rotateRight two 19 ^^^ (two >>> 10)
  sixteen + small0 + seven + small1

/-- A block extended by `count` words, latest first. -/
def extendSchedule : Nat → List UInt32 → List UInt32
  | 0, latest => latest
  | count + 1, latest => extendSchedule count (scheduledWord latest :: latest)

/-- Stir one block of sixteen words into a state. -/
def Words.compress (state : Words) (block : List UInt32) : Words :=
  let schedule := (extendSchedule 48 block.reverse).reverse
  state.add ((roundConstants.zip schedule).foldl (fun s kw => s.round kw.1 kw.2) state)

/-- The bytes of a number, highest first, in a fixed count. -/
def bigEndian : Nat → Nat → List UInt8
  | 0, _ => []
  | count + 1, value => UInt8.ofNat (value / Nat.pow 256 count) :: bigEndian count value

/-- A message with the padding that makes it a whole number of blocks: a one bit,
zeros, and the length of the message in bits. -/
def pad (message : List UInt8) : List UInt8 :=
  let length := message.length
  let zeros := (119 - length % 64) % 64
  message ++ 0x80 :: List.replicate zeros 0 ++ bigEndian 8 (8 * length)

/-- Four bytes to a word. -/
def toWords : List UInt8 → List UInt32
  | a :: b :: c :: d :: rest =>
      (a.toUInt32 <<< 24 ||| b.toUInt32 <<< 16 ||| c.toUInt32 <<< 8 ||| d.toUInt32) :: toWords rest
  | _ => []

/-- Stir the first `blocks` blocks of a list of words into a state. -/
def Words.absorb (state : Words) : Nat → List UInt32 → Words
  | 0, _ => state
  | blocks + 1, words => (state.compress (words.take 16)).absorb blocks (words.drop 16)

/-- The thirty-two bytes of a digest. -/
def sha256 (message : List UInt8) : List UInt8 :=
  let words := toWords (pad message)
  (Words.initial.absorb (words.length / 16) words).toList.flatMap fun word =>
    bigEndian 4 word.toNat

/-- A digest in hexadecimal digits. -/
def hexDigest (message : List UInt8) : List Char :=
  Text.Hex.ofBytes (sha256 message)

end FontHosting.Digest
