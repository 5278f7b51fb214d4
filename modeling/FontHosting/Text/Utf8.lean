/-!
# UTF-8

Texts are lists of characters and files are lists of bytes.  This file goes from
one to the other.  Encoding is total; decoding has two forms:

* `decodeLossy` reads every byte list, putting U+FFFD where a longest valid
  beginning of a character is cut off or where a byte can start nothing;
* `decode?` accepts exactly the lists that `encode` produces.

The decoder is a machine fed one byte at a time, so both the definition and the
proofs about it are plain recursions on the list.
-/

namespace FontHosting.Text.Utf8

/-- The bytes of one character: one to four of them, by the size of its code point. -/
def encodeChar (c : Char) : List UInt8 :=
  let value := c.toNat
  if value < 0x80 then
    [UInt8.ofNat value]
  else if value < 0x800 then
    [UInt8.ofNat (0xC0 + value / 64), UInt8.ofNat (0x80 + value % 64)]
  else if value < 0x10000 then
    [UInt8.ofNat (0xE0 + value / 4096), UInt8.ofNat (0x80 + value / 64 % 64),
      UInt8.ofNat (0x80 + value % 64)]
  else
    [UInt8.ofNat (0xF0 + value / 262144), UInt8.ofNat (0x80 + value / 4096 % 64),
      UInt8.ofNat (0x80 + value / 64 % 64), UInt8.ofNat (0x80 + value % 64)]

/-- The bytes of a text. -/
def encode (text : List Char) : List UInt8 :=
  text.flatMap encodeChar

/-- The number of bytes of a text. -/
def size (text : List Char) : Nat :=
  (encode text).length

/-- What stands for bytes that are no character. -/
def replacement : Char := Char.ofNat 0xFFFD

/-- Where the decoder stands: between characters, or inside one that still owes
`owed` bytes, the next of them between `low` and `high`, with `value` read so far. -/
inductive Decoder where
  | between
  | inside (owed low high value : Nat)
  deriving DecidableEq, Repr

/-- A byte read between characters: the characters it completes and the next state. -/
def Decoder.lead (byte : Nat) : List Char × Decoder :=
  if byte < 0x80 then ([Char.ofNat byte], .between)
  else if 0xC2 ≤ byte ∧ byte ≤ 0xDF then ([], .inside 1 0x80 0xBF (byte - 0xC0))
  else if byte = 0xE0 then ([], .inside 2 0xA0 0xBF 0)
  else if byte = 0xED then ([], .inside 2 0x80 0x9F 13)
  else if 0xE1 ≤ byte ∧ byte ≤ 0xEF then ([], .inside 2 0x80 0xBF (byte - 0xE0))
  else if byte = 0xF0 then ([], .inside 3 0x90 0xBF 0)
  else if 0xF1 ≤ byte ∧ byte ≤ 0xF3 then ([], .inside 3 0x80 0xBF (byte - 0xF0))
  else if byte = 0xF4 then ([], .inside 3 0x80 0x8F 4)
  else ([replacement], .between)

/-- One byte: the characters it completes and the next state.  A byte that cannot
continue the current character closes it as U+FFFD and is read afresh. -/
def Decoder.step : Decoder → Nat → List Char × Decoder
  | .between, byte => lead byte
  | .inside owed low high value, byte =>
      if low ≤ byte ∧ byte ≤ high then
        let extended := value * 64 + (byte - 0x80)
        if owed ≤ 1 then ([Char.ofNat extended], .between)
        else ([], .inside (owed - 1) 0x80 0xBF extended)
      else
        let (characters, next) := lead byte
        (replacement :: characters, next)

/-- The text a decoder reads from the bytes that follow. -/
def Decoder.run : Decoder → List UInt8 → List Char
  | .between, [] => []
  | .inside .., [] => [replacement]
  | decoder, byte :: rest =>
      let (characters, next) := decoder.step byte.toNat
      characters ++ next.run rest

/-- The text of a byte list, with U+FFFD for what is no UTF-8. -/
def decodeLossy (bytes : List UInt8) : List Char :=
  Decoder.between.run bytes

/-- The text of a byte list, if it is the encoding of one. -/
def decode? (bytes : List UInt8) : Option (List Char) :=
  let text := decodeLossy bytes
  if encode text = bytes then some text else none

/-! ## Cutting a text at a byte position -/

/-- The longest beginning of a text that fits into `limit` bytes, and what is left. -/
def splitAtByte : Nat → List Char → List Char × List Char
  | _, [] => ([], [])
  | limit, c :: rest =>
      let width := (encodeChar c).length
      if width ≤ limit then
        let (before, after) := splitAtByte (limit - width) rest
        (c :: before, after)
      else
        ([], c :: rest)

@[simp] theorem encode_nil : encode [] = [] := rfl

@[simp] theorem encode_cons (c : Char) (text : List Char) :
    encode (c :: text) = encodeChar c ++ encode text := by
  simp [encode]

@[simp] theorem encode_append (first second : List Char) :
    encode (first ++ second) = encode first ++ encode second := by
  simp [encode]

theorem length_encodeChar_pos (c : Char) : 0 < (encodeChar c).length := by
  unfold encodeChar
  grind

@[simp] theorem size_nil : size [] = 0 := rfl

@[simp] theorem size_cons (c : Char) (text : List Char) :
    size (c :: text) = (encodeChar c).length + size text := by
  simp [size]

@[simp] theorem size_append (first second : List Char) :
    size (first ++ second) = size first + size second := by
  simp [size]

theorem size_pos {text : List Char} (h : text ≠ []) : 0 < size text := by
  obtain ⟨c, rest, rfl⟩ := List.exists_cons_of_ne_nil h
  have hchar := length_encodeChar_pos c
  rw [size_cons]
  omega

/-- Cutting loses nothing. -/
theorem splitAtByte_append (limit : Nat) (text : List Char) :
    (splitAtByte limit text).1 ++ (splitAtByte limit text).2 = text := by
  induction text generalizing limit with
  | nil => rfl
  | cons c rest ih =>
      simp only [splitAtByte]
      split
      · simpa using ih (limit - (encodeChar c).length)
      · rfl

end FontHosting.Text.Utf8
