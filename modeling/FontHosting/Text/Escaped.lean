import FontHosting.Text.Hex

/-!
# Texts in double quotes

A text between double quotes, in which a character that cannot be seen is written as
`\u` with its number in braces.
-/

namespace FontHosting.Text.Escaped

/-- Ranges of characters that cannot be seen: controls, blanks other than the space,
marks that join the character before them, and characters without an assigned shape. -/
def invisibleRanges : List (Nat × Nat) := [
  (0x00, 0x1F), (0x7F, 0xA0), (0xAD, 0xAD), (0x300, 0x36F), (0x483, 0x489), (0x591, 0x5BD),
  (0x600, 0x605), (0x61C, 0x61C), (0x6DD, 0x6DD), (0x1680, 0x1680), (0x180B, 0x180F),
  (0x1AB0, 0x1ACE), (0x1DC0, 0x1DFF), (0x2000, 0x200F), (0x2028, 0x202F), (0x205F, 0x206F),
  (0x20D0, 0x20F0), (0x3000, 0x3000), (0x302A, 0x302F), (0xE000, 0xF8FF), (0xFE00, 0xFE0F),
  (0xFE20, 0xFE2F), (0xFEFF, 0xFEFF), (0xFFF0, 0xFFFB), (0xFFFE, 0xFFFF), (0xE0000, 0x10FFFF)]

/-- Whether a character cannot be seen. -/
def isInvisible (c : Char) : Bool :=
  invisibleRanges.any fun range => range.1 ≤ c.toNat && c.toNat ≤ range.2

/-- One character between quotes. -/
def escapeChar (c : Char) : List Char :=
  if c = '"' then ['\\', '"']
  else if c = '\\' then ['\\', '\\']
  else if c = '\n' then ['\\', 'n']
  else if c = '\r' then ['\\', 'r']
  else if c = '\t' then ['\\', 't']
  else if c.toNat = 0 then ['\\', '0']
  else if isInvisible c then '\\' :: 'u' :: '\x7b' :: Hex.ofNat c.toNat ++ ['\x7d']
  else [c]

/-- A text between quotes. -/
def quote (text : List Char) : List Char :=
  '"' :: text.flatMap escapeChar ++ ['"']

end FontHosting.Text.Escaped
