/-!
# Blank characters

The characters with the Unicode property White_Space, and cutting them off the
ends of a text.
-/

namespace FontHosting.Text

/-- The Unicode property White_Space. -/
def isBlank (c : Char) : Bool :=
  let value := c.toNat
  (9 ≤ value && value ≤ 13) || value == 0x20 || value == 0x85 || value == 0xA0 ||
    value == 0x1680 || (0x2000 ≤ value && value ≤ 0x200A) || value == 0x2028 ||
    value == 0x2029 || value == 0x202F || value == 0x205F || value == 0x3000

/-- A text without the blanks it starts with. -/
def trimStart (text : List Char) : List Char :=
  text.dropWhile isBlank

/-- A text without the last characters that satisfy `drop`. -/
def dropEndWhile (drop : Char → Bool) (text : List Char) : List Char :=
  (text.reverse.dropWhile drop).reverse

/-- A text without the blanks it ends with. -/
def trimEnd (text : List Char) : List Char :=
  dropEndWhile isBlank text

/-- A text without the blanks on both sides. -/
def trim (text : List Char) : List Char :=
  trimEnd (trimStart text)

/-- The maximal runs of non-blank characters. -/
def words (text : List Char) : List (List Char) :=
  (text.splitBy fun a b => isBlank a == isBlank b).filter
    fun run => !(run.headD ' ' |> isBlank)

/-- Every character of core's smaller class is blank. -/
theorem isBlank_of_isWhitespace {c : Char} (h : c.isWhitespace = true) : isBlank c = true := by
  simp only [Char.isWhitespace, Bool.or_eq_true, decide_eq_true_eq] at h
  rcases h with ((rfl | rfl) | rfl) | rfl <;> decide

end FontHosting.Text
