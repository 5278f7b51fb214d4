/-!
# Looking for a text inside another

Searching, cutting and replacing, all on lists of characters.  A cut at a
separator keeps both sides and drops the separator itself.
-/

namespace FontHosting.Text

/-- What stands after `start`, if the text starts with it. -/
def after? (start text : List Char) : Option (List Char) :=
  if start.isPrefixOf text then some (text.drop start.length) else none

/-- What stands before `ending`, if the text ends with it. -/
def before? (ending text : List Char) : Option (List Char) :=
  if ending.isSuffixOf text then some (text.take (text.length - ending.length)) else none

/-- Whether `needle` occurs in `text`. -/
def occursIn (needle : List Char) : List Char → Bool
  | [] => needle.isEmpty
  | c :: rest => needle.isPrefixOf (c :: rest) || occursIn needle rest

/-- The number of characters before the first occurrence of `needle`. -/
def find? (needle : List Char) : List Char → Option Nat
  | [] => if needle.isEmpty then some 0 else none
  | c :: rest =>
      if needle.isPrefixOf (c :: rest) then some 0 else (find? needle rest).map (· + 1)

/-- What stands before and after the first occurrence of `needle`. -/
def splitOnce? (needle text : List Char) : Option (List Char × List Char) :=
  (find? needle text).map fun before =>
    (text.take before, text.drop (before + needle.length))

/-- What stands before and after the last occurrence of a character. -/
def splitLast? (separator : Char) (text : List Char) : Option (List Char × List Char) :=
  match text.reverse.span (· != separator) with
  | (_, []) => none
  | (after, _ :: before) => some (before.reverse, after.reverse)

/-- The pieces between the occurrences of a character; one more than it occurs. -/
def splitOn (separator : Char) : List Char → List (List Char)
  | [] => [[]]
  | c :: rest =>
      if c = separator then
        [] :: splitOn separator rest
      else
        match splitOn separator rest with
        | [] => [[c]]
        | piece :: pieces => (c :: piece) :: pieces

/-- Pieces with a separator between neighbours. -/
def join (separator : List Char) : List (List Char) → List Char
  | [] => []
  | [piece] => piece
  | piece :: pieces => piece ++ separator ++ join separator pieces

/-- `replaceAll` while `skip` characters of an occurrence are still to be passed. -/
def replaceFrom (needle replacement : List Char) : Nat → List Char → List Char
  | _, [] => []
  | skip + 1, _ :: rest => replaceFrom needle replacement skip rest
  | 0, c :: rest =>
      if needle.isPrefixOf (c :: rest) then
        replacement ++ replaceFrom needle replacement (needle.length - 1) rest
      else
        c :: replaceFrom needle replacement 0 rest

/-- A text with every occurrence of a non-empty `needle` replaced, from left to right. -/
def replaceAll (needle replacement text : List Char) : List Char :=
  if needle.isEmpty then text else replaceFrom needle replacement 0 text

/-- A text with every `old` replaced by `new`. -/
def replaceChar (old new : Char) (text : List Char) : List Char :=
  text.map fun c => if c = old then new else c

/-- The lines of a text.  A line ends at LF; a CR before it belongs to the ending,
and a last line without an ending counts if it is not empty. -/
def lines (text : List Char) : List (List Char) :=
  let pieces := splitOn '\n' text
  let ended := pieces.dropLast.map fun line =>
    if line.getLast? = some '\r' then line.dropLast else line
  match pieces.getLast? with
  | none | some [] => ended
  | some last => ended ++ [last]

theorem splitOn_ne_nil (separator : Char) (text : List Char) : splitOn separator text ≠ [] := by
  induction text with
  | nil => simp [splitOn]
  | cons c rest ih =>
      simp only [splitOn]
      split
      · simp
      · split <;> simp

/-- Putting the separator back restores the text. -/
theorem join_splitOn (separator : Char) (text : List Char) :
    join [separator] (splitOn separator text) = text := by
  induction text with
  | nil => rfl
  | cons c rest ih =>
      simp only [splitOn]
      split
      · subst c
        cases pieces : splitOn separator rest with
        | nil => exact absurd pieces (splitOn_ne_nil separator rest)
        | cons piece others => simp [join, ← pieces, ih]
      · cases pieces : splitOn separator rest with
        | nil => exact absurd pieces (splitOn_ne_nil separator rest)
        | cons piece others =>
            rw [pieces] at ih
            cases others with
            | nil => simpa [join] using ih
            | cons second others => simpa [join] using ih

end FontHosting.Text
