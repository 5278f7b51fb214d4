import FontHosting.Css.Families
import FontHosting.Text.Utf8

/-!
# Where the families of a stylesheet stand

`segments` cuts a stylesheet into pieces.  Here its families are looked for by place: a place is
told by the bytes in front of its two ends, the ends are added up from one search after the
other, and what stands between them is sliced out of the text.

Not every place can be sliced.  An end behind the text has nothing to stand at, one inside of a
character would split it, and a part cannot end in front of its start.  So each function here
answers a bad slice as soon as it meets one.
-/

namespace FontHosting.Css

open Text.Utf8 (encodeChar size size_append size_pos splitAtByte)

/-- A part of a text: the byte at which it starts, and the first one behind it. -/
structure Place where
  start : Nat
  stop : Nat
  deriving DecidableEq, Repr

/-- A place that is no part of a text. -/
structure BadSlice where
  place : Place
  deriving DecidableEq, Repr

/-! ## Slices and searches -/

/-- What stands at a place. -/
def slice (text : List Char) (place : Place) : Except BadSlice (List Char) :=
  let (before, _) := splitAtByte place.stop text
  let (front, part) := splitAtByte place.start before
  if size before = place.stop ∧ size front = place.start then .ok part else .error ⟨place⟩

/-- What stands behind a byte. -/
def sliceFrom (text : List Char) (start : Nat) : Except BadSlice (List Char) :=
  slice text ⟨start, size text⟩

/-- The number of bytes in front of the first occurrence of a text. -/
def findByte? (needle text : List Char) : Option Nat :=
  (Text.find? needle text).map fun count => size (text.take count)

/-- A slice is as long as its place. -/
theorem size_of_slice {text part : List Char} {place : Place} (h : slice text place = .ok part) :
    place.start + size part = place.stop := by
  unfold slice at h
  dsimp only at h
  split at h
  · rename_i hsize
    cases h
    have hsplit := Text.Utf8.splitAtByte_append place.start (splitAtByte place.stop text).1
    have hsum := congrArg size hsplit
    rwa [size_append, hsize.1, hsize.2] at hsum
  · cases h

/-- Whatever occurs occurs in a text that is not empty. -/
theorem size_pos_of_findByte? {needle text : List Char} {found : Nat} (hneedle : needle ≠ [])
    (h : findByte? needle text = some found) : 0 < size text := by
  refine size_pos ?_
  rintro rfl
  simp [findByte?, Text.find?, hneedle] at h

/-! ## Bodies -/

/-- The byte of the first closing brace outside of quotes, in a text behind `offset` bytes. -/
def closingBrace? : Option Char → Nat → List Char → Option Nat
  | _, _, [] => none
  | quote, offset, c :: rest =>
      if quote = none ∧ c = '\x7d' then some offset
      else closingBrace? (quoteAfter quote c) (offset + (encodeChar c).length) rest

/-- The body of the first rule behind a byte, and the byte from which to look for the next one.
The body ends at its closing brace, or with the stylesheet if it has none. -/
def nextBody? (css : List Char) (search : Nat) : Except BadSlice (Option (Place × Nat)) := do
  match findByte? faceKeyword (← sliceFrom css search) with
  | none => return none
  | some keyword =>
      let face := search + keyword
      match findByte? ['\x7b'] (← sliceFrom css face) with
      | none => return none
      | some brace =>
          let start := face + brace + 1
          let closing := closingBrace? none start (← sliceFrom css start)
          let stop := closing.getD (size css)
          return some (⟨start, stop⟩, min (stop + 1) (size css))

theorem le_of_closingBrace? {quote : Option Char} {offset closing : Nat} {text : List Char}
    (h : closingBrace? quote offset text = some closing) : offset ≤ closing := by
  induction text generalizing quote offset with
  | nil => cases h
  | cons c rest ih =>
      rw [closingBrace?] at h
      split at h
      · cases h
        exact Nat.le_refl _
      · have hrest := ih h
        omega

/-- The search moves on with every body, and it stays inside of the stylesheet. -/
theorem lt_of_nextBody? {css : List Char} {search next : Nat} {body : Place}
    (h : nextBody? css search = .ok (some (body, next))) : search < next ∧ next ≤ size css := by
  simp only [nextBody?, bind, Except.bind, pure, Except.pure] at h
  split at h
  · cases h
  rename_i rest hrest
  split at h
  · cases h
  rename_i keyword hkeyword
  split at h
  · cases h
  split at h
  · cases h
  rename_i brace _
  split at h
  · cases h
  rename_i behind _
  -- Something was found behind the byte, so it is not the end of the stylesheet.
  have hinside : search < size css := by
    have hfilled := size_pos_of_findByte? (by decide) hkeyword
    have hsize : search + size rest = size css := size_of_slice hrest
    omega
  have hstop : search <
      (closingBrace? none (search + keyword + brace + 1) behind).getD (size css) + 1 := by
    cases hclosing : closingBrace? none (search + keyword + brace + 1) behind with
    | none =>
        rw [Option.getD_none]
        omega
    | some closing =>
        have hle := le_of_closingBrace? hclosing
        rw [Option.getD_some]
        omega
  cases h
  omega

/-- The bodies of all rules for fonts behind a byte. -/
def bodiesFrom (css : List Char) (search : Nat) : Except BadSlice (List Place) :=
  match _hnext : nextBody? css search with
  | .error bad => .error bad
  | .ok none => .ok []
  | .ok (some (body, next)) => (bodiesFrom css next).map (body :: ·)
termination_by size css - search
decreasing_by
  have hmoved := lt_of_nextBody? _hnext
  omega

/-- The bodies of all rules for fonts. -/
def faceBodies (css : List Char) : Except BadSlice (List Place) := bodiesFrom css 0

/-! ## Families -/

/-- The declarations of a body that ends at `stop`, of which the text behind `offset` bytes is
left.  The first of them starts at `start`. -/
def declarationPlaces (stop : Nat) (quote : Option Char) (start offset : Nat) :
    List Char → List Place
  | [] => [⟨start, stop⟩]
  | c :: rest =>
      let next := offset + (encodeChar c).length
      if quote = none ∧ c = ';' then
        ⟨start, offset⟩ :: declarationPlaces stop none (offset + 1) next rest
      else declarationPlaces stop (quoteAfter quote c) start next rest

/-- The value of a declaration, if it names a family and is more than blanks. -/
def familyOf (css : List Char) (declaration : Place) : Except BadSlice (Option Place) := do
  let text ← slice css declaration
  match findByte? [':'] text with
  | none => return none
  | some colon =>
      let property ← slice text ⟨0, colon⟩
      if Text.trim property = "font-family".toList then
        let value ← sliceFrom text (colon + 1)
        let leading := size value - size (Text.trimStart value)
        let start := declaration.start + colon + 1 + leading
        let stop := declaration.start + colon + 1 + size (Text.trimEnd value)
        return if start < stop then some ⟨start, stop⟩ else none
      else return none

/-- The first value of a family in a body. -/
def familyValue (css : List Char) (body : Place) : Except BadSlice (Option Place) := do
  let text ← slice css body
  (declarationPlaces body.stop none body.start body.start text).findSomeM? (familyOf css)

/-- The values of the families of a stylesheet. -/
def familyPlaces (css : List Char) : Except BadSlice (List Place) := do
  (← faceBodies css).filterMapM (familyValue css)

/-! ## Renaming -/

/-- What stands behind a byte of a text, with a name in place of each of the values. -/
def replaceFrom (name text : List Char) (cursor : Nat) :
    List Place → Except BadSlice (List Char)
  | [] => sliceFrom text cursor
  | value :: rest => do
      let kept ← slice text ⟨cursor, value.start⟩
      return kept ++ name ++ (← replaceFrom name text value.stop rest)

/-- A stylesheet with every family replaced by a name that is made of the first one, together
with the first one; nothing if there is no family. -/
def renameByPlace (rename : List Char → List Char) (css : List Char) :
    Except BadSlice (Option (List Char × List Char)) := do
  match ← familyPlaces css with
  | [] => return none
  | first :: rest =>
      let family := unquoted (← slice css first)
      return some (← replaceFrom (rename family) css 0 (first :: rest), family)

end FontHosting.Css
