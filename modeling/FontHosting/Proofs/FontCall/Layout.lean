import FontHosting.FontCall.Edit
import FontHosting.Proofs.Script.Pieces

/-!
# Layouts of edited scripts

The text of a script is given by its pieces, some of which an edit removes, and `lay` says
what becomes of the pieces: the blanks in front of a removed piece go to what comes next,
without the line end behind the piece, and the imports take the place of the first removed
piece.  So the pieces of the layout still stand behind blanks (`isSound_lay`), and their
trees are the ones that are kept with those of the imports between them (`trees_lay`).
-/

namespace FontHosting.FontCall

open Script
open Text.Utf8 (size size_append size_cons splitAtByte_size)

/-! ## Places in a text -/

theorem sliceFrom_append (passed rest : List Char) :
    sliceFrom (passed ++ rest) (size passed) = rest := by
  rw [sliceFrom, splitAtByte_size]

theorem slice_append (passed kept rest : List Char) :
    slice (passed ++ (kept ++ rest)) (size passed) (size passed + size kept) = kept := by
  rw [slice, splitAtByte_size, Nat.add_sub_cancel_left, splitAtByte_size]

/-- A text without the line end that it starts with. -/
def dropLineEnd : List Char → List Char
  | '\r' :: '\n' :: rest => rest
  | '\n' :: rest => rest
  | text => text

/-- The line end that a text starts with, which may be none. -/
theorem exists_lineEnd (text : List Char) :
    ∃ lineEnd, text = lineEnd ++ dropLineEnd text ∧ IsBlank .blank lineEnd ∧
      ∀ passed, skipLineEnd (passed ++ text) (size passed) = size (passed ++ lineEnd) := by
  have hnewline : IsBlank .blank ['\n'] := isBlank_lineEnd (by decide)
  simp only [skipLineEnd, sliceFrom_append, size_append]
  unfold dropLineEnd
  split
  · exact ⟨['\r', '\n'], rfl, (isBlank_lineEnd (by decide)).append hnewline, fun _ => rfl⟩
  · exact ⟨['\n'], rfl, hnewline, fun _ => rfl⟩
  · exact ⟨[], rfl, isBlank_nil, fun _ => by simp_all⟩

/-- What ends no line is no part of the line end in front of it. -/
theorem dropLineEnd_append {c : Char} (hreturn : c ≠ '\r') (hnewline : c ≠ '\n')
    (gap rest : List Char) : dropLineEnd (gap ++ c :: rest) = dropLineEnd gap ++ c :: rest := by
  rcases gap with _ | ⟨a, _ | ⟨b, gap⟩⟩ <;> simp only [List.nil_append, List.cons_append] <;>
    unfold dropLineEnd <;> grind

theorem behindBlanks_dropLineEnd (text rest : List Char) :
    behindBlanks .blank (dropLineEnd text ++ rest) = behindBlanks .blank (text ++ rest) := by
  obtain ⟨lineEnd, htext, hblank, -⟩ := exists_lineEnd text
  calc behindBlanks .blank (dropLineEnd text ++ rest)
      = behindBlanks .blank (lineEnd ++ (dropLineEnd text ++ rest)) := (hblank _).symm
    _ = behindBlanks .blank (text ++ rest) := by rw [← List.append_assoc, ← htext]

/-! ## Layouts -/

/-- The pieces of a text and what is left behind them. -/
structure Layout where
  pieces : List Piece
  tail : List Char

/-- The text that a layout stands for. -/
def Layout.text (layout : Layout) : List Char :=
  textOf layout.pieces ++ layout.tail

/-- A layout with blanks in front. -/
def Layout.behind (gap : List Char) : Layout → Layout
  | ⟨[], tail⟩ => ⟨[], gap ++ tail⟩
  | ⟨piece :: pieces, tail⟩ => ⟨{ piece with gap := gap ++ piece.gap } :: pieces, tail⟩

/-- A layout with other pieces in front. -/
def Layout.after (pieces : List Piece) (layout : Layout) : Layout :=
  ⟨pieces ++ layout.pieces, layout.tail⟩

theorem textOf_append (first second : List Piece) :
    textOf (first ++ second) = textOf first ++ textOf second :=
  List.flatMap_append

@[simp] theorem text_behind (gap : List Char) (layout : Layout) :
    (layout.behind gap).text = gap ++ layout.text := by
  rcases layout with ⟨_ | ⟨piece, pieces⟩, tail⟩
  · rfl
  · simp [Layout.behind, Layout.text, textOf_cons]

@[simp] theorem text_after (pieces : List Piece) (layout : Layout) :
    (layout.after pieces).text = textOf pieces ++ layout.text := by
  rw [Layout.text, Layout.after, textOf_append, List.append_assoc]
  rfl

/-- A piece of a text that is to be edited. -/
structure Part where
  piece : Piece
  removed : Bool

/-- Whether the text of a part starts, and with no line end. -/
def Part.IsSolid (part : Part) : Prop :=
  ∃ c rest, part.piece.text = c :: rest ∧ c ≠ '\r' ∧ c ≠ '\n'

/-- The text of several parts. -/
def partsText (parts : List Part) : List Char :=
  textOf (parts.map Part.piece)

/-- A text whose first line end is dropped if what stood in front of it was removed. -/
def trimmed (trim : Bool) (text : List Char) : List Char :=
  if trim then dropLineEnd text else text

/-- What becomes of the parts of a text, and of its tail.  The new pieces take the place of
the first part that is removed; then there are none left.  `trim` says that a part was
removed just before. -/
def lay (tail : List Char) : Bool → List Piece → List Part → Layout
  | trim, _, [] => ⟨[], trimmed trim tail⟩
  | trim, new, part :: parts =>
      let gap := trimmed trim part.piece.gap
      if part.removed then
        if new.isEmpty then (lay tail true [] parts).behind gap
        else ((lay tail false [] parts).after new).behind gap
      else (lay tail false new parts).after [{ part.piece with gap }]

theorem lay_kept {tail : List Char} {trim : Bool} {new : List Piece} {part : Part}
    {parts : List Part} (h : part.removed = false) :
    (lay tail trim new (part :: parts)).text =
      trimmed trim part.piece.gap ++ (part.piece.text ++ (lay tail false new parts).text) := by
  simp [lay, h, textOf]

theorem lay_removed {tail : List Char} {trim : Bool} {part : Part} {parts : List Part}
    (h : part.removed = true) :
    (lay tail trim [] (part :: parts)).text =
      trimmed trim part.piece.gap ++ (lay tail true [] parts).text := by
  simp [lay, h]

theorem lay_first {tail : List Char} {trim : Bool} {new : List Piece} {part : Part}
    {parts : List Part} (h : part.removed = true) (hnew : new ≠ []) :
    (lay tail trim new (part :: parts)).text =
      trimmed trim part.piece.gap ++ (textOf new ++ (lay tail false [] parts).text) := by
  simp [lay, h, hnew]

/-! ## Sound layouts -/

section
variable {language : Language} {depth : Nat}

/-- Whether a piece starts behind blanks and, if it is new, is read behind any blanks. -/
structure IsLaid (language : Language) (depth : Nat) (piece : Piece) : Prop where
  sound : piece.IsSound
  readable : piece.isNew → ∀ gap, IsBlank .blank gap →
    ({ piece with gap } : Piece).IsReadAnywhere language depth

/-- Whether a layout is made up of such pieces and blanks behind them. -/
structure Layout.IsSound (language : Language) (depth : Nat) (layout : Layout) : Prop where
  pieces : ∀ piece ∈ layout.pieces, IsLaid language depth piece
  tail : IsTrailing .blank layout.tail

theorem IsLaid.behind {piece : Piece} (h : IsLaid language depth piece) {gap : List Char}
    (hgap : IsBlank .blank gap) : IsLaid language depth { piece with gap } :=
  ⟨⟨hgap, h.sound.starts⟩, h.readable⟩

theorem Layout.IsSound.behind {layout : Layout} (h : layout.IsSound language depth)
    {gap : List Char} (hgap : IsBlank .blank gap) :
    (layout.behind gap).IsSound language depth := by
  obtain ⟨_ | ⟨piece, pieces⟩, tail⟩ := layout
  · exact ⟨nofun, hgap.trailing h.tail⟩
  · obtain ⟨hpiece, hpieces⟩ := List.forall_mem_cons.mp h.pieces
    exact ⟨List.forall_mem_cons.mpr ⟨hpiece.behind (hgap.append hpiece.sound.blank), hpieces⟩,
      h.tail⟩

theorem Layout.IsSound.after {layout : Layout} (h : layout.IsSound language depth)
    {pieces : List Piece} (hpieces : ∀ piece ∈ pieces, IsLaid language depth piece) :
    (layout.after pieces).IsSound language depth :=
  ⟨List.forall_mem_append.mpr ⟨hpieces, h.pieces⟩, h.tail⟩

theorem isBlank_trimmed {gap : List Char} (hgap : IsBlank .blank gap) (trim : Bool) :
    IsBlank .blank (trimmed trim gap) := by
  cases trim with
  | false => exact hgap
  | true => exact fun rest => (behindBlanks_dropLineEnd gap rest).trans (hgap rest)

theorem isTrailing_trimmed {tail : List Char} (htail : IsTrailing .blank tail) (trim : Bool) :
    IsTrailing .blank (trimmed trim tail) := by
  cases trim with
  | false => exact htail
  | true =>
      have hsame := behindBlanks_dropLineEnd tail []
      rw [List.append_nil, List.append_nil] at hsame
      exact hsame.trans htail

/-- Whatever is removed, what is left is sound. -/
theorem isSound_lay {tail : List Char} (htail : IsTrailing .blank tail) {parts : List Part}
    (hparts : ∀ part ∈ parts, IsLaid language depth part.piece) {trim : Bool} {new : List Piece}
    (hnew : ∀ piece ∈ new, IsLaid language depth piece) :
    (lay tail trim new parts).IsSound language depth := by
  induction parts generalizing trim new with
  | nil => exact ⟨nofun, isTrailing_trimmed htail trim⟩
  | cons part parts ih =>
      obtain ⟨hpart, hparts⟩ := List.forall_mem_cons.mp hparts
      have hgap := isBlank_trimmed hpart.sound.blank trim
      rw [lay]
      dsimp only
      split
      · split
        · exact (ih hparts (List.forall_mem_nil _)).behind hgap
        · exact ((ih hparts (List.forall_mem_nil _)).after hnew).behind hgap
      · refine (ih hparts hnew).after fun piece hpiece => ?_
        obtain rfl := List.mem_singleton.mp hpiece
        exact hpart.behind hgap

end

/-! ## The trees of a layout -/

/-- The trees of a layout, in order. -/
def Layout.trees (layout : Layout) : List Node :=
  layout.pieces.map Piece.tree

theorem trees_behind (gap : List Char) (layout : Layout) :
    (layout.behind gap).trees = layout.trees := by
  obtain ⟨_ | _, tail⟩ := layout <;> rfl

theorem trees_after (pieces : List Piece) (layout : Layout) :
    (layout.after pieces).trees = pieces.map Piece.tree ++ layout.trees :=
  List.map_append

theorem trees_lay_nil {tail : List Char} {removed : Node → Bool} (trim : Bool)
    (pieces : List Piece) :
    (lay tail trim [] (pieces.map fun piece => ⟨piece, removed piece.tree⟩)).trees =
      (pieces.map Piece.tree).filter fun node => !removed node := by
  induction pieces generalizing trim with
  | nil => rfl
  | cons piece pieces ih =>
      rw [List.map_cons, lay]
      cases hremoved : removed piece.tree with
      | true => simp [trees_behind, ih, hremoved]
      | false => simp [trees_after, ih, hremoved]

/-- The new pieces stand where the first piece was removed. -/
theorem trees_lay {tail : List Char} {removed : Node → Bool} {new pieces : List Piece}
    (hremoved : ∃ piece ∈ pieces, removed piece.tree) (trim : Bool) :
    (lay tail trim new (pieces.map fun piece => ⟨piece, removed piece.tree⟩)).trees =
      (pieces.map Piece.tree).takeWhile (fun node => !removed node) ++ new.map Piece.tree ++
        ((pieces.map Piece.tree).dropWhile fun node => !removed node).filter
          fun node => !removed node := by
  induction pieces generalizing trim with
  | nil => exact absurd hremoved nofun
  | cons piece pieces ih =>
      rw [List.map_cons, lay]
      cases hpiece : removed piece.tree with
      | true =>
          by_cases hnew : new = [] <;>
            simp [trees_behind, trees_after, trees_lay_nil, hpiece, hnew]
      | false =>
          have hothers : ∃ piece ∈ pieces, removed piece.tree := by simpa [hpiece] using hremoved
          simp [trees_after, ih hothers, hpiece]

end FontHosting.FontCall
