import FontHosting.Proofs.Script.Pieces
import Mathlib.Data.List.TakeWhile

/-!
# Scripts put together from pieces

`read?_iff`: a text that is made up of a first line and pieces is a script with the trees of
the pieces, each in its place, exactly if each piece that is not new is read where it stands.
The other way round, the text of every script is cut into such pieces (`Program.exists_cut`).
-/

namespace FontHosting.Script

open FontHosting.Script.Parser (stateAt)
open Text.Utf8 (size size_append size_cons size_nil length_encodeChar_pos)

variable {language : Language}

/-! ## First lines -/

theorem scriptStart_eq_self {text : List Char} (h : ∀ rest, text ≠ '#' :: '!' :: rest) :
    scriptStart text = ⟨text, 0⟩ := by
  unfold scriptStart withoutFirstLine
  split
  · exact absurd rfl (h _)
  · exact Source.moveTo_append [] text 0

/-- A text is cut where its first line ends. -/
theorem exists_line (text : List Char) :
    ∃ line rest, text = line ++ rest ∧ (∀ c ∈ line, isLineEnd c = false) ∧
      ∀ c ∈ rest.head?, isLineEnd c := by
  refine ⟨text.takeWhile fun c => !isLineEnd c, text.dropWhile fun c => !isLineEnd c,
    List.takeWhile_append_dropWhile.symm, fun c hc => ?_, fun c hc => ?_⟩
  · simpa using List.mem_takeWhile_imp (p := fun c => !isLineEnd c) hc
  · have hend := List.head?_dropWhile_not (fun c => !isLineEnd c) text
    rw [Option.mem_def.mp hc] at hend
    simpa using hend

/-- A first line that starts with the mark is passed. -/
theorem scriptStart_mark {line rest : List Char} (hline : ∀ c ∈ line, isLineEnd c = false)
    (hrest : ∀ c ∈ rest.head?, isLineEnd c) :
    scriptStart ('#' :: '!' :: line ++ rest) = ⟨rest, size ('#' :: '!' :: line)⟩ := by
  have hleft : withoutFirstLine ('#' :: '!' :: line ++ rest) = rest := by
    rw [List.cons_append, List.cons_append, withoutFirstLine,
      List.dropWhile_append_of_pos fun c hc => by simp [hline c hc]]
    cases rest with
    | nil => rfl
    | cons c rest => simp [hrest c rfl]
  rw [scriptStart, hleft, Source.moveTo_append, Nat.zero_add]

/-- A first line that names a program is passed in front of every text that starts with a
line end, or that is empty. -/
theorem exists_firstLine (text : List Char) :
    ∃ first rest, text = first ++ rest ∧ scriptStart text = ⟨rest, size first⟩ ∧
      (first = [] ∨ (∀ c ∈ rest.head?, isLineEnd c) ∧
        ∀ other, (∀ c ∈ other.head?, isLineEnd c) →
          scriptStart (first ++ other) = ⟨other, size first⟩) := by
  by_cases hmark : ∃ rest, text = '#' :: '!' :: rest
  · obtain ⟨text, rfl⟩ := hmark
    obtain ⟨line, rest, rfl, hline, hrest⟩ := exists_line text
    exact ⟨'#' :: '!' :: line, rest, rfl, scriptStart_mark hline hrest,
      .inr ⟨hrest, fun _ => scriptStart_mark hline⟩⟩
  · exact ⟨[], text, rfl, scriptStart_eq_self fun rest h => hmark ⟨rest, h⟩, .inl rfl⟩

/-! ## Reading a text -/

/-- A script is made up of its directives and of its other items. -/
theorem read?_eq_some_iff {text : List Char} {program : Program} :
    Program.read? language (String.ofList text) = some program ↔
      ∃ items, scriptItems language (depthOf text) (text.length + 1) (scriptStart text) =
        some items ∧ anyCover items = false ∧
        program = ⟨items.takeWhile isDirective, items.dropWhile isDirective⟩ := by
  have hdrop : ∀ items : List Node,
      items.drop (items.takeWhile isDirective).length = items.dropWhile isDirective := fun items =>
    calc items.drop (items.takeWhile isDirective).length
        = (items.takeWhile isDirective ++ items.dropWhile isDirective).drop
            (items.takeWhile isDirective).length := by rw [List.takeWhile_append_dropWhile]
      _ = items.dropWhile isDirective := List.drop_left
  unfold Program.read?
  rw [String.toList_ofList, Option.bind_eq_bind, Option.bind_eq_some_iff]
  refine exists_congr fun items => and_congr_right fun _ => ?_
  cases anyCover items with
  | true => simp
  | false => simp [hdrop, eq_comm]

/-- The mark of a first line is no item. -/
theorem not_isRead_mark {depth : Nat} {piece : Piece} (rest : List Char) (offset : Nat) :
    ¬piece.IsRead language depth ⟨'#' :: '!' :: rest, offset⟩ := by
  rintro ⟨node, next, hitem, -⟩
  obtain ⟨hvalid, -⟩ := covers_itemAt hitem
  have hstep : Trivia.step .blank '#' ('!' :: rest).head? = none := by rfl
  obtain ⟨ended, hleads, hnext⟩ := Source.next_blank offset isBlank_nil hstep
  refine hvalid ?_
  change (stateAt ⟨[] ++ '#' :: '!' :: rest, offset⟩).token.kind = .invalid
  unfold stateAt
  rw [hnext]
  rfl

/-- Pieces have at least one character each. -/
theorem length_le_textOf {pieces : List Piece} (hsound : ∀ piece ∈ pieces, piece.IsSound) :
    pieces.length ≤ (textOf pieces).length := by
  induction pieces with
  | nil => exact Nat.zero_le _
  | cons piece pieces ih =>
      obtain ⟨hpiece, hpieces⟩ := List.forall_mem_cons.mp hsound
      obtain ⟨c, rest, htext, -⟩ := hpiece.starts
      have := ih hpieces
      rw [textOf_cons, htext]
      simp only [List.length_cons, List.length_append]
      omega

section
variable {first tail : List Char} {pieces : List Piece}

/-- Whether a script has the trees of pieces, each in its place. -/
def Program.Has (program : Program) (offset : Nat) (pieces : List Piece) : Prop :=
  (program.directives ++ program.statements).map Node.unplaced =
      pieces.map (Node.unplaced ∘ Piece.tree) ∧
    (program.directives ++ program.statements).map Node.span = spansOf offset pieces

/-- Trees that differ in their places only have covers together. -/
theorem anyCover_congr {items others : List Node}
    (h : items.map Node.unplaced = others.map Node.unplaced) :
    anyCover items = anyCover others := by
  rw [← anyCover_unplacedAll items, ← anyCover_unplacedAll others, unplacedAll_eq_map,
    unplacedAll_eq_map, h]

/-- A text in which the pieces are looked for behind the first line. -/
theorem read?_iff_of_start (hsound : ∀ piece ∈ pieces, piece.IsSound)
    (htail : IsTrailing .blank tail) (hcover : anyCover (pieces.map Piece.tree) = false)
    {text : List Char} (htext : text = first ++ (textOf pieces ++ tail))
    (hnew : ∀ piece ∈ pieces, piece.isNew → piece.IsReadAnywhere language (depthOf text))
    (hstart : scriptStart text = ⟨textOf pieces ++ tail, size first⟩) :
    (∃ program, Program.read? language (String.ofList text) = some program ∧
        program.Has (size first) pieces) ↔
      AreRead language (depthOf text) tail (size first) pieces := by
  have hfuel : pieces.length < text.length + 1 := by
    have := length_le_textOf hsound
    rw [htext]
    simp only [List.length_append]
    omega
  rw [← scriptItems_iff htail hfuel hnew, ← hstart]
  constructor
  · rintro ⟨program, hread, htrees, hspans⟩
    obtain ⟨items, hitems, -, rfl⟩ := read?_eq_some_iff.mp hread
    rw [List.takeWhile_append_dropWhile] at htrees hspans
    exact ⟨items, hitems, htrees, hspans⟩
  · rintro ⟨items, hitems, htrees, hspans⟩
    have hnone : anyCover items = false := by
      rw [← hcover]
      refine anyCover_congr (htrees.trans ?_)
      rw [List.map_map]
    refine ⟨_, read?_eq_some_iff.mpr ⟨items, hitems, hnone, rfl⟩, ?_, ?_⟩ <;>
      rwa [List.takeWhile_append_dropWhile]

/-- A text that starts with the mark of a first line, but should start with its first item. -/
theorem not_read?_mark (hsound : ∀ piece ∈ pieces, piece.IsSound)
    (htail : IsTrailing .blank tail) {rest : List Char}
    (hmark : textOf pieces ++ tail = '#' :: '!' :: rest) :
    ¬(∃ program, Program.read? language (String.ofList (textOf pieces ++ tail)) = some program ∧
        program.Has 0 pieces) ∧
      ∀ depth, (∀ piece ∈ pieces, piece.isNew → piece.IsReadAnywhere language depth) →
        ¬AreRead language depth tail 0 pieces := by
  have hblank : ∀ others, ¬IsTrailing .blank ('#' :: others) := by
    intro others htrailing
    rw [IsTrailing, behindBlanks_cons] at htrailing
    cases htrailing
  cases pieces with
  | nil =>
      obtain rfl : tail = '#' :: '!' :: rest := hmark
      exact absurd htail (hblank _)
  | cons piece others =>
      have hpiece := hsound piece List.mem_cons_self
      have hgap : piece.gap = [] := by
        cases hgap : piece.gap with
        | nil => rfl
        | cons c gap =>
            rw [textOf_cons, hgap] at hmark
            obtain ⟨rfl, -⟩ := List.cons.inj hmark
            have htrailing := (hgap ▸ hpiece.blank).trailing isTrailing_nil
            exact absurd htrailing (hblank _)
      constructor
      · rintro ⟨program, hread, -, hspans⟩
        obtain ⟨items, hitems, -, rfl⟩ := read?_eq_some_iff.mp hread
        rw [List.takeWhile_append_dropWhile] at hspans
        obtain ⟨line, behind, rfl, hline, hbehind⟩ := exists_line rest
        obtain ⟨found, _, -, -, -, -, hplaces, -⟩ := exists_pieces hitems
        -- the first item stands behind the mark, but the first piece does not
        have hstart : scriptStart ('#' :: '!' :: (line ++ behind)) = _ :=
          scriptStart_mark hline hbehind
        rw [hmark, hstart, hspans] at hplaces
        cases found with
        | nil => cases hplaces
        | cons _ _ =>
            have hplace := congrArg Span.start (List.cons.inj hplaces).1
            have hpos := length_encodeChar_pos '#'
            simp only [Piece.spanAt, hgap, size_nil, size_cons] at hplace
            omega
      · intro depth hnew hare
        have hread : piece.IsRead language depth ⟨textOf (piece :: others) ++ tail, 0⟩ := by
          cases hisNew : piece.isNew with
          | false => exact hare.1 hisNew
          | true =>
              rw [textOf_cons, List.append_assoc, List.append_assoc]
              exact hnew piece List.mem_cons_self hisNew _ _
        rw [hmark] at hread
        exact not_isRead_mark _ _ hread

/-- **A text that is made up of pieces is the script of their trees exactly if each piece that
is not new is read where it stands.** -/
theorem read?_iff (hsound : ∀ piece ∈ pieces, piece.IsSound)
    (htail : IsTrailing .blank tail) (hcover : anyCover (pieces.map Piece.tree) = false)
    {text : List Char} (htext : text = first ++ (textOf pieces ++ tail))
    (hnew : ∀ piece ∈ pieces, piece.isNew → piece.IsReadAnywhere language (depthOf text))
    (hfirst : first = [] ∨ scriptStart text = ⟨textOf pieces ++ tail, size first⟩) :
    (∃ program, Program.read? language (String.ofList text) = some program ∧
        program.Has (size first) pieces) ↔
      AreRead language (depthOf text) tail (size first) pieces := by
  by_cases hmark : ∃ rest, text = '#' :: '!' :: rest
  · rcases hfirst with rfl | hstart
    · obtain ⟨rest, hrest⟩ := hmark
      obtain rfl : text = textOf pieces ++ tail := htext
      exact (not_read?_mark hsound htail hrest).elim fun hread hare =>
        iff_of_false hread (hare _ hnew)
    · exact read?_iff_of_start hsound htail hcover htext hnew hstart
  · refine read?_iff_of_start hsound htail hcover htext hnew ?_
    rcases hfirst with rfl | hstart
    · rw [scriptStart_eq_self fun rest h => hmark ⟨rest, h⟩, htext]
      rfl
    · exact hstart

end

/-! ## Cutting a script -/

/-- How a script lies in its text: its first line, the pieces of its directives and of its other
statements, and blanks. -/
structure Program.Cut (program : Program) (language : Language) (text first : List Char)
    (directives statements : List Piece) (tail : List Char) : Prop where
  content : text = first ++ (textOf (directives ++ statements) ++ tail)
  opening : first = [] ∨ (∀ c ∈ (textOf (directives ++ statements) ++ tail).head?, isLineEnd c) ∧
    ∀ other, (∀ c ∈ other.head?, isLineEnd c) → scriptStart (first ++ other) = ⟨other, size first⟩
  start : (scriptStart text).offset = size first
  directiveTrees : directives.map Piece.tree = program.directives
  statementTrees : statements.map Piece.tree = program.statements
  sound : ∀ piece ∈ directives ++ statements, piece.IsSound ∧ piece.isNew = false
  spans : (directives ++ statements).map (Node.span ∘ Piece.tree) =
    spansOf (size first) (directives ++ statements)
  trailing : IsTrailing .blank tail
  uncovered : anyCover (program.directives ++ program.statements) = false
  binds : ∀ statement ∈ program.statements, statement.BindsName (topLevel language)

/-- **A text that is read as a script is cut into its pieces.** -/
theorem Program.exists_cut {text : List Char} {program : Program}
    (h : Program.read? language (String.ofList text) = some program) :
    ∃ first directives statements tail,
      program.Cut language text first directives statements tail := by
  obtain ⟨items, hitems, huncovered, rfl⟩ := read?_eq_some_iff.mp h
  obtain ⟨first, rest, htext, hstart, hfirst⟩ := exists_firstLine text
  rw [hstart] at hitems
  obtain ⟨pieces, tail, rfl, hsound, hrest, htail, hspans, hbinds⟩ := exists_pieces hitems
  obtain rfl : rest = textOf pieces ++ tail := hrest
  have hpieces := List.takeWhile_append_dropWhile (p := isDirective ∘ Piece.tree) (l := pieces)
  refine ⟨first, pieces.takeWhile (isDirective ∘ Piece.tree),
    pieces.dropWhile (isDirective ∘ Piece.tree), tail, ?_⟩
  refine ⟨?_, ?_, ?_, ?_, ?_, ?_, ?_, htail, ?_, ?_⟩
  · rw [hpieces]
    exact htext
  · rw [hpieces]
    exact hfirst
  · rw [hstart]
  · exact (List.takeWhile_map ..).symm
  · exact (List.dropWhile_map ..).symm
  · rw [hpieces]
    exact hsound
  · rw [hpieces, ← List.map_map]
    exact hspans
  · rw [List.takeWhile_append_dropWhile]
    exact huncovered
  · exact fun statement hstatement => hbinds statement ((List.dropWhile_suffix _).subset hstatement)

end FontHosting.Script
