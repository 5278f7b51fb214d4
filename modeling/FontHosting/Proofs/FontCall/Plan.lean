import FontHosting.Proofs.FontCall.Bound
import FontHosting.Proofs.FontCall.Deletion
import FontHosting.Proofs.FontCall.Wording
import FontHosting.Proofs.Script.Composition

/-!
# What an edit leaves of a script

`plan` is the layout of a script after its edit: what is kept of it, with the imports in
the place of the first statement that is deleted, and the exports behind it.  Its pieces
have the trees of `editedStatements` behind the directives (`trees_plan`), and it is sound
in the sense that the blanks between its pieces are blanks, and that what is new is read
wherever it stands (`isSound_plan`).  The code of an edit is the text of its plan
(`apply_eq_plan`).
-/

namespace FontHosting.FontCall

open Script
open Text.Utf8 (size size_append)

/-! ## Lines -/

/-- Pieces on lines of their own, the first of which stands behind a gap. -/
def linesOf : List Char → List Piece → List Piece
  | _, [] => []
  | gap, first :: others => { first with gap } :: linesOf ['\n'] others

theorem textOf_linesOf (gap : List Char) {pieces : List Piece} (hne : pieces ≠ []) :
    textOf (linesOf gap pieces) = gap ++ Text.join ['\n'] (pieces.map Piece.text) := by
  induction pieces generalizing gap with
  | nil => exact absurd rfl hne
  | cons first others ih =>
      rw [linesOf, textOf_cons]
      cases others with
      | nil => simp [linesOf, textOf, Text.join]
      | cons second others =>
          rw [ih ['\n'] (List.cons_ne_nil second others)]
          simp [Text.join]

theorem trees_linesOf (gap : List Char) (pieces : List Piece) :
    (linesOf gap pieces).map Piece.tree = pieces.map Piece.tree := by
  induction pieces generalizing gap with
  | nil => rfl
  | cons first others ih => rw [linesOf, List.map_cons, List.map_cons, ih]

theorem isLaid_linesOf {language : Language} {depth : Nat} {gap : List Char} {pieces : List Piece}
    (hgap : IsBlank .blank gap) (hpieces : ∀ piece ∈ pieces, IsLaid language depth piece) :
    ∀ piece ∈ linesOf gap pieces, IsLaid language depth piece := by
  induction pieces generalizing gap with
  | nil => exact List.forall_mem_nil _
  | cons first others ih =>
      obtain ⟨hfirst, hothers⟩ := List.forall_mem_cons.mp hpieces
      exact List.forall_mem_cons.mpr
        ⟨hfirst.behind hgap, ih (isBlank_lineEnd (by decide)) hothers⟩

/-! ## Exports -/

/-- The line end that is missing behind a text. -/
def missingLineEnd (text : List Char) : List Char :=
  if text.isEmpty ∨ text.getLast? = some '\n' then [] else ['\n']

/-- A layout with the exports of constants behind it, on lines of their own. -/
def Layout.withExports (layout : Layout) (names : List String) : Layout :=
  if names.isEmpty then layout
  else
    let gap := layout.tail ++ missingLineEnd layout.text
    ⟨layout.pieces ++ linesOf gap (names.map exportPiece), ['\n']⟩

theorem trees_withExports (layout : Layout) (names : List String) :
    (layout.withExports names).trees = layout.trees ++ names.map exportTree := by
  unfold Layout.withExports
  split
  · simp_all
  · simp [Layout.trees, trees_linesOf, exportPiece, Function.comp_def]

/-- Whether a line end is missing does not depend on what stands in front of a text. -/
theorem missingLineEnd_append {first text : List Char} (h : first = [] ∨ text ≠ []) :
    missingLineEnd (first ++ text) = missingLineEnd text := by
  rcases h with rfl | hne
  · rfl
  · obtain ⟨last, hlast⟩ := Option.isSome_iff_exists.mp (List.getLast?_isSome.mpr hne)
    simp [missingLineEnd, hne, List.getLast?_append, hlast]

/-- The exports are appended to the text of a layout. -/
theorem append_eq_withExports {edit : Edit} {names : List String} {first : List Char}
    {layout : Layout} (hexports : edit.exports = names.map renderExport)
    (hfirst : first = [] ∨ layout.text ≠ []) :
    edit.append (first ++ layout.text) = first ++ (layout.withExports names).text := by
  cases names with
  | nil => simp [Edit.append, hexports, Layout.withExports]
  | cons name names =>
      have hlines : joinLines edit.exports =
          Text.join ['\n'] (((name :: names).map exportPiece).map Piece.text) := by
        simp [hexports, joinLines, exportPiece, Function.comp_def]
      have hsome : edit.exports.isEmpty = false := by simp [hexports]
      have hseparator : (if (first ++ layout.text).isEmpty ∨
          (first ++ layout.text).getLast? = some '\n' then [] else ['\n']) =
          missingLineEnd layout.text := missingLineEnd_append hfirst
      have hne : (name :: names).map exportPiece ≠ [] := List.cons_ne_nil _ _
      have htext : (layout.withExports (name :: names)).text =
          layout.text ++ (missingLineEnd layout.text ++
            (Text.join ['\n'] (((name :: names).map exportPiece).map Piece.text) ++ ['\n'])) := by
        rw [Layout.withExports, if_neg (by simp)]
        simp only [Layout.text, textOf_append, textOf_linesOf _ hne, List.append_assoc]
      rw [Edit.append, hsome, htext]
      simp only [Bool.false_eq_true, if_false, hseparator, hlines, List.append_assoc]

/-- What stands between the last piece of a layout and an export behind it is blank. -/
theorem isBlank_missingLineEnd {first tail : List Char} (htail : IsTrailing .blank tail) :
    IsBlank .blank (tail ++ missingLineEnd (first ++ tail)) := by
  have hnewline : IsBlank .blank ['\n'] := isBlank_lineEnd (by decide)
  by_cases hempty : tail = []
  · subst hempty
    unfold missingLineEnd
    split
    · exact isBlank_nil
    · exact hnewline
  · rw [missingLineEnd_append (.inr hempty), missingLineEnd]
    split
    · rename_i hlast
      rcases hlast with hnone | hlast
      · exact absurd (List.isEmpty_iff.mp hnone) hempty
      · obtain ⟨rest, rfl⟩ := List.getLast?_eq_some_iff.mp hlast
        rw [List.append_nil]
        exact htail.isBlank_of_newline
    · exact htail.isBlank_newline

theorem isSound_withExports {language : Language} {depth : Nat} {layout : Layout}
    {names : List String} (h : layout.IsSound language depth)
    (hnames : ∀ name ∈ names, IsLaid language depth (exportPiece name)) :
    (layout.withExports names).IsSound language depth := by
  unfold Layout.withExports
  split
  · exact h
  · refine ⟨List.forall_mem_append.mpr ⟨h.pieces, isLaid_linesOf ?_ ?_⟩, ?_⟩
    · exact isBlank_missingLineEnd h.tail
    · exact List.forall_mem_map.mpr hnames
    · exact (isBlank_lineEnd (by decide)).trailing isTrailing_nil

/-! ## Cutting a text -/

/-- The parts of a text from an offset on, cut out of it by the places of its items, and what
is left behind them. -/
def cut (text : List Char) : Nat → List (Node × Bool) → List Part × List Char
  | offset, [] => ([], sliceFrom text offset)
  | offset, (node, removed) :: rest =>
      let piece : Piece := {
        gap := slice text offset node.span.start
        text := slice text node.span.start node.span.stop
        tree := node }
      let (parts, tail) := cut text node.span.stop rest
      (⟨piece, removed⟩ :: parts, tail)

/-- The item of a part, and whether it is removed. -/
def Part.item (part : Part) : Node × Bool :=
  (part.piece.tree, part.removed)

/-- A text that is put together from parts is cut into them. -/
theorem cut_eq {text before tail : List Char} {parts : List Part}
    (htext : text = before ++ (partsText parts ++ tail))
    (hplaced : ArePlaced (size before) parts) (hold : ∀ part ∈ parts, part.piece.isNew = false) :
    cut text (size before) (parts.map Part.item) = (parts, tail) := by
  induction parts generalizing before with
  | nil =>
      rw [htext, List.map_nil, cut]
      exact congrArg _ (sliceFrom_append before tail)
  | cons part parts ih =>
      obtain ⟨hpart, hold⟩ := List.forall_mem_cons.mp hold
      obtain ⟨hspan, hplaced⟩ := hplaced
      rw [partsText_cons, List.append_assoc, List.append_assoc] at htext
      have hnext : text =
          (before ++ (part.piece.gap ++ part.piece.text)) ++ (partsText parts ++ tail) := by
        rw [htext]
        simp only [List.append_assoc]
      have hgap : slice text (size before) (part.piece.spanAt (size before)).start =
          part.piece.gap := by
        rw [htext]
        exact slice_append before part.piece.gap _
      have hown : slice text (part.piece.spanAt (size before)).start
          (part.piece.spanAt (size before)).stop = part.piece.text := by
        have hslice := slice_append (before ++ part.piece.gap) part.piece.text
          (partsText parts ++ tail)
        rw [size_append, List.append_assoc, ← htext] at hslice
        exact hslice
      have hstop := part.piece.stop_spanAt before
      rw [hstop] at hplaced
      have hrest := ih hnext hplaced hold
      obtain ⟨⟨gap, own, tree, isNew⟩, removed⟩ := part
      obtain rfl : isNew = false := hpart
      rw [List.map_cons, Part.item, cut]
      dsimp only at hspan hgap hown hstop hrest ⊢
      rw [hspan, hgap, hown, hstop, hrest]

/-! ## The plan of an edit -/

/-- Whether an edit removes a statement. -/
def Analysis.removes (analysis : Analysis) (statement : Node) : Bool :=
  analysis.removable.contains statement.span.start

/-- The statements of a script after its edit. -/
def editedStatements (analysis : Analysis) (program : Program) : List Node :=
  let keeps := fun statement => !analysis.removes statement
  program.statements.takeWhile keeps ++ analysis.imports.map Import.tree ++
    (program.statements.dropWhile keeps).filter keeps ++ analysis.exports.map exportTree

/-- The items of a script, and which of them its edit removes.  It removes no directive. -/
def itemsOf (analysis : Analysis) (program : Program) : List (Node × Bool) :=
  program.directives.map (fun directive => (directive, false)) ++
    program.statements.map fun statement => (statement, analysis.removes statement)

/-- The layout of the text of a script after its edit. -/
def plan (analysis : Analysis) (program : Program) (text : List Char) : Layout :=
  let (parts, tail) := cut text (scriptStart text).offset (itemsOf analysis program)
  (lay tail false (linesOf [] (analysis.imports.map Import.piece)) parts).withExports
    analysis.exports

/-- The deletions of an edit are those of the statements it removes. -/
theorem deletions_ofAnalysis {analysis : Analysis} {program : Program} {pieces : List Piece}
    (h : pieces.map Piece.tree = program.statements) :
    (Edit.ofAnalysis analysis program).deletions =
      deletionsOf 0 (pieces.map fun piece => ⟨piece, analysis.removes piece.tree⟩) := by
  simp only [Edit.ofAnalysis, ← h]
  clear h
  generalize 0 = index
  induction pieces generalizing index with
  | nil => rfl
  | cons piece pieces ih =>
      rw [List.map_cons, List.zipIdx_cons, List.map_cons, List.filter_cons, List.map_cons,
        deletionsOf, ih]
      rfl

theorem deletionsOf_ne_nil {parts : List Part} (h : ∃ part ∈ parts, part.removed) (index : Nat) :
    deletionsOf index parts ≠ [] := by
  induction parts generalizing index with
  | nil => exact absurd h nofun
  | cons part parts ih =>
      rw [deletionsOf]
      split
      · exact List.cons_ne_nil _ _
      · rename_i hkept
        exact ih (by simpa [hkept] using h) (index + 1)

theorem arePlaced_append {first second : List Part} {offset : Nat} :
    ArePlaced offset (first ++ second) ↔
      ArePlaced offset first ∧ ArePlaced (offset + size (partsText first)) second := by
  induction first generalizing offset with
  | nil => simp [ArePlaced, partsText, textOf]
  | cons part first ih =>
      rw [List.cons_append, ArePlaced, ih, ArePlaced, and_assoc, partsText_cons]
      simp only [Piece.spanAt, size_append, Nat.add_assoc]

theorem arePlaced_of_spans {parts : List Part} {offset : Nat}
    (h : (parts.map Part.piece).map (Node.span ∘ Piece.tree) =
      spansOf offset (parts.map Part.piece)) : ArePlaced offset parts := by
  induction parts generalizing offset with
  | nil => trivial
  | cons part parts ih =>
      obtain ⟨hspan, hspans⟩ := List.cons.inj h
      exact ⟨hspan, ih hspans⟩

/-- Pieces in front of the first one that is removed stay as they are. -/
theorem lay_append {tail : List Char} {new kept : List Piece} {parts : List Part} :
    lay tail false new (kept.map (fun piece => ⟨piece, false⟩) ++ parts) =
      (lay tail false new parts).after kept := by
  induction kept with
  | nil => rfl
  | cons piece kept ih =>
      rw [List.map_cons, List.cons_append, lay, ih]
      rfl

/-- New pieces are laid, with their names bound. -/
theorem isLaid_import {language : Language} {stated : Import}
    (hname : MayBind (topLevel language) stated.name) (depth : Nat) :
    IsLaid language (depth + 1) stated.piece := by
  refine ⟨⟨isBlank_nil, ?_⟩, fun _ gap hgap => isReadAnywhere_import hgap hname depth⟩
  exact ⟨'i', _, toList_render stated, by decide⟩

theorem isLaid_export {language : Language} {name : String}
    (hname : MayBind (topLevel language) name) (depth : Nat) :
    IsLaid language (depth + 1) (exportPiece name) := by
  refine ⟨⟨isBlank_nil, ?_⟩, fun _ gap hgap => isReadAnywhere_export hgap hname depth⟩
  exact ⟨'e', _, toList_renderExport name, by decide⟩

/-! ## The plan of a script -/

section
variable {language : Language} {program : Program}
  {analysis : Analysis} {text first tail : List Char} {directives statements : List Piece}

/-- The statements of a script as parts, of which those are removed that an analysis removes. -/
def partsOf (analysis : Analysis) (statements : List Piece) : List Part :=
  statements.map fun piece => ⟨piece, analysis.removes piece.tree⟩

/-- The imports of an analysis as pieces. -/
def importPieces (analysis : Analysis) : List Piece :=
  linesOf [] (analysis.imports.map Import.piece)

theorem trees_importPieces (analysis : Analysis) :
    (importPieces analysis).map Piece.tree = analysis.imports.map Import.tree := by
  rw [importPieces, trees_linesOf, List.map_map]
  rfl

/-- The parts of a script, of which no directive is removed. -/
def scriptParts (analysis : Analysis) (directives statements : List Piece) : List Part :=
  directives.map (fun piece => ⟨piece, false⟩) ++ partsOf analysis statements

theorem piece_scriptParts (analysis : Analysis) (directives statements : List Piece) :
    (scriptParts analysis directives statements).map Part.piece = directives ++ statements := by
  simp [scriptParts, partsOf, Function.comp_def]

theorem arePlaced_scriptParts (analysis : Analysis)
    (hcut : program.Cut language text first directives statements tail) :
    ArePlaced (size first) (scriptParts analysis directives statements) := by
  refine arePlaced_of_spans ?_
  rw [piece_scriptParts]
  exact hcut.spans

/-- The plan lays out the statements behind the directives. -/
theorem plan_eq (hcut : program.Cut language text first directives statements tail) :
    plan analysis program text =
      ((lay tail false (importPieces analysis) (partsOf analysis statements)).after
        directives).withExports analysis.exports := by
  have hitems : (scriptParts analysis directives statements).map Part.item =
      itemsOf analysis program := by
    simp [scriptParts, partsOf, itemsOf, Function.comp_def, Part.item, ← hcut.directiveTrees,
      ← hcut.statementTrees]
  have htext : text =
      first ++ (partsText (scriptParts analysis directives statements) ++ tail) := by
    rw [partsText, piece_scriptParts]
    exact hcut.content
  have hold : ∀ part ∈ scriptParts analysis directives statements,
      part.piece.isNew = false := by
    intro part hpart
    refine (hcut.sound part.piece ?_).2
    rw [← piece_scriptParts analysis]
    exact List.mem_map_of_mem hpart
  have hparts := cut_eq htext (arePlaced_scriptParts analysis hcut) hold
  rw [hitems] at hparts
  unfold plan
  rw [hcut.start, hparts]
  exact congrArg (Layout.withExports · _) lay_append

theorem exists_removed (hcut : program.Cut language text first directives statements tail)
    (hbound : Bound language program analysis) :
    ∃ piece ∈ statements, analysis.removes piece.tree = true := by
  obtain ⟨statement, hstatement, hremovable⟩ := hbound.removable
  rw [← hcut.statementTrees] at hstatement
  obtain ⟨piece, hpiece, rfl⟩ := List.mem_map.mp hstatement
  exact ⟨piece, hpiece, List.contains_iff_mem.mpr hremovable⟩

/-- **The trees of a plan** are the directives and the edited statements. -/
theorem trees_plan (hcut : program.Cut language text first directives statements tail)
    (hbound : Bound language program analysis) :
    (plan analysis program text).trees =
      program.directives ++ editedStatements analysis program := by
  have hlaid : (lay tail false (importPieces analysis) (partsOf analysis statements)).trees = _ :=
    trees_lay (exists_removed hcut hbound) false
  rw [plan_eq hcut, trees_withExports, trees_after, hlaid, hcut.directiveTrees,
    hcut.statementTrees, trees_importPieces]
  simp only [editedStatements, List.append_assoc]

/-- **A plan is sound**: its pieces stand behind blanks, and the new ones are read anywhere. -/
theorem isSound_plan (hcut : program.Cut language text first directives statements tail)
    (hbound : Bound language program analysis) (depth : Nat) :
    (plan analysis program text).IsSound language (depth + 1) := by
  have hlaid : ∀ piece ∈ directives ++ statements, IsLaid language (depth + 1) piece := by
    intro piece hpiece
    obtain ⟨hsound, hold⟩ := hcut.sound piece hpiece
    refine ⟨hsound, fun hnew => ?_⟩
    rw [hold] at hnew
    cases hnew
  have himports : ∀ piece ∈ importPieces analysis, IsLaid language (depth + 1) piece := by
    refine isLaid_linesOf isBlank_nil (List.forall_mem_map.mpr ?_)
    exact fun stated hstated => isLaid_import (hbound.imports stated hstated) depth
  have hparts : ∀ part ∈ partsOf analysis statements,
      IsLaid language (depth + 1) part.piece := by
    refine List.forall_mem_map.mpr fun piece hpiece => ?_
    exact hlaid piece (List.mem_append_right _ hpiece)
  rw [plan_eq hcut]
  refine isSound_withExports ?_ fun name hname => isLaid_export (hbound.exports name hname) depth
  exact (isSound_lay hcut.trailing hparts himports).after fun piece hpiece =>
    hlaid piece (List.mem_append_left _ hpiece)

/-- A layout starts with the blanks in front of its first part. -/
theorem exists_text_lay (tail : List Char) (new : List Piece) (part : Part) (parts : List Part) :
    ∃ rest, (lay tail false new (part :: parts)).text = part.piece.gap ++ rest := by
  cases hremoved : part.removed with
  | false => exact ⟨_, lay_kept hremoved⟩
  | true =>
      by_cases hnew : new = []
      · subst hnew
        exact ⟨_, lay_removed hremoved⟩
      · exact ⟨_, lay_first hremoved hnew⟩

/-- The layout of a script starts with a line end if a first line stands in front of it. -/
theorem exists_lineEnd_layout
    (hcut : program.Cut language text first directives statements tail)
    (hbound : Bound language program analysis) (hfirst : first ≠ []) :
    ∃ c rest, isLineEnd c = true ∧
      ((lay tail false (importPieces analysis) (partsOf analysis statements)).after
        directives).text = c :: rest := by
  obtain ⟨hend, -⟩ := hcut.opening.resolve_left hfirst
  -- The piece that stands first in the text stands first in the layout.
  have hpiece : ∃ piece ∈ directives ++ statements, ∃ behind rest,
      textOf (directives ++ statements) ++ tail = piece.gap ++ (piece.text ++ behind) ∧
      ((lay tail false (importPieces analysis) (partsOf analysis statements)).after
        directives).text = piece.gap ++ rest := by
    cases directives with
    | cons piece directives =>
        refine ⟨piece, List.mem_cons_self, textOf (directives ++ statements) ++ tail,
          piece.text ++ (textOf directives ++
            (lay tail false (importPieces analysis) (partsOf analysis statements)).text), ?_, ?_⟩
        · rw [List.cons_append, textOf_cons]
          simp only [List.append_assoc]
        · rw [text_after, textOf_cons]
          simp only [List.append_assoc]
    | nil =>
        obtain ⟨piece, statements, rfl⟩ : ∃ piece others, statements = piece :: others := by
          obtain ⟨piece, hpiece, -⟩ := exists_removed hcut hbound
          exact List.exists_cons_of_ne_nil (List.ne_nil_of_mem hpiece)
        obtain ⟨rest, hrest⟩ := exists_text_lay tail (importPieces analysis)
          ⟨piece, analysis.removes piece.tree⟩ (partsOf analysis statements)
        refine ⟨piece, List.mem_cons_self, textOf statements ++ tail, rest, ?_, ?_⟩
        · rw [List.nil_append, textOf_cons]
          simp only [List.append_assoc]
        · rw [text_after]
          exact hrest
  obtain ⟨piece, hmem, behind, rest, htext, hlayout⟩ := hpiece
  obtain ⟨own, others, hown, hplain⟩ := (hcut.sound piece hmem).1.starts
  rw [htext] at hend
  cases hgap : piece.gap with
  | nil =>
      rw [hgap, hown] at hend
      have hwrong := hend own rfl
      rw [hplain] at hwrong
      cases hwrong
  | cons c gap =>
      rw [hgap] at hend hlayout
      exact ⟨c, gap ++ rest, hend c rfl, hlayout⟩

theorem textOf_importPieces (analysis : Analysis) :
    textOf (importPieces analysis) = joinLines (analysis.imports.map Import.render) := by
  unfold importPieces
  by_cases hnone : analysis.imports = []
  · rw [hnone]
    rfl
  · rw [textOf_linesOf [] (by simpa using hnone)]
    simp [joinLines, Import.piece, Function.comp_def]

theorem importPieces_eq_nil_iff (analysis : Analysis) :
    importPieces analysis = [] ↔ analysis.imports.map Import.render = [] := by
  rw [List.map_eq_nil_iff, ← List.map_eq_nil_iff (f := Piece.tree), trees_importPieces,
    List.map_eq_nil_iff]

/-- **The code of an edit is the text of its plan** behind the first line. -/
theorem apply_eq_plan (hcut : program.Cut language text first directives statements tail)
    (hbound : Bound language program analysis) :
    (Edit.ofAnalysis analysis program).apply text =
      first ++ (plan analysis program text).text := by
  have hdirectives : partsText (directives.map fun piece => ⟨piece, false⟩) =
      textOf directives := by
    simp [partsText, Function.comp_def]
  have hplaced : ArePlaced (size (first ++ textOf directives)) (partsOf analysis statements) := by
    have hboth := (arePlaced_append.mp (arePlaced_scriptParts analysis hcut)).2
    rw [hdirectives, ← size_append] at hboth
    exact hboth
  have htext : text =
      (first ++ textOf directives) ++ (partsText (partsOf analysis statements) ++ tail) := by
    rw [hcut.content, textOf_append]
    simp [partsText, partsOf, Function.comp_def]
  have hdeletions : (Edit.ofAnalysis analysis program).deletions =
      deletionsOf 0 (partsOf analysis statements) := deletions_ofAnalysis hcut.statementTrees
  have hremoved : (Edit.ofAnalysis analysis program).deletions ≠ [] := by
    obtain ⟨piece, hpiece, hremoves⟩ := exists_removed hcut hbound
    rw [hdeletions]
    exact deletionsOf_ne_nil ⟨_, List.mem_map_of_mem hpiece, hremoves⟩ 0
  have hsolid : ∀ part ∈ partsOf analysis statements, part.IsSolid := by
    refine List.forall_mem_map.mpr fun piece hpiece => ?_
    obtain ⟨c, rest, hown, hplain⟩ := (hcut.sound piece (List.mem_append_right _ hpiece)).1.starts
    refine ⟨c, rest, hown, ?_, ?_⟩
    · rintro rfl
      cases hplain
    · rintro rfl
      cases hplain
  have hlayout : (Edit.ofAnalysis analysis program).apply
      ((first ++ textOf directives) ++ (partsText (partsOf analysis statements) ++ tail)) = _ :=
    apply_eq_lay hdeletions rfl hremoved (textOf_importPieces analysis)
      (importPieces_eq_nil_iff analysis) hsolid hplaced
  rw [← htext] at hlayout
  rw [hlayout, plan_eq hcut, List.append_assoc, ← text_after]
  refine append_eq_withExports rfl ?_
  by_cases hfirst : first = []
  · exact Or.inl hfirst
  · obtain ⟨c, rest, -, hstarts⟩ := exists_lineEnd_layout hcut hbound hfirst
    rw [hstarts]
    exact Or.inr (List.cons_ne_nil c rest)

/-- Exports come behind the text of a layout. -/
theorem exists_text_withExports (layout : Layout) (names : List String) :
    ∃ rest, (layout.withExports names).text = layout.text ++ rest := by
  have happend : Edit.append ⟨[], none, [], names.map renderExport⟩ ([] ++ layout.text) =
      [] ++ (layout.withExports names).text := append_eq_withExports rfl (Or.inl rfl)
  rw [List.nil_append, List.nil_append] at happend
  rw [← happend]
  unfold Edit.append
  split
  · exact ⟨[], (List.append_nil _).symm⟩
  · exact ⟨_, by simp only [List.append_assoc]; rfl⟩

/-- The first line of a script is passed in front of its plan, too. -/
theorem scriptStart_plan (hcut : program.Cut language text first directives statements tail)
    (hbound : Bound language program analysis) :
    first = [] ∨ scriptStart (first ++ (plan analysis program text).text) =
      ⟨(plan analysis program text).text, size first⟩ := by
  by_cases hfirst : first = []
  · exact Or.inl hfirst
  · obtain ⟨-, hpassed⟩ := hcut.opening.resolve_left hfirst
    obtain ⟨c, others, hend, hstarts⟩ := exists_lineEnd_layout hcut hbound hfirst
    obtain ⟨rest, hrest⟩ := exists_text_withExports ((lay tail false (importPieces analysis)
      (partsOf analysis statements)).after directives) analysis.exports
    refine Or.inr (hpassed _ ?_)
    rw [plan_eq hcut, hrest, hstarts]
    rintro _ ⟨⟩
    exact hend

/-- What is edited has no cover, as the script has none. -/
theorem anyCover_plan (hcut : program.Cut language text first directives statements tail)
    (hbound : Bound language program analysis) :
    anyCover ((plan analysis program text).pieces.map Piece.tree) = false := by
  have hplain := anyCover_eq_false_iff.mp hcut.uncovered
  have hkept : ∀ node ∈ program.statements, hasCover node = false :=
    fun node hnode => hplain node (List.mem_append_right _ hnode)
  refine anyCover_eq_false_iff.mpr fun node hnode => ?_
  have htrees : node ∈ program.directives ++ editedStatements analysis program := by
    rw [← trees_plan hcut hbound]
    exact hnode
  rcases List.mem_append.mp htrees with hdirective | hedited
  · exact hplain node (List.mem_append_left _ hdirective)
  · simp only [editedStatements, List.mem_append, List.mem_map] at hedited
    rcases hedited with ((hbefore | ⟨stated, -, rfl⟩) | hbehind) | ⟨name, -, rfl⟩
    · exact hkept node ((List.takeWhile_prefix _).subset hbefore)
    · rfl
    · exact hkept node ((List.dropWhile_suffix _).subset (List.mem_of_mem_filter hbehind))
    · rfl

end

end FontHosting.FontCall
