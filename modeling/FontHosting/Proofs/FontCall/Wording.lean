import FontHosting.FontCall.Edit
import FontHosting.Proofs.Script.Extent
import FontHosting.Proofs.Script.Pieces
import FontHosting.Proofs.Script.Wording

/-!
# What an edit adds

The imports and exports that an edit writes are read as such wherever blanks stand in front
of them, whatever follows (`isReadAnywhere_import`, `isReadAnywhere_export`).
-/

namespace FontHosting.FontCall

open Script
open FontHosting.Script.Parser (stateAt)
open Text.Utf8 (size size_append size_nil)

/-- An import as a tree, which has no place yet. -/
def Import.tree (stated : Import) : Node :=
  .importFrom false [.importSpecifier .default (.binding stated.name nowhere) nowhere]
    stated.specifier [] nowhere

/-- An import as a new piece of a script. -/
def Import.piece (stated : Import) : Piece :=
  ⟨[], stated.render.toList, stated.tree, true⟩

/-- The export of a constant as a tree, which has no place yet. -/
def exportTree (name : String) : Node :=
  .form (.exportNames false)
    [.form (.exportName false) [.reference name nowhere, .word name nowhere] nowhere] nowhere

/-- The export of a constant as a new piece of a script. -/
def exportPiece (name : String) : Piece :=
  ⟨[], (renderExport name).toList, exportTree name, true⟩

variable {language : Language} {name : String}

theorem isBlank_space : IsBlank .blank [' '] :=
  isBlank_nil.cons [] (by decide)

theorem endsName_cons {c : Char} (hc : isNameContinue c = false ∧ c ≠ '\\') (rest : List Char) :
    EndsName (c :: rest) := by
  rintro _ ⟨⟩
  exact hc

/-- A name with a blank behind it. -/
theorem starts_name (name : String) (hname : isName name.toList) {gap : List Char}
    (hgap : IsBlank .blank gap) (rest : List Char) (offset : Nat) :
    (Script.Source.mk (gap ++ (name.toList ++ ([' '] ++ rest))) offset).Starts (.word name)
      (offset + size gap) ⟨[' '] ++ rest, offset + size gap + size name.toList⟩ := by
  have hread : readKind (name.toList ++ ' ' :: rest) =
      (.word (String.ofList name.toList), false, ' ' :: rest) :=
    readKind_name hname (endsName_cons (by decide) rest)
  rw [String.ofList_toList] at hread
  exact Script.Source.starts hgap (startsToken_name hname) hread offset

theorem starts_quote (text rest : List Char) (offset : Nat) :
    (Script.Source.mk ([' '] ++ (Json.quote text ++ rest)) offset).Starts
      (.text (String.ofList text)) (offset + size [' '])
      ⟨rest, offset + size [' '] + size (Json.quote text)⟩ :=
  Script.Source.starts isBlank_space (by rfl) (readKind_quote text rest) offset

theorem starts_semicolon (rest : List Char) (offset : Nat) :
    (Script.Source.mk ([] ++ ([';'] ++ rest)) offset).Starts (.punctuator ";")
      (offset + size []) ⟨rest, offset + size [] + size [';']⟩ :=
  Script.Source.starts isBlank_nil (by rfl) rfl offset

theorem starts_open (rest : List Char) (offset : Nat) :
    (Script.Source.mk ([' '] ++ (['\x7b'] ++ rest)) offset).Starts (.punctuator "\x7b")
      (offset + size [' ']) ⟨rest, offset + size [' '] + size ['\x7b']⟩ :=
  Script.Source.starts isBlank_space (by rfl) rfl offset

theorem starts_close (rest : List Char) (offset : Nat) :
    (Script.Source.mk ([' '] ++ (['\x7d'] ++ rest)) offset).Starts (.punctuator "\x7d")
      (offset + size [' ']) ⟨rest, offset + size [' '] + size ['\x7d']⟩ :=
  Script.Source.starts isBlank_space (by rfl) rfl offset

/-- The tokens of a written import, with blanks between them. -/
theorem toList_render (stated : Import) :
    stated.render.toList = "import".toList ++ ([' '] ++ (stated.name.toList ++ ([' '] ++
      ("from".toList ++ ([' '] ++ (Json.quote stated.specifier.toList ++ ([] ++ [';']))))))) := by
  simp [Import.render, Json.quoteString]

/-- The tokens of a written export, with blanks between them. -/
theorem toList_renderExport (name : String) :
    (renderExport name).toList = "export".toList ++ ([' '] ++ (['\x7b'] ++ ([' '] ++
      (name.toList ++ ([' '] ++ (['\x7d'] ++ ([] ++ [';']))))))) := by
  simp [renderExport]

/-- An import that is written is read again. -/
theorem isReadAnywhere_import {gap : List Char} (hgap : IsBlank .blank gap) {stated : Import}
    (hname : MayBind (topLevel language) stated.name) (depth : Nat) :
    ({ stated.piece with gap } : Piece).IsReadAnywhere language (depth + 1) := by
  obtain ⟨hword, hmay⟩ := hname
  intro rest offset
  simp only [Import.piece, toList_render, List.append_assoc]
  have hrun := run_item_import (grammar depth) (starts_name "import" rfl hgap _ offset)
    (starts_name stated.name hword isBlank_space _ _) (starts_name "from" rfl isBlank_space _ _)
    (starts_quote stated.specifier.toList _ _) (starts_semicolon rest _) hmay
  refine ⟨_, _, itemAt?_of_run (starts_name "import" rfl hgap _ offset) nofun hrun ?_, ?_, ?_⟩
  · simp
    omega
  · simp [Node.unplaced, unplacedAll, Import.tree, nowhere]
  · simp [Node.span, Piece.spanAt, size_append, Nat.add_assoc]

/-- An export that is written is read again. -/
theorem isReadAnywhere_export {gap : List Char} (hgap : IsBlank .blank gap) {name : String}
    (hname : MayBind (topLevel language) name) (depth : Nat) :
    ({ exportPiece name with gap } : Piece).IsReadAnywhere language (depth + 1) := by
  obtain ⟨hword, hmay⟩ := hname
  have hfree : isReserved name = false := by
    simp only [mayName, Bool.and_eq_true] at hmay
    simpa using hmay.1.1
  intro rest offset
  simp only [exportPiece, toList_renderExport, List.append_assoc]
  have hrun := @run_item_export (topLevel language) _ _ _ _ _ _ _ _ _ _ _ _ (grammar depth)
    (starts_name "export" rfl hgap _ offset) (starts_open _ _)
    (starts_name name hword isBlank_space _ _) (starts_close _ _) (starts_semicolon rest _) hfree
  refine ⟨_, _, itemAt?_of_run (starts_name "export" rfl hgap _ offset) nofun hrun ?_, ?_, ?_⟩
  · simp
    omega
  · simp [Node.unplaced, unplacedAll, exportTree, nowhere]
  · simp [Node.span, Piece.spanAt, size_append, Nat.add_assoc]

end FontHosting.FontCall
