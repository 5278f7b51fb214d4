import FontHosting.FontCall.Analysis
import FontHosting.Text.Utf8

/-!
# Edits of a script

An edit deletes statements, puts imports in place of the first of them, and adds
exports at the end.  It is computed on the syntax tree and applied to the text, so
that every character outside the deleted statements stays what it is.
-/

namespace FontHosting.FontCall

open Script (Span Program)

/-- A statement to be deleted: its index and its place. -/
structure Deletion where
  index : Nat
  span : Span
  deriving DecidableEq, Repr

/-- What is to be changed in a script. -/
structure Edit where
  deletions : List Deletion
  /-- The index of the deleted statement whose place the imports take. -/
  insertAt : Option Nat
  imports : List String
  exports : List String
  deriving DecidableEq, Repr

/-- An import as a statement. -/
def Import.render (stated : Import) : String :=
  "import " ++ stated.name ++ " from " ++ Json.quoteString stated.specifier ++ ";"

/-- An export of a constant as a statement. -/
def renderExport (name : String) : String :=
  "export \x7b " ++ name ++ " \x7d;"

/-- The edit that replaces the font calls of a script. -/
def Edit.ofAnalysis (analysis : Analysis) (program : Program) : Edit :=
  let indexed := program.statements.zipIdx.map fun (statement, index) =>
    Deletion.mk index statement.span
  let deletions := indexed.filter fun deletion => analysis.removable.contains deletion.span.start
  { deletions
    insertAt := deletions.head?.map Deletion.index
    imports := analysis.imports.map Import.render
    exports := analysis.exports.map renderExport }

/-- Whether an edit changes nothing. -/
def Edit.isEmpty (edit : Edit) : Bool :=
  edit.deletions.isEmpty && edit.imports.isEmpty && edit.exports.isEmpty

/-! ## Applying -/

/-- The part of a text between two bytes. -/
def slice (text : List Char) (start stop : Nat) : List Char :=
  (Text.Utf8.splitAtByte (stop - start) (Text.Utf8.splitAtByte start text).2).1

/-- The part of a text from a byte on. -/
def sliceFrom (text : List Char) (start : Nat) : List Char :=
  (Text.Utf8.splitAtByte start text).2

/-- The byte behind a line end that starts at `offset`, if one does. -/
def skipLineEnd (text : List Char) (offset : Nat) : Nat :=
  match sliceFrom text offset with
  | '\r' :: '\n' :: _ => offset + 2
  | '\n' :: _ => offset + 1
  | _ => offset

/-- Lines with a line end between them. -/
def joinLines (lines : List String) : List Char :=
  Text.join ['\n'] (lines.map String.toList)

/-- How far an edit has been applied. -/
structure Progress where
  written : List Char
  /-- The first byte of the text that has not been passed. -/
  cursor : Nat
  /-- Whether the imports have been written. -/
  placed : Bool

/-- Keep what stands before a deleted statement and pass over the statement.  The line end
behind it goes too, unless the imports take its place.  A deletion that starts before
the cursor or ends behind the text is no deletion. -/
def Edit.delete (edit : Edit) (text : List Char) (progress : Progress) (deletion : Deletion) :
    Progress :=
  let span := deletion.span
  if span.start < progress.cursor ∨ span.stop > Text.Utf8.size text then progress
  else
    let written := progress.written ++ slice text progress.cursor span.start
    if some deletion.index = edit.insertAt ∧ !edit.imports.isEmpty then
      ⟨written ++ joinLines edit.imports, span.stop, true⟩
    else ⟨written, skipLineEnd text span.stop, progress.placed⟩

/-- A text with the exports behind it, on lines of their own. -/
def Edit.append (edit : Edit) (text : List Char) : List Char :=
  if edit.exports.isEmpty then text
  else
    let separator := if text.isEmpty ∨ text.getLast? = some '\n' then [] else ['\n']
    text ++ separator ++ joinLines edit.exports ++ ['\n']

/-- The edited text.  Imports that took no statement's place stand at the start. -/
def Edit.apply (edit : Edit) (text : List Char) : List Char :=
  let progress := edit.deletions.foldl (edit.delete text) ⟨[], 0, false⟩
  let head := if progress.placed ∨ edit.imports.isEmpty then []
    else joinLines edit.imports ++ ['\n']
  edit.append (head ++ progress.written ++ sliceFrom text progress.cursor)

end FontHosting.FontCall
