import FontHosting.Text.Path

/-!
# Script languages

The name of a file decides which language its text is written in.
-/

namespace FontHosting.Script

/-- What a script may contain. -/
structure Language where
  /-- Type signatures and the declarations that come with them. -/
  typed : Bool
  /-- Markup elements as expressions. -/
  markup : Bool
  /-- A module, in which `await` stands at the top level and is no name. -/
  isModule : Bool
  /-- Declarations only. -/
  ambient : Bool
  deriving DecidableEq, Repr

/-- A typed module with markup, the richest language. -/
def Language.typedMarkup : Language := ⟨true, true, true, false⟩

/-- The language of an extension. -/
def Language.ofExtension? (extension : List Char) : Option Language :=
  if extension = "js".toList ∨ extension = "mjs".toList then some ⟨false, false, true, false⟩
  else if extension = "cjs".toList then some ⟨false, false, false, false⟩
  else if extension = "jsx".toList then some ⟨false, true, true, false⟩
  else if extension = "ts".toList ∨ extension = "mts".toList then some ⟨true, false, true, false⟩
  else if extension = "cts".toList then some ⟨true, false, false, false⟩
  else if extension = "tsx".toList then some Language.typedMarkup
  else none

/-- Whether a file name has `d` as a part before its extension, as in `a.d.ts`
and `a.d.css.ts`. -/
def isDeclarationName (name : List Char) : Bool :=
  let parts := (Text.splitOn '.' name).drop 1
  let beforeLast := parts.dropLast
  beforeLast.getLast? = some ['d'] || beforeLast.dropLast.getLast? = some ['d']

/-- The language of a file, if its extension names one. -/
def Language.ofPath? (path : String) : Option Language := do
  let name ← Text.Path.fileName? path.toList
  let extension ← Text.Path.extension? path.toList
  let language ← Language.ofExtension? extension
  return { language with
    ambient := language.typed && !language.markup && isDeclarationName name }

end FontHosting.Script
