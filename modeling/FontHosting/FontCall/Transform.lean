import FontHosting.FontCall.Edit
import FontHosting.Script.Rules

/-!
# Transformed modules

The source text of a module, with its font calls replaced by imports of
stylesheets.
-/

namespace FontHosting.FontCall

open Script (Language Program)

/-- A module after its font calls were replaced. -/
structure Transformed where
  code : String
  /-- The stylesheets that the module now imports, in order. -/
  imports : List String
  deriving DecidableEq, Repr

/-- Why a module was not transformed. -/
inductive Refusal where
  /-- The text is no script. -/
  | unreadable
  | misused (fault : Fault)
  deriving DecidableEq, Repr

/-- The script in the file of a given name. -/
def readScript? (path source : String) : Option Program := do
  Program.read? (← Language.ofPath? path) source

/-- The text of a module with its font calls replaced; nothing if it imports no loader
module. -/
def transform (settings : Settings) (module path source : String) :
    Except Refusal (Option Transformed) :=
  match readScript? path source with
  | none => .error .unreadable
  | some program =>
      match analyze settings module program with
      | .error fault => .error (.misused fault)
      | .ok none => .ok none
      | .ok (some analysis) =>
          let edit := Edit.ofAnalysis analysis program
          .ok (some {
            code := String.ofList (edit.apply source.toList)
            imports := analysis.imports.map Import.specifier })

end FontHosting.FontCall
