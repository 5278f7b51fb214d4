import FontHosting.FontCall.Transform
import FontHosting.Session.Retraction

/-!
# Modules and their imports

The imports of a module are recorded when its font calls are replaced.  What the
module imported before and does not import now is retracted.
-/

namespace FontHosting.Session

open FontCall (Refusal Transformed)

/-- The extensions of scripts. -/
def scriptExtensions : List String := ["js", "jsx", "ts", "tsx", "mjs"]

/-- Whether a module is a script, by the end of its path. -/
def isScript (module : String) : Bool :=
  scriptExtensions.any fun extension => ('.' :: extension.toList).isSuffixOf module.toList

/-- The record of an import. -/
def recordOf? (session : Session) (specifier : String) : Option Record :=
  (Stylesheet.key? specifier).map fun key => ⟨specifier, key, session.collection.contains key⟩

/-- The imports that a module does not have any more. -/
def endedImports (previous current : List Record) : List Record :=
  previous.filter fun record => !current.any fun other => other.key == record.key

/-- Replace the imports of a module; the answer names the imports that ended. -/
def recordImports (session : Session) (module : String) (specifiers : List String) :
    Outcome (List String) :=
  let current := specifiers.filterMap session.recordOf?
  let ended := endedImports ((session.records.get? module).getD []) current
  let session := { session with
    records := session.records.erase module
    isFinished := session.isFinished && current.all Record.isResolved }
  let session :=
    if ended.isEmpty && !current.isEmpty then session
    else session.retract module (ended.map Record.key) current.isEmpty
  let session :=
    if current.isEmpty then session
    else { session with records := session.records.insert module current }
  session.settle (ended.map Record.specifier)

/-- Replace the font calls of a module and record its imports.  A file that is no script is
left alone, and so is the session if a font call is at fault. -/
def transform (project : Project) (session : Session) (id source : String) :
    Outcome (Except Refusal (Option Transformed)) :=
  let module := project.moduleId id
  if !isScript module then session.answering (.ok none)
  else
    match FontCall.transform project.calls module module source with
    | .error refusal => session.answering (.error refusal)
    | .ok transformed =>
        let imports := (transformed.map Transformed.imports).getD []
        let outcome := session.recordImports module imports
        ⟨outcome.session, .ok transformed, outcome.completed⟩

/-- Retract everything that a deleted module imported; the answer names its imports. -/
def removeModule (project : Project) (session : Session) (id : String) : Outcome (List String) :=
  session.recordImports (project.moduleId id) []

/-- Forget the modules and stylesheets.  The caches of the loaders stay, so that the next
build takes the downloads of this one. -/
def reset (session : Session) : Session :=
  { collection := { session.collection.clear with store := Table.empty }
    records := Table.empty
    manifest := Manifest.empty
    isFinished := false }

end FontHosting.Session
