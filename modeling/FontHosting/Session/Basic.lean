import FontHosting.FontCall.Settings
import FontHosting.Manifest
import FontHosting.Stylesheet.Collection

/-!
# Sessions

A session follows the modules of a project through a build.  It records which
stylesheets the latest text of every module imports, and keeps the stylesheets that
were made.  Once every recorded import has its stylesheet the session is finished,
and the manifest is handed out.  A change of a module or of a font file opens the
session again.

Every operation of a session gives an `Outcome`: the session after it, its answer,
and the manifest if this operation finished the session.
-/

namespace FontHosting

open Stylesheet (Collection)

/-- What is known of a project before its modules are seen. -/
structure Project where
  setup : Stylesheet.Setup
  /-- The modules whose functions are font calls. -/
  calls : FontCall.Settings

/-- The path of a module below the root directory, without a query and with `/` between its
components.  A module elsewhere keeps its path. -/
def Project.moduleId (project : Project) (id : String) : String :=
  let path := Stylesheet.pathPart id.toList
  let root := project.setup.root.toList
  let below := if root.isEmpty then none else Text.Path.below? root path
  String.ofList ((below.getD path).map fun c => if c = '\\' then '/' else c)

namespace Session

/-- The import of a stylesheet. -/
structure Record where
  /-- The name of the stylesheet, as the module imports it. -/
  specifier : String
  key : String
  /-- Whether the stylesheet was made. -/
  isResolved : Bool
  deriving DecidableEq, Repr

end Session

/-- The state of a build. -/
structure Session where
  collection : Collection
  /-- The imports of each module that has any. -/
  records : Table (List Session.Record)
  manifest : Manifest
  /-- Whether the manifest was handed out since the last change. -/
  isFinished : Bool

namespace Session

/-- The session that has seen no module. -/
def empty : Session := ⟨Collection.empty, Table.empty, Manifest.empty, false⟩

/-- What an operation gives. -/
structure Outcome (α : Type) where
  session : Session
  answer : α
  /-- The manifest, if the operation finished the session. -/
  completed : Option Manifest

/-- An answer that finishes nothing. -/
def answering {α : Type} (session : Session) (answer : α) : Outcome α :=
  ⟨session, answer, none⟩

/-- All imports, module by module. -/
def allRecords (session : Session) : List Record :=
  session.records.values.flatten

/-- The number of imports whose stylesheet is still to be made. -/
def pending (session : Session) : Nat :=
  (session.allRecords.filter fun record => !record.isResolved).length

/-- Whether the session is to be finished now. -/
def isComplete (session : Session) : Bool :=
  !session.isFinished && !session.records.isEmpty && session.pending == 0

/-- Finish the session if every recorded import has its stylesheet. -/
def settle {α : Type} (session : Session) (answer : α) : Outcome α :=
  if session.isComplete then ⟨{ session with isFinished := true }, answer, some session.manifest⟩
  else session.answering answer

/-- The imports of a module. -/
def imports (project : Project) (session : Session) (id : String) : List Record :=
  (session.records.get? (project.moduleId id)).getD []

/-- The public URLs of the files that the page of a module should load early. -/
def preloadableFonts (project : Project) (session : Session) (id : String) :
    Option (List String) :=
  session.manifest.preloadableFonts project.setup.base (project.moduleId id)

/-- The hints for the page of a module. -/
def hints (project : Project) (session : Session) (id : String) : Manifest.Hints :=
  session.manifest.hints project.setup.base (project.moduleId id)

end Session

end FontHosting
