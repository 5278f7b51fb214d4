import FontHosting.Session.Importing
import FontHosting.Session.Invalidation

/-!
# Changes of files

What a change of a file in the project means for the session: a font file that has
changed makes stylesheets stale, and so does a script, whose imports end if it is
gone.  Other files do not matter.
-/

namespace FontHosting.Watch

open Session (Outcome)

/-- What happened to a file. -/
inductive ChangeKind where
  | created
  | modified
  | removed
  deriving DecidableEq, Repr

/-- A change of a file. -/
structure Change where
  kind : ChangeKind
  path : String
  deriving DecidableEq, Repr

/-- Whether the extension of a path is one of those given. -/
def hasExtension (extensions : List String) (path : String) : Bool :=
  match Text.Path.extension? path.toList with
  | some extension => extensions.contains (String.ofList extension)
  | none => false

/-- Whether a path is that of a font file. -/
def isFontFile (path : String) : Bool := hasExtension Asset.fontExtensions path

/-- Whether a path is that of a script. -/
def isScript (path : String) : Bool := hasExtension Session.scriptExtensions path

/-- Take up a change; the answer names the imports whose stylesheets are to be loaded again
or that ended. -/
def apply (project : Project) (session : Session) (change : Change) : Outcome (List String) :=
  if isFontFile change.path then
    let (session, specifiers) := session.invalidateFontFile change.path
    session.answering specifiers
  else if !isScript change.path then session.answering []
  else
    match change.kind with
    | .removed => session.removeModule project change.path
    | .created | .modified =>
        let (session, specifiers) := session.invalidateModule project change.path
        session.answering specifiers

/-- Take up changes one after the other; the answer is every manifest that was completed. -/
def applyAll (project : Project) (session : Session) :
    List Change → Session × List Manifest
  | [] => (session, [])
  | change :: rest =>
      let outcome := apply project session change
      let (session, completed) := applyAll project outcome.session rest
      (session, outcome.completed.toList ++ completed)

end FontHosting.Watch
