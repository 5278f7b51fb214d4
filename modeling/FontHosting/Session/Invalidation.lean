import FontHosting.Session.Loading

/-!
# Changed files

When a module or a font file has changed, the stylesheets that depend on it are
dropped.  Their imports stay recorded and wait for new stylesheets.
-/

namespace FontHosting.Session

/-- Drop the stylesheets of a changed module; the answer names its imports. -/
def invalidateModule (project : Project) (session : Session) (id : String) :
    Session × List String :=
  let module := project.moduleId id
  match session.records.get? module with
  | none => (session, [])
  | some records =>
      let waiting := records.map fun record => { record with isResolved := false }
      let opened := { session with
        records := session.records.insert module waiting
        isFinished := session.isFinished && records.isEmpty }
      (opened.invalidate (records.map Record.key), records.map Record.specifier)

/-- Drop the stylesheets that were made from a changed font file; the answer names their
imports. -/
def invalidateFontFile (session : Session) (file : String) : Session × List String :=
  let keys := session.collection.keysUsing file
  if keys.isEmpty then (session, [])
  else
    let opened := { session.mark false keys with isFinished := false }
    let affected := session.allRecords.filter fun record => keys.contains record.key
    (opened.invalidate keys, affected.map Record.specifier)

end FontHosting.Session
