import FontHosting.Session.Retraction

/-!
# Loading stylesheets

A request for a stylesheet is taken up by `start`, which may run a loader, and ended
by `finish`, which keeps the stylesheet and marks the imports that wait for it.
Other operations may come in between.  A stylesheet that no module imports any more
is handed out, but not kept.
-/

namespace FontHosting.Session

open Stylesheet (Collection Failure Loaded Request)
open Stylesheet.Collection (Started)

/-- Mark the imports of a stylesheet. -/
def mark (session : Session) (isResolved : Bool) (keys : List String) : Session :=
  { session with records := session.records.map fun records =>
      records.map fun record =>
        if keys.contains record.key then { record with isResolved } else record }

/-- Whether a module imports a stylesheet. -/
def isImported (session : Session) (key : String) : Bool :=
  session.allRecords.any fun record => record.key == key

/-- Take up a stylesheet that was made or found. -/
def receive (session : Session) (key : String) (loaded : Loaded) : Outcome Unit :=
  if session.isImported key then
    let session := session.mark true [key]
    let manifest := session.manifest.record loaded.module loaded.assets
    settle { session with manifest } ()
  else
    let (session, dropped) := session.drop [key]
    (session.releaseUrls dropped).answering ()

/-- Take up a request. -/
def start (project : Project) (world : Loader.World) (session : Session) (request : Request) :
    Session × Started :=
  let (collection, started) := session.collection.start project.setup world request
  ({ session with collection }, started)

/-- End a request whose stylesheet is in the collection. -/
def finishFound (session : Session) (key : String) (target : Stylesheet.Module) :
    Outcome (Except Failure (Option Stylesheet.Module)) :=
  match session.collection.get? key with
  | none => session.answering (.ok (some target))
  | some loaded =>
      let outcome := session.receive key loaded
      ⟨outcome.session, .ok (some target), outcome.completed⟩

/-- End a request. -/
def finish (session : Session) (request : Request) :
    Started → Outcome (Except Failure (Option Stylesheet.Module))
  | .unknown => session.answering (.ok none)
  | .failed failure => session.answering (.error failure)
  | .kept key target => session.finishFound key target
  | .made key loaded =>
      let collection := session.collection.keep key request.environment loaded
      finishFound { session with collection } key loaded.target

/-- Make a stylesheet, or find the one that is kept. -/
def load (project : Project) (world : Loader.World) (session : Session) (request : Request) :
    Outcome (Except Failure (Option Stylesheet.Module)) :=
  let (session, started) := session.start project world request
  session.finish request started

end FontHosting.Session
