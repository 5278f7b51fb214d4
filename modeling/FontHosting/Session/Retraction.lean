import FontHosting.Session.Basic

/-!
# Retracting stylesheets

When stylesheets are dropped, their font files go with them: out of the manifest
unless another stylesheet of the same module has them too, and out of the store
unless any other stylesheet refers to them.  The stylesheets are dropped from the
collection first, so what is left there is what counts.
-/

namespace FontHosting.Session

open Stylesheet (Collection Loaded)

/-- The assets of a dropped stylesheet that no stylesheet of its module has any more. -/
def staleAssets (collection : Collection) (dropped : Loaded) : List String :=
  let live := (collection.entriesOf dropped.module).flatMap fun entry => entry.2.assets
  dropped.assets.filter fun asset => !live.contains asset

/-- Take the assets of dropped stylesheets out of the manifest. -/
def retractAssets (session : Session) (dropped : List Loaded) : Session :=
  { session with
    manifest := dropped.foldl
      (fun manifest loaded =>
        manifest.retract loaded.module (staleAssets session.collection loaded))
      session.manifest }

/-- Take the files of dropped stylesheets out of the store. -/
def releaseUrls (session : Session) (dropped : List Loaded) : Session :=
  let released := (dropped.flatMap Loaded.urls).filter fun url =>
    !session.collection.references url
  { session with collection := { session.collection with
      store := released.foldl Table.erase session.collection.store } }

/-- Drop the stylesheets of several keys; the answer is what was dropped. -/
def drop (session : Session) (keys : List String) : Session × List Loaded :=
  let (collection, dropped) := session.collection.removeAll keys
  ({ session with collection }, dropped)

/-- Drop stylesheets that a module no longer imports.  The module keeps its entry in the
manifest as long as it imports anything and has a stylesheet. -/
def retract (session : Session) (module : String) (keys : List String) (all : Bool) : Session :=
  let (session, dropped) := session.drop keys
  let session :=
    if all || (session.collection.entriesOf module).isEmpty then
      { session with manifest := session.manifest.remove module }
    else session.retractAssets dropped
  session.releaseUrls dropped

/-- Drop stylesheets that have to be made again. -/
def invalidate (session : Session) (keys : List String) : Session :=
  let (session, dropped) := session.drop keys
  (session.retractAssets dropped).releaseUrls dropped

end FontHosting.Session
