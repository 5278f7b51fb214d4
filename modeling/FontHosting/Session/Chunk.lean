import FontHosting.Session.Basic

/-!
# Stylesheets for a bundle

A bundler asks for the text of stylesheets one by one, or for those that belong
together in one file.
-/

namespace FontHosting.Session

open Stylesheet (Loaded)

/-- The text of several stylesheets, with the font files it refers to. -/
structure Chunk where
  css : String
  assets : List String
  deriving DecidableEq, Repr

/-- The stylesheets of those names that have one, put together.  Nothing if none has. -/
def chunk? (session : Session) (ids : List String) : Option Chunk :=
  match ids.filterMap session.collection.get? with
  | [] => none
  | loaded => some {
      css := "\n".intercalate (loaded.map fun one => one.target.code)
      assets := Manifest.addNew [] (loaded.flatMap Loaded.assets) }

/-- The text of a stylesheet. -/
def code? (session : Session) (id : String) : Option String :=
  (session.collection.get? id).map fun loaded => loaded.target.code

/-- The script that stands for a stylesheet. -/
def script? (session : Session) (id : String) : Option String :=
  (session.collection.get? id).map fun loaded => loaded.target.toScript

end FontHosting.Session
