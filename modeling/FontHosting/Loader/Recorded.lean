import FontHosting.Loader.Call
import FontHosting.Text.Utf8

/-!
# Recorded worlds

A world whose answers are known beforehand and do not depend on what was asked
before.
-/

namespace FontHosting.Loader

open Asset (Bytes)

/-- The answers of a world; of two answers to one question the first counts. -/
structure Recorded where
  files : List (String × Bytes)
  /-- Stylesheets by URL or family; a failure has no text. -/
  stylesheets : List (String × Option String)
  /-- Font files by URL; a failure has no content. -/
  fonts : List (String × Option Bytes)
  /-- Whether the content of every other font file is its URL. -/
  echoesUrls : Bool
  /-- Whether nothing can be fetched. -/
  isOffline : Bool
  families : List (String × Metrics)
  /-- The metrics of font files by content. -/
  contents : List (Bytes × Metrics)

namespace Recorded

/-- The text of a stylesheet, looked up by its URL and then by its family. -/
def stylesheet (recorded : Recorded) (url family : String) : Option String :=
  if recorded.isOffline then none
  else
    match recorded.stylesheets.lookup url with
    | some text => text
    | none => (recorded.stylesheets.lookup family).join

/-- The content of a font file. -/
def font (recorded : Recorded) (url : String) : Option Bytes :=
  if recorded.isOffline then none
  else
    match recorded.fonts.lookup url with
    | some content => content
    | none => if recorded.echoesUrls then some (Text.Utf8.encode url.toList) else none

/-- The content of a file. -/
def file (recorded : Recorded) (path : String) : Except String Bytes :=
  match recorded.files.find? fun file => Text.Path.same file.1 path with
  | some file => .ok file.2
  | none => .error "file not found"

/-- The world with the recorded answers. -/
def world (recorded : Recorded) : World := {
  stylesheet := fun _ url family _ => recorded.stylesheet url family
  font := fun _ url _ => recorded.font url
  file := fun _ path => recorded.file path
  familyFallback := fun family => (recorded.families.lookup family).map Metrics.fallback
  fileFallback := fun content category =>
    (recorded.contents.lookup content).map fun metrics =>
      { metrics with category }.fallback }

/-! ## Changing the answers -/

/-- The world after a file was written. -/
def writeFile (recorded : Recorded) (path : String) (content : Bytes) : Recorded :=
  { recorded with files := (path, content) :: recorded.files }

/-- The world after a file was deleted. -/
def removeFile (recorded : Recorded) (path : String) : Recorded :=
  { recorded with files := recorded.files.filter fun file => !Text.Path.same file.1 path }

/-- The world after a stylesheet was changed. -/
def setStylesheet (recorded : Recorded) (key : String) (text : Option String) : Recorded :=
  { recorded with stylesheets := (key, text) :: recorded.stylesheets }

/-- The world after a font file on the net was changed. -/
def setFont (recorded : Recorded) (url : String) (content : Option Bytes) : Recorded :=
  { recorded with fonts := (url, content) :: recorded.fonts }

end Recorded

end FontHosting.Loader
