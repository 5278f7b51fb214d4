import FontHosting.Loader.Call

/-!
# Scripted loaders

A loader that does what it is told, whatever the call.  It stands in for a real one
where a host is tried out.
-/

namespace FontHosting.Loader

/-- A file that a scripted loader emits. -/
structure ScriptedFile where
  content : Asset.Bytes
  extension : String
  preload : Bool
  sizeAdjusted : Bool

/-- What a scripted loader does. -/
structure Scripted where
  output : Output
  files : List ScriptedFile
  resolved : List String
  errors : List String
  /-- Why it gives up in the end, if it does. -/
  failure : Option String

/-- What stands in the rules for the URL of a file. -/
def placeholder (index : Nat) : List Char :=
  "\x7burl".toList ++ Nat.toDigits 10 index ++ ['\x7d']

/-- Rules with the URLs of the files in them. -/
def fillUrls (css : String) (urls : List String) : String :=
  String.ofList <| urls.zipIdx.foldl (fun css (url, index) =>
    Text.replaceAll (placeholder index) url.toList css) css.toList

/-- The loader that does what it is told. -/
def Scripted.loader (script : Scripted) : FontLoader := fun call => do
  modify fun state => state.tell
    (.scripted call.function call.variableName call.arguments call.isDev call.isServer)
  let urls ← script.files.mapM fun file =>
    emit call file.content file.extension file.preload file.sizeAdjusted
  for source in script.resolved do
    let _ ← resolve call source
  for message in script.errors do
    report message
  match script.failure with
  | some reason => throw (.fetchFailed reason)
  | none => return { script.output with css := fillUrls script.output.css urls }

end FontHosting.Loader
