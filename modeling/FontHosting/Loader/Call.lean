import FontHosting.Asset
import FontHosting.LoaderKind
import FontHosting.Loader.Cache
import FontHosting.Loader.Error
import FontHosting.Loader.Metrics

/-!
# Running loaders

A loader turns one font call into the rules of a stylesheet.  It asks the world
outside for stylesheets and files, and leaves the font files that it uses in the
store.  What it did up to the point where it gave up is not undone.

The world may answer the same question differently each time.  So its answers
depend on everything that was asked and emitted before, which is the log.
-/

namespace FontHosting.Loader

open Asset (Bytes)

/-- What a loader answers. -/
structure Output where
  /-- `@font-face` rules. -/
  css : String
  fallbackFonts : List String
  weight : Option String
  style : Option String
  /-- The custom property that the font family is to be given to. -/
  variableName : Option String
  fallback : Option Fallback
  deriving DecidableEq, Repr

/-- What passes between a session and the world. -/
inductive Event where
  | askStylesheet (url family : String) (isDev : Bool)
  | askFont (url : String) (isDev : Bool)
  | askFile (path : String)
  /-- A file is handed over for the output of a build. -/
  | emit (name : String) (content : Bytes)
  /-- A loader is made when it is first needed. -/
  | construct (kind : LoaderKind)
  /-- A scripted loader runs. -/
  | scripted (function variableName : String) (arguments : List Json.Value)
      (isDev isServer : Bool)

/-- The world outside, in which every answer depends on what happened before. -/
structure World where
  stylesheet : List Event → String → String → Bool → Option String
  font : List Event → String → Bool → Option Bytes
  /-- The content of a file, or why it cannot be read. -/
  file : List Event → String → Except String Bytes
  familyFallback : String → Option Fallback
  fileFallback : Bytes → Category → Option Fallback

/-- The caches of one loader. -/
structure Caches where
  stylesheets : Cache String
  fonts : Cache Bytes

/-- Caches without entries. -/
def Caches.empty : Caches := ⟨Table.empty, Table.empty⟩

/-- One font call, as a loader sees it. -/
structure Call where
  function : String
  variableName : String
  arguments : List Json.Value
  /-- The directory of the module that contains the call. -/
  directory : String
  isDev : Bool
  isServer : Bool
  base : Asset.UrlBase
  world : World

/-- The options of a call are its first argument. -/
def Call.options? (call : Call) : Option Json.Value := call.arguments.head?

/-- The directory of a module. -/
def directoryOf (module : String) : String :=
  String.ofList ((Text.Path.parent? module.toList).getD [])

/-- What a running loader has done. -/
structure State where
  caches : Caches
  store : Asset.Store
  /-- The names of the files that were emitted, each once. -/
  emitted : List String
  /-- The files that were looked for. -/
  resolved : List String
  /-- What went wrong without stopping the loader. -/
  errors : List String
  log : List Event

/-- The state of a loader that has not done anything. -/
def State.start (caches : Caches) (store : Asset.Store) (log : List Event) : State :=
  ⟨caches, store, [], [], [], log⟩

/-- The steps of a loader.  A failure keeps the state. -/
abbrev Run (α : Type) := ExceptT Error (StateM State) α

/-- Take up an event. -/
def State.tell (state : State) (event : Event) : State :=
  { state with log := state.log ++ [event] }

/-- Put a font file into the store, and hand it over unless the site is being developed.  The
answer is the file's public URL. -/
def emit (call : Call) (content : Bytes) (extension : String) (preload sizeAdjusted : Bool) :
    Run String := do
  let name := Asset.fileName content extension preload sizeAdjusted
  let url := call.base.url name
  modify fun state =>
    let state := if call.isDev then state else state.tell (.emit name content)
    { state with
      store := state.store.insert url ⟨name, content⟩
      emitted := if state.emitted.contains name then state.emitted else state.emitted ++ [name] }
  return url

/-- The path of a file that is named in the module of a call. -/
def Call.resolve (call : Call) (source : String) : String :=
  let source := source.toList
  let relative := if source.head? = some '.' then source else "./".toList ++ source
  String.ofList (Text.Path.clean (Text.Path.joined call.directory.toList relative))

/-- Look for a file that is named in the module of a call. -/
def resolve (call : Call) (source : String) : Run String := do
  let path := call.resolve source
  modify fun state => { state with resolved := state.resolved ++ [path] }
  return path

/-- Report what went wrong without giving up. -/
def report (message : String) : Run Unit :=
  modify fun state => { state with errors := state.errors ++ [message] }

/-- The content of a file. -/
def readFile (call : Call) (path : String) : Run Bytes := do
  let before ← get
  set (before.tell (.askFile path))
  match call.world.file before.log path with
  | .ok content => return content
  | .error reason => throw (.notRead path reason)

/-- The text of a stylesheet from the net, or from the cache. -/
def fetchStylesheet (call : Call) (url family : String) : Run (Option String) := do
  let before ← get
  let answer := before.caches.stylesheets.takeOrFetch url
    (call.world.stylesheet before.log url family call.isDev)
  let after := if answer.fetched then before.tell (.askStylesheet url family call.isDev) else before
  set { after with caches := { after.caches with stylesheets := answer.cache } }
  return answer.value

/-- The content of a font file from the net, or from the cache. -/
def fetchFont (call : Call) (url : String) : Run (Option Bytes) := do
  let before ← get
  let answer := before.caches.fonts.takeOrFetch url (call.world.font before.log url call.isDev)
  let after := if answer.fetched then before.tell (.askFont url call.isDev) else before
  set { after with caches := { after.caches with fonts := answer.cache } }
  return answer.value

/-- A loader. -/
abbrev FontLoader := Call → Run Output

/-- Fail for a fault of the arguments. -/
def accept {α : Type} (checked : Except ArgumentFault α) : Run α :=
  match checked with
  | .ok value => pure value
  | .error fault => throw (.arguments fault)

end FontHosting.Loader
