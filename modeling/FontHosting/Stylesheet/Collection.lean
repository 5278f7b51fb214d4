import FontHosting.Google.Loader
import FontHosting.Json.Reader
import FontHosting.LocalFont.Loader
import FontHosting.Stylesheet.Id
import FontHosting.Stylesheet.Module

/-!
# The collection of stylesheets

A stylesheet is made when its name is first asked for, and kept under its key.  While
a site is developed, an environment that asks for it again is given what is kept.

Making a stylesheet has two steps, since it may take long and other things may happen
in between: `start` runs the loader, which reads and emits files, and `keep` puts the
result into the collection.
-/

namespace FontHosting.Stylesheet

open Loader (Caches Event World FontLoader)

/-- A stylesheet with what it was made from. -/
structure Loaded where
  target : Module
  /-- The module that contains the font call, below the root directory. -/
  module : String
  /-- The names of the font files that were emitted for it. -/
  assets : List String
  /-- The public URLs of these files. -/
  urls : List String
  /-- The font files of the project that it was made from. -/
  fontFiles : List String
  /-- What went wrong without stopping the loader. -/
  errors : List String

/-- A loader that is ready for use. -/
structure Registered where
  loader : FontLoader
  /-- Whether it is told when the loader is first needed. -/
  isAnnounced : Bool

/-- What does not change while stylesheets are made. -/
structure Setup where
  root : String
  isDev : Bool
  minify : Bool
  base : Asset.UrlBase
  loaders : LoaderKind → Option Registered

/-- A request for a stylesheet. -/
structure Request where
  id : String
  /-- The part of the site that asks, such as the one for browsers. -/
  environment : String
  isServer : Bool

/-- Why a stylesheet was not made. -/
inductive Failure where
  /-- The name of the stylesheet lacks a field. -/
  | missingFields
  /-- The arguments in its name are no list in JSON. -/
  | badArguments
  | loader (error : Loader.Error)

/-- How it is told that the stylesheet of a name was not made. -/
def Failure.message (id : String) : Failure → String
  | .missingFields => "Invalid font query in " ++ id ++ ": missing query fields"
  | .badArguments => "Invalid font query in " ++ id ++ ": arguments"
  | .loader error => "Font loader failed for " ++ id ++ ": " ++ error.message

/-- The stylesheets that were made, and what the loaders left behind. -/
structure Collection where
  stylesheets : Table Loaded
  /-- Keys with the environments that asked for them. -/
  environments : List (String × String)
  caches : LoaderKind → Caches
  store : Asset.Store
  /-- The loaders that were made. -/
  constructed : List LoaderKind
  log : List Event

namespace Collection

/-- Nothing was made yet. -/
def empty : Collection :=
  { stylesheets := Table.empty
    environments := []
    caches := fun _ => Caches.empty
    store := Table.empty
    constructed := []
    log := [] }

/-! ## Looking up -/

/-- The stylesheet of a name, however the name is spelled. -/
def get? (collection : Collection) (id : String) : Option Loaded :=
  (key? id).bind collection.stylesheets.get?

/-- Whether there is a stylesheet of a name. -/
def contains (collection : Collection) (id : String) : Bool :=
  (collection.get? id).isSome

/-- The stylesheets of the calls in a module, by key. -/
def entriesOf (collection : Collection) (module : String) : List (String × Loaded) :=
  collection.stylesheets.entries.filter fun entry => entry.2.module == module

/-- The keys of the stylesheets that were made from a file. -/
def keysUsing (collection : Collection) (file : String) : List String :=
  (collection.stylesheets.entries.filter fun entry =>
    entry.2.fontFiles.any fun used => Text.Path.same used file).map Prod.fst

/-- Whether a stylesheet refers to a public URL. -/
def references (collection : Collection) (url : String) : Bool :=
  collection.stylesheets.values.any fun loaded => loaded.urls.contains url

/-! ## Dropping -/

/-- Drop the stylesheet of a name; the answer is what was dropped. -/
def remove (collection : Collection) (id : String) : Collection × Option Loaded :=
  match key? id with
  | none => (collection, none)
  | some key =>
      ({ collection with
        environments := collection.environments.filter fun seen => seen.1 != key
        stylesheets := collection.stylesheets.erase key }, collection.stylesheets.get? key)

/-- Drop the stylesheets of several names. -/
def removeAll (collection : Collection) : List String → Collection × List Loaded
  | [] => (collection, [])
  | id :: rest =>
      let (collection, dropped) := collection.remove id
      let (collection, others) := collection.removeAll rest
      (collection, dropped.toList ++ others)

/-- Drop every stylesheet; what the loaders left behind stays. -/
def clear (collection : Collection) : Collection :=
  { collection with stylesheets := Table.empty, environments := [] }

/-- Forget the downloads of a loader. -/
def clearCaches (collection : Collection) (kind : LoaderKind) : Collection :=
  { collection with
    caches := fun other => if other = kind then Caches.empty else collection.caches other }

/-! ## Making -/

/-- What came of a request. -/
inductive Started where
  /-- There is no such stylesheet, or no loader for it. -/
  | unknown
  /-- The stylesheet was kept from an earlier request. -/
  | kept (key : String) (target : Module)
  | failed (failure : Failure)
  /-- The stylesheet was made and is still to be kept. -/
  | made (key : String) (loaded : Loaded)

/-- The arguments of a call, which its stylesheet's name gives as JSON. -/
def readArguments? (text : String) : Option (List Json.Value) :=
  match Json.Value.read? text.toList with
  | some (.list items) => some items
  | _ => none

/-- Tell that a loader is made, if it was not made before. -/
def announce (collection : Collection) (kind : LoaderKind) (registered : Registered) :
    Collection :=
  if collection.constructed.contains kind then collection
  else
    { collection with
      constructed := collection.constructed ++ [kind]
      log := if registered.isAnnounced then collection.log ++ [.construct kind]
        else collection.log }

/-- Take up what a loader has done. -/
def absorb (collection : Collection) (kind : LoaderKind) (state : Loader.State) : Collection :=
  { collection with
    caches := fun other => if other = kind then state.caches else collection.caches other
    store := state.store
    log := state.log }

/-- The call that the name of a stylesheet stands for. -/
def callOf (setup : Setup) (world : World) (query : Query) (arguments : List Json.Value)
    (isServer : Bool) : Loader.Call :=
  { function := query.function
    variableName := query.variableName
    arguments
    directory := Loader.directoryOf
      (String.ofList (Text.Path.joined setup.root.toList query.path.toList))
    isDev := setup.isDev
    isServer
    base := setup.base
    world }

/-- The stylesheet that a loader's answer makes. -/
def loadedOf (setup : Setup) (query : Query) (state : Loader.State) (target : Module) : Loaded :=
  { target
    module := query.path
    assets := state.emitted
    urls := state.emitted.map setup.base.url
    fontFiles := state.resolved
    errors := state.errors }

/-- Run the loader of a call. -/
def run (setup : Setup) (world : World) (collection : Collection) (kind : LoaderKind)
    (registered : Registered) (query : Query) (arguments : List Json.Value) (key : String)
    (isServer : Bool) : Collection × Started :=
  let collection := collection.announce kind registered
  let start := Loader.State.start (collection.caches kind) collection.store collection.log
  let (result, state) :=
    (registered.loader (callOf setup world query arguments isServer)).run start
  let collection := collection.absorb kind state
  match result with
  | .error error => (collection, .failed (.loader error))
  | .ok output =>
      match Module.generate setup.minify query.path output with
      | .error error => (collection, .failed (.loader error))
      | .ok target => (collection, .made key (loadedOf setup query state target))

/-- What is kept for an environment that asks again. -/
def kept? (setup : Setup) (collection : Collection) (key environment : String) : Option Module :=
  if setup.isDev && collection.environments.contains (key, environment) then
    (collection.stylesheets.get? key).map Loaded.target
  else none

/-- The call behind a name: its fields, and its arguments. -/
def readCall (id : String) : Except Failure (Query × List Json.Value) :=
  match Query.read? (queryPart id.toList) with
  | none => .error .missingFields
  | some query =>
      match readArguments? query.arguments with
      | none => .error .badArguments
      | some arguments => .ok (query, arguments)

/-- Take up a request: look for what is kept, or else run the loader. -/
def start (setup : Setup) (world : World) (collection : Collection) (request : Request) :
    Collection × Started :=
  match key? request.id, LoaderKind.ofTargetPath? (pathPart request.id.toList) with
  | some key, some kind =>
      match setup.loaders kind with
      | none => (collection, .unknown)
      | some registered =>
          match collection.kept? setup key request.environment with
          | some target => (collection, .kept key target)
          | none =>
              match readCall request.id with
              | .error failure => (collection, .failed failure)
              | .ok (query, arguments) =>
                  run setup world collection kind registered query arguments key request.isServer
  | _, _ => (collection, .unknown)

/-- Keep a stylesheet that was made for an environment. -/
def keep (collection : Collection) (key environment : String) (loaded : Loaded) : Collection :=
  { collection with
    environments :=
      if collection.environments.contains (key, environment) then collection.environments
      else collection.environments ++ [(key, environment)]
    stylesheets := collection.stylesheets.insert key loaded }

/-- Make a stylesheet and keep it. -/
def load (setup : Setup) (world : World) (collection : Collection) (request : Request) :
    Collection × Except Failure (Option Module) :=
  match collection.start setup world request with
  | (collection, .unknown) => (collection, .ok none)
  | (collection, .kept _ target) => (collection, .ok (some target))
  | (collection, .failed failure) => (collection, .error failure)
  | (collection, .made key loaded) =>
      (collection.keep key request.environment loaded, .ok (some loaded.target))

end Collection

end FontHosting.Stylesheet
