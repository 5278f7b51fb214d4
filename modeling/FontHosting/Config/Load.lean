import FontHosting.Config.Basic
import FontHosting.Config.Variable
import FontHosting.Json.Reader
import FontHosting.Toml.Reader

/-!
# Loading a configuration

A configuration is put together from two files in the root directory and the
environment.  The environment wins over the JSON file, that over the TOML file, and
that over the defaults.  Of several faults the first by the key is told; the whole
is checked only when every field fits.
-/

namespace FontHosting.Config

/-- The texts that a configuration is read from. -/
structure Sources where
  toml : Option String
  json : Option String
  /-- The names and values of variables. -/
  environment : List (String × String)

/-- Why a setting does not fit its field. -/
inductive Misfit where
  /-- There is no such field. -/
  | unknownField (name : String)
  /-- The value is of another kind than the field. -/
  | invalidType (found wanted : String)
  deriving DecidableEq, Repr

/-- Why no configuration was loaded. -/
inductive LoadError where
  /-- A file is no document of its format. -/
  | unreadable (source : Source)
  /-- The setting at a path does not fit. -/
  | misfit (source : Source) (path : List String) (reason : Misfit)
  | fault (problem : Fault)

/-! ## Fields -/

/-- The fields of a configuration, in their own order. -/
def fieldNames : List String :=
  ["root", "basePath", "dev", "remapImports", "fontLoaders", "minifyCss", "logLevel"]

/-- The setting at a path is not what is wanted. -/
def wrongType {α : Type} (setting : Setting) (path : List String) (wanted : String) :
    Except LoadError α :=
  .error (.misfit setting.source path (.invalidType setting.describe wanted))

/-- A text. -/
def asText (path : List String) (wanted : String) (setting : Setting) :
    Except LoadError String :=
  match setting with
  | .scalar _ (.text value) => .ok value
  | .scalar _ (.character value) => .ok (String.ofList [value])
  | _ => wrongType setting path wanted

/-- A truth value. -/
def asBoolean (path : List String) (setting : Setting) : Except LoadError Bool :=
  match setting with
  | .scalar _ (.boolean value) => .ok value
  | _ => wrongType setting path "a boolean"

/-- A list of texts. -/
def asTexts (path : List String) (setting : Setting) : Except LoadError (List String) :=
  match setting with
  | .list _ items => items.zipIdx.mapM fun (item, index) =>
      asText (path ++ [toString index]) "a string" item
  | _ => wrongType setting path "a sequence"

/-- A table of texts. -/
def asTable (path : List String) (setting : Setting) : Except LoadError (Table String) :=
  match setting with
  | .table _ entries => do
      let values ← entries.mapM fun (key, value) => do
        return (key, ← asText (path ++ [key]) "a string" value)
      return Table.ofList values
  | _ => wrongType setting path "a map"

/-- A configuration with one field set. -/
def set (config : Config) (key : String) (setting : Setting) : Except LoadError Config := do
  let path := [key]
  match key with
  | "root" => return { config with root := ← asText path "path string" setting }
  | "basePath" => return { config with basePath := ← asText path "a string" setting }
  | "dev" => return { config with isDev := ← asBoolean path setting }
  | "remapImports" => return { config with remapped := ← asTable path setting }
  | "fontLoaders" => return { config with loaders := ← asTexts path setting }
  | "minifyCss" => return { config with minifiesCss := ← asBoolean path setting }
  | "logLevel" => return { config with logLevel := ← asText path "a string" setting }
  | _ => .error (.misfit setting.source path (.unknownField key))

/-- The fields of a configuration as settings. -/
def settings (config : Config) : Setting :=
  let text := Setting.text .defaults
  let boolean := fun value => Setting.scalar .defaults (.boolean value)
  .table .defaults (Setting.sorted [
    ("root", text config.root), ("basePath", text config.basePath), ("dev", boolean config.isDev),
    ("remapImports", .table .defaults
      (config.remapped.entries.map fun (key, value) => (key, text value))),
    ("fontLoaders", .list .defaults (config.loaders.map text)),
    ("minifyCss", boolean config.minifiesCss), ("logLevel", text config.logLevel)])

/-! ## Loading -/

/-- The settings of the TOML file. -/
def tomlSettings (text : String) : Except LoadError Setting :=
  match Toml.read? text.toList with
  | some entries => .ok (.ofToml (.table entries))
  | none => .error (.unreadable .toml)

/-- The settings of the JSON file. -/
def jsonSettings (text : String) : Except LoadError Setting :=
  match Json.Value.read? text.toList with
  | some (.object fields) => .ok (.ofJson (.object fields))
  | _ => .error (.unreadable .json)

/-- Settings with those of a file laid over them, if there is the file. -/
def mergeFile (merged : Setting) (read : String → Except LoadError Setting)
    (file : Option String) : Except LoadError Setting :=
  match file with
  | some text => (read text).map merged.merge
  | none => .ok merged

/-- All settings of a project. -/
def mergeSources (root : String) (sources : Sources) : Except LoadError Setting := do
  let merged ← mergeFile (ofRoot root).settings tomlSettings sources.toml
  let merged ← mergeFile merged jsonSettings sources.json
  return merged.merge (Variable.settings sources.environment)

/-- The configuration that settings give, field by field. -/
def ofSettings (start : Config) (setting : Setting) : Except LoadError Config :=
  match setting with
  | .table _ entries => entries.foldlM (fun config entry => config.set entry.1 entry.2) start
  | _ => .ok start

/-- The configuration of the project at `root`. -/
def load (root : String) (sources : Sources) : Except LoadError Config := do
  let config ← ofSettings (ofRoot root) (← mergeSources root sources)
  match config.fault? with
  | some problem => .error (.fault problem)
  | none => return config

/-! ## Messages -/

/-- What a source is called. -/
def Source.title : Source → String
  | .defaults => "default settings"
  | .toml => "fob-font.toml TOML file"
  | .json => "fob-font.json JSON file"
  | .environment => Setting.ticked Variable.namePrefix ++ " environment variable(s)"

/-- The key of a setting as its source spells it. -/
def Source.key (source : Source) (path : List String) : String :=
  match source with
  | .environment => ".".intercalate (path.map fun part => part.map Char.toUpper)
  | _ => ".".intercalate ("default" :: path)

/-- How a misfit is told. -/
def Misfit.message : Misfit → String
  | .unknownField name =>
      "unknown field: found " ++ Setting.ticked name ++ ", expected " ++
        Setting.ticked ("one of " ++ ", ".intercalate (fieldNames.map Setting.ticked))
  | .invalidType found wanted => "invalid type: found " ++ found ++ ", expected " ++ wanted

/-- What every message about a configuration starts with. -/
def messageStart : String := "Invalid font configuration: "

/-- How it is told that no configuration was loaded. -/
def LoadError.message : LoadError → String
  | .unreadable source => messageStart ++ "no document in " ++ source.title
  | .misfit source path reason =>
      messageStart ++ reason.message ++ " for key " ++
        String.ofList (Text.Escaped.quote (source.key path).toList) ++ " in " ++ source.title
  | .fault problem => messageStart ++ problem.message

end FontHosting.Config
