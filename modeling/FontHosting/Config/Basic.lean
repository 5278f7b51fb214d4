import FontHosting.Session.Basic

/-!
# Configuration

What the owner of a project decides about its fonts.
-/

namespace FontHosting

/-- The configuration of a project. -/
structure Config where
  /-- The directory below which the modules of the project lie. -/
  root : String
  /-- Where the assets of the site lie: a path, or the URL of another server. -/
  basePath : String
  /-- Whether the site is being developed, so that its fonts are served from memory. -/
  isDev : Bool
  /-- Other names of loader modules, with the modules they stand for. -/
  remapped : Table String
  /-- The loader modules. -/
  loaders : List String
  /-- Whether stylesheets are written as short as possible. -/
  minifiesCss : Bool
  logLevel : String

namespace Config

/-- The configuration of a project whose owner decides nothing. -/
def ofRoot (root : String) : Config :=
  { root
    basePath := ""
    isDev := false
    remapped := FontCall.defaultRemapped
    loaders := FontCall.defaultLoaders
    minifiesCss := false
    logLevel := "info" }

/-- The project of a configuration, with the loaders it may use. -/
def project (config : Config) (loaders : LoaderKind → Option Stylesheet.Registered) : Project :=
  { setup := {
      root := config.root
      isDev := config.isDev
      minify := config.minifiesCss
      base := Asset.UrlBase.ofPath config.basePath
      loaders }
    calls := ⟨config.loaders, config.remapped⟩ }

/-- Why a configuration cannot be used. -/
inductive Fault where
  | noLoaders
  | badBasePath (path : String)
  deriving DecidableEq, Repr

/-- Whether a base path is a path from the root on, or a URL. -/
def isBasePath (path : String) : Bool :=
  path.isEmpty || path.toList.head? = some '/' || Text.occursIn "://".toList path.toList

/-- What is wrong with a configuration, if anything is. -/
def fault? (config : Config) : Option Fault :=
  if config.loaders.isEmpty then some .noLoaders
  else if !isBasePath config.basePath then some (.badBasePath config.basePath)
  else none

/-- How a fault is told. -/
def Fault.message : Fault → String
  | .noLoaders => "fontLoaders must name at least one loader module"
  | .badBasePath path =>
      "basePath \x60" ++ path ++ "\x60 must start with \x60/\x60 or be an absolute URL"

end Config

end FontHosting
