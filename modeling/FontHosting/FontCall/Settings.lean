import FontHosting.LoaderKind
import FontHosting.Table

/-!
# Loader modules

Which modules font functions may be imported from.  A module may have other names,
which are replaced before it is looked up.
-/

namespace FontHosting.FontCall

/-- The modules of font functions. -/
structure Settings where
  /-- The modules that are loaders. -/
  loaders : List String
  /-- Other names of modules, with the modules they stand for. -/
  remapped : Table String

/-- The loader modules. -/
def defaultLoaders : List String :=
  LoaderKind.all.map LoaderKind.module

/-- The names that the loader modules have elsewhere. -/
def defaultRemapped : Table String :=
  Table.ofList [
    ("@next/font/google", LoaderKind.google.module), ("@next/font/local", LoaderKind.local.module),
    ("next/font/google", LoaderKind.google.module), ("next/font/local", LoaderKind.local.module)]

/-- The module that a name stands for. -/
def Settings.remap (settings : Settings) (source : String) : String :=
  (settings.remapped.get? source).getD source

/-- Whether a name stands for a loader module. -/
def Settings.isLoader (settings : Settings) (source : String) : Bool :=
  settings.loaders.contains (settings.remap source)

end FontHosting.FontCall
