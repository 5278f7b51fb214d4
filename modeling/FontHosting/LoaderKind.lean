import FontHosting.Text.Search

/-!
# Kinds of loaders

Fonts come from one of two loaders, each of which has a module of its own that
font functions are imported from.
-/

namespace FontHosting

/-- Where the fonts of a call come from. -/
inductive LoaderKind where
  | google
  | local
  deriving DecidableEq, Repr

namespace LoaderKind

/-- The loaders, in the order in which they are tried. -/
def all : List LoaderKind := [.google, .local]

/-- The module that the font functions of a loader are imported from. -/
def module : LoaderKind → String
  | .google => "next-font/google"
  | .local => "next-font/local"

/-- The path of the stylesheets that a loader makes. -/
def targetPath : LoaderKind → String
  | .google => "next-font/google/target.css"
  | .local => "next-font/local/target.css"

/-- Whether a path is the target path, or ends with it below some directory. -/
def hasTargetPath (kind : LoaderKind) (path : List Char) : Bool :=
  path == kind.targetPath.toList || ('/' :: kind.targetPath.toList).isSuffixOf path

/-- The loader whose stylesheets lie at a path. -/
def ofTargetPath? (path : List Char) : Option LoaderKind :=
  let path := Text.replaceChar '\\' '/' path
  all.find? (·.hasTargetPath path)

end LoaderKind

end FontHosting
