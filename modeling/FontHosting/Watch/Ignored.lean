import FontHosting.Text.Path

/-!
# Ignored paths

Which paths of a project are not watched: those outside its root directory, those that
match a pattern, and hidden ones.  Patterns are compared with the text of the path below
the root directory.
-/

namespace FontHosting.Watch

/-- The directories that hold no fonts of a project. -/
def defaultPatterns : List String := ["node_modules", "dist", "target", ".next"]

/-- Whether a path below the root directory matches a pattern.  A pattern that starts with `*`
is an ending; any other stands at the start of the path or after a separator. -/
def matchesPattern (path : List Char) (pattern : String) : Bool :=
  match pattern.toList with
  | '*' :: ending => ending.isSuffixOf path
  | start => start.isPrefixOf path || Text.occursIn ('/' :: start) path

/-- Whether a component of a path is hidden. -/
def isHidden : Text.Path.Part → Bool
  | .name ('.' :: _) => true
  | _ => false

/-- Whether a path is not watched. -/
def isIgnored (patterns : List String) (root path : String) : Bool :=
  match Text.Path.below? root.toList path.toList with
  | none => true
  | some below => patterns.any (matchesPattern below) || (Text.Path.parts below).any isHidden

/-- Why a directory cannot be watched. -/
inductive Fault where
  /-- There is no such directory. -/
  | notFound (path : String)
  deriving DecidableEq, Repr

/-- How a fault is told. -/
def Fault.message : Fault → String
  | .notFound path => "Path not found: " ++ path

end FontHosting.Watch
