import FontHosting.Loader.Call
import FontHosting.Text.Path

/-!
# A machine without fonts

The world of a machine that has no font files and no connection.
-/

namespace FontHosting.Loader

/-- Why a path cannot be read where there are only directories. -/
def unreadableReason (path : String) : String :=
  if path.toList.contains '\x00' then "file name contained an unexpected NUL byte"
  else if !path.isEmpty && (Text.Path.fileName? path.toList).isNone then
    "Is a directory (os error 21)"
  else "No such file or directory (os error 2)"

/-- The world in which nothing can be fetched or read. -/
def World.unconnected : World := {
  stylesheet := fun _ _ _ _ => none
  font := fun _ _ _ => none
  file := fun _ path => .error (unreadableReason path)
  familyFallback := fun _ => none
  fileFallback := fun _ _ => none }

end FontHosting.Loader
