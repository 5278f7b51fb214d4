import FontHosting.Text.LowerCase

/-!
# Log levels

How much is told while a site is built.
-/

namespace FontHosting

/-- How much is told. -/
inductive LogLevel where
  | silent
  | error
  | warn
  | info
  | debug
  | trace
  deriving DecidableEq, Repr

namespace LogLevel

/-- The name of a level. -/
def name : LogLevel → String
  | .silent => "off"
  | .error => "error"
  | .warn => "warn"
  | .info => "info"
  | .debug => "debug"
  | .trace => "trace"

/-- The level of a name in lower case. -/
def ofName? : String → Option LogLevel
  | "silent" | "off" => some .silent
  | "error" => some .error
  | "warn" | "warning" => some .warn
  | "info" => some .info
  | "debug" => some .debug
  | "trace" => some .trace
  | _ => none

/-- A text that names no level, in lower case. -/
structure Unknown where
  name : String
  deriving DecidableEq, Repr

/-- How an unknown level is told. -/
def Unknown.message (unknown : Unknown) : String :=
  "Invalid log level: " ++ unknown.name

/-- The level that a text names, in any case. -/
def read (text : String) : Except Unknown LogLevel :=
  let lowered := String.ofList (Text.LowerCase.ofText text.toList)
  match ofName? lowered with
  | some level => .ok level
  | none => .error ⟨lowered⟩

/-- Every level can be read by its name. -/
theorem ofName?_name (level : LogLevel) : ofName? level.name = some level := by
  cases level <;> rfl

end LogLevel

end FontHosting
