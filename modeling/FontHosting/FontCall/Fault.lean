/-!
# Misused font functions

What is wrong with a font call, and where.
-/

namespace FontHosting.FontCall

/-- What is wrong. -/
inductive Cause where
  /-- A loader module is imported as a whole. -/
  | namespaceImport
  | spreadArgument
  /-- The call is assigned to a variable that may change. -/
  | notConstant
  /-- The call is assigned to a pattern. -/
  | notName
  /-- A font function is used in any other way. -/
  | outsideModuleScope
  | spread
  /-- A property that is a method or an accessor. -/
  | propertyForm
  /-- A key that is not a plain name. -/
  | keyForm
  | hole
  | notLiteral
  deriving DecidableEq, Repr

/-- A fault and the byte where it stands. -/
structure Fault where
  cause : Cause
  offset : Nat
  deriving DecidableEq, Repr

/-- How a fault is told. -/
def Cause.message : Cause → String
  | .namespaceImport => "Font loaders can't have namespace imports"
  | .spreadArgument => "Font loaders don't accept spreads"
  | .notConstant => "Font loader calls must be assigned to a const"
  | .notName => "Font loader calls must be assigned to an identifier"
  | .outsideModuleScope =>
      "Font loaders must be called and assigned to a const in the module scope"
  | .spread => "Unexpected spread"
  | .propertyForm => "Unexpected key"
  | .keyForm => "Unexpected object key type"
  | .hole => "Unexpected empty value in array"
  | .notLiteral => "Font loader values must be explicitly written literals."

/-- How a fault is told. -/
def Fault.message (fault : Fault) : String := fault.cause.message

end FontHosting.FontCall
