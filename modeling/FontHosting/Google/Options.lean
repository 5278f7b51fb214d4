import FontHosting.Google.Catalog
import FontHosting.Loader.Options
import FontHosting.Text.Search

/-!
# Calls of font families

What may be asked of a font family, checked against the catalog.  The checks are made
in a fixed order, and the first one that fails is told.
-/

namespace FontHosting.Google

open Loader (Checked ArgumentFault)

/-- The checked arguments of a call. -/
structure Options where
  family : String
  weights : List String
  styles : List String
  display : String
  preload : Bool
  /-- The axes that were asked for, apart from the weight. -/
  axes : Option (List String)
  fallback : Option (List String)
  /-- Whether a stand-in is to be adjusted. -/
  adjustsFallback : Bool
  variableName : Option String
  subsets : List String
  deriving DecidableEq, Repr

/-- The weight that stands for a whole range of weights. -/
def variableWeight : String := "variable"

/-- A list without what it has already. -/
def once (values : List String) : List String :=
  values.foldl (fun seen value => if seen.contains value then seen else seen ++ [value]) []

/-- The name of the family that a function stands for. -/
def familyName (function : String) : String :=
  String.ofList (Text.replaceChar '_' ' ' function.toList)

/-- The options in the first argument of a call. -/
def optionFields (family : String) : Option Json.Value → Checked Json.Fields
  | none | some .null => .ok []
  | some (.object fields) => .ok fields
  | some found => .error (.notOptions found family)

/-- The first of some values that is not available. -/
def firstUnknown? (available values : List String) : Option String :=
  values.find? fun value => !available.contains value

/-- Fail for the first value that is not available. -/
def allAvailable (available values : List String)
    (fault : String → List String → ArgumentFault) : Checked Unit :=
  match firstUnknown? available values with
  | some value => .error (fault value available)
  | none => .ok ()

/-- Whether files are to be loaded early.  For that the subsets must be said, and be known. -/
def checkSubsets (family : String) (known : Option Family) (preload : Bool)
    (subsets : Option (List String)) : Checked Bool :=
  let available := (known.map Family.subsets).getD []
  if known.isSome && available.isEmpty then .ok false
  else if !preload then .ok false
  else
    match subsets with
    | none => .error (.missingSubsets family available)
    | some subsets => do
        if known.isSome then
          allAvailable available subsets fun value available =>
            .unknownSubset value family available
        return true

/-- The weights of a call: those asked for, or the whole range. -/
def checkWeights (family : String) (known : Option Family) (asked : List String) :
    Checked (List String) := do
  let available := (known.map Family.weights).getD []
  let weights ←
    if !asked.isEmpty then pure asked
    else if known.isSome && !available.contains variableWeight then
      throw (.missingWeight family available)
    else pure [variableWeight]
  if weights.length > 1 && weights.contains variableWeight then
    throw (.variableAmongWeights family)
  if known.isSome then
    allAvailable available weights fun value available => .unknownWeight value family available
  return weights

/-- The styles of a call: those asked for, or the only one, or the normal one. -/
def checkStyles (family : String) (known : Option Family) (asked : List String) :
    Checked (List String) := do
  let available := (known.map Family.styles).getD []
  let styles :=
    if !asked.isEmpty then asked
    else if available.length = 1 then available
    else ["normal"]
  if known.isSome then
    allAvailable available styles fun value available => .unknownStyle value family available
  return styles

/-- The axes of a call, which only a variable font has. -/
def checkAxes (family : String) (options : Json.Fields) (weights : List String) :
    Checked (Option (List String)) := do
  let axes ← match Loader.given? options "axes" with
    | none => pure none
    | some (.list _) => Loader.textsOption options "axes"
    | some _ => throw (.notAxes family)
  if weights.head? != some variableWeight && axes.isSome then throw .axesOfStaticFont
  return axes

/-- Whether a stand-in is to be adjusted, as it is unless that is declined. -/
def checkAdjustment (family : String) (options : Json.Fields) : Checked Bool :=
  match Loader.given? options "adjustFontFallback" with
  | none => .ok true
  | some (.boolean value) => .ok value
  | some found => .error (.notAdjustment found family)

/-- Check the arguments of a call of a font function. -/
def Options.check (function : String) (argument : Option Json.Value) (catalog : Catalog) :
    Checked Options := do
  if function.isEmpty then throw .noDefaultExport
  let family := familyName function
  let known := catalog.get? family
  let options ← optionFields family argument
  let preload := (← Loader.booleanOption options "preload").getD true
  let subsets ← Loader.textsOption options "subsets"
  let preload ← checkSubsets family known preload subsets
  let askedWeights := once ((← Loader.textsOption options "weight").getD [])
  let askedStyles := once ((← Loader.textsOption options "style").getD [])
  let weights ← checkWeights family known askedWeights
  let styles ← checkStyles family known askedStyles
  let display ← Loader.displayOption options
  let axes ← checkAxes family options weights
  let adjustsFallback ← checkAdjustment family options
  let fallback ← Loader.textsOption options "fallback"
  let variableName ← Loader.variableOption options
  return {
    family, weights, styles, display, preload, axes, fallback, adjustsFallback, variableName
    subsets := subsets.getD [] }

end FontHosting.Google
