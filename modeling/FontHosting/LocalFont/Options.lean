import FontHosting.Loader.Options
import FontHosting.Text.Search

/-!
# Calls for font files

What may be asked of font files that lie in the project.  A call names one file, or
several with weights and styles of their own.
-/

namespace FontHosting.LocalFont

open Loader (Checked)

/-- A font file and what it is used for. -/
structure Source where
  path : String
  weight : Option String
  style : Option String
  extension : String
  format : String
  deriving DecidableEq, Repr

/-- The font that stands in until the files are there. -/
inductive StandIn where
  | arial
  | timesNewRoman
  | disabled
  deriving DecidableEq, Repr

/-- A declaration of the author's own. -/
structure Declaration where
  property : String
  value : String
  deriving DecidableEq, Repr

/-- The checked arguments of a call. -/
structure Options where
  sources : List Source
  display : String
  weight : Option String
  style : Option String
  fallback : Option (List String)
  preload : Bool
  variableName : Option String
  standIn : StandIn
  declarations : List Declaration
  deriving DecidableEq, Repr

/-- What CSS calls the format of a font file. -/
def formatOf? : String → Option String
  | "woff" => some "woff"
  | "woff2" => some "woff2"
  | "eot" => some "embedded-opentype"
  | "ttf" => some "truetype"
  | "otf" => some "opentype"
  | _ => none

/-- A font file, told by what stands behind the last point of its path. -/
def Source.ofPath (path : String) (weight style : Option String) : Checked Source :=
  match Text.splitLast? '.' path.toList with
  | none => .error (.notFontFile path)
  | some (_, extension) =>
      let extension := String.ofList extension
      match formatOf? extension with
      | some format => .ok ⟨path, weight, style, extension, format⟩
      | none => .error (.notFontFile path)

/-- An item of a list of files. -/
def Source.ofItem : Json.Value → Checked Source
  | .object fields => do
      match ← Loader.textOption fields "path" with
      | none => throw .missingSourcePath
      | some path =>
          let weight ← Loader.textOption fields "weight"
          let style ← Loader.textOption fields "style"
          Source.ofPath path weight style
  | found => .error (.notSourceItem found)

/-- The files of a call.  One that stands alone has the weight and the style of the call. -/
def checkSources (options : Json.Fields) (weight style : Option String) : Checked (List Source) :=
  match Loader.given? options "src" with
  | none => .error .missingSource
  | some (.text path) => do return [← Source.ofPath path weight style]
  | some (.list []) => .error .emptySource
  | some (.list items) => items.mapM Source.ofItem
  | some found => .error (.notSource found)

/-- The font that is to stand in. -/
def checkStandIn (options : Json.Fields) : Checked StandIn :=
  match Loader.given? options "adjustFontFallback" with
  | none => .ok .arial
  | some (.boolean false) => .ok .disabled
  | some (.text "Arial") => .ok .arial
  | some (.text "Times New Roman") => .ok .timesNewRoman
  | some found => .error (.unknownFallback found)

/-- The properties that are set for every file and cannot be declared. -/
def reservedProperties : List String := ["src", "font-display", "font-weight", "font-style"]

/-- A declaration of the author's own. -/
def Declaration.ofItem : Json.Value → Checked Declaration
  | .object fields => do
      let property := (← Loader.textOption fields "prop").getD ""
      if reservedProperties.contains property then throw (.reservedDeclaration property)
      let value := (← Loader.textOption fields "value").getD ""
      return ⟨property, value⟩
  | found => .error (.notDeclaration found)

/-- The declarations of a call. -/
def checkDeclarations (options : Json.Fields) : Checked (List Declaration) :=
  match Loader.given? options "declarations" with
  | none => .ok []
  | some (.list items) => items.mapM Declaration.ofItem
  | some found => .error (.notDeclarations found)

/-- The options in the first argument of a call. -/
def optionFields : Option Json.Value → Checked Json.Fields
  | none | some .null => .ok []
  | some (.object fields) => .ok fields
  | some found => .error (.notFileOptions found)

/-- Check the arguments of a call. -/
def Options.check (function : String) (argument : Option Json.Value) : Checked Options := do
  if !function.isEmpty then throw .noNamedExports
  let options ← optionFields argument
  let display ← Loader.displayOption options
  let weight ← Loader.textOption options "weight"
  let style ← Loader.textOption options "style"
  let sources ← checkSources options weight style
  let standIn ← checkStandIn options
  let declarations ← checkDeclarations options
  let fallback ← Loader.textsOption options "fallback"
  let preload := (← Loader.booleanOption options "preload").getD true
  let variableName ← Loader.variableOption options
  return { sources, display, weight, style, fallback, preload, variableName, standIn, declarations }

end FontHosting.LocalFont
