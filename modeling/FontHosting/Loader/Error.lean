import FontHosting.Json.Writer

/-!
# What can go wrong while fonts are loaded

Every reason why a loader gives up, and how it is told.  A value that a call
contains is told as JSON.
-/

namespace FontHosting.Loader

/-- What is wrong with the arguments of a font call.  `found` is what stands in place of
what was expected, `available` what may stand there. -/
inductive ArgumentFault where
  | notText (key : String) (found : Json.Value)
  | notTextItem (key : String) (found : Json.Value)
  | notTexts (key : String) (found : Json.Value)
  | notBoolean (key : String) (found : Json.Value)
  | unknownDisplay (found : String) (available : List String)
  | notCustomProperty (found : String)
  -- fonts from the net
  | noDefaultExport
  | notOptions (found : Json.Value) (family : String)
  | missingSubsets (family : String) (available : List String)
  | unknownSubset (found family : String) (available : List String)
  | missingWeight (family : String) (available : List String)
  | variableAmongWeights (family : String)
  | unknownWeight (found family : String) (available : List String)
  | unknownStyle (found family : String) (available : List String)
  | notAxes (family : String)
  | axesOfStaticFont
  | notAdjustment (found : Json.Value) (family : String)
  | noAxes (family : String)
  | unknownAxis (found family : String) (available : List String)
  -- fonts from files
  | noNamedExports
  | notFileOptions (found : Json.Value)
  | missingSource
  | emptySource
  | missingSourcePath
  | notSourceItem (found : Json.Value)
  | notSource (found : Json.Value)
  | unknownFallback (found : Json.Value)
  | notDeclarations (found : Json.Value)
  | notDeclaration (found : Json.Value)
  | reservedDeclaration (property : String)
  | notFontFile (path : String)

/-- Why a loader gave up. -/
inductive Error where
  | arguments (fault : ArgumentFault)
  /-- What a family needs could not be downloaded. -/
  | notFetched (family : String)
  /-- A loader reports a failed download in its own words. -/
  | fetchFailed (reason : String)
  | notRead (path reason : String)
  | unexpectedFontFile (url : String)
  | noFontFace
  /-- A stylesheet that belongs to a module cannot be read. -/
  | badStylesheet (path : String)

/-- Values that may be given, each between grave accents. -/
def listed (values : List String) : String :=
  ", ".intercalate (values.map fun value => "`" ++ value ++ "`")

/-- A line that says what may be given. -/
def availableLine (what : String) (available : List String) : String :=
  "\nAvailable " ++ what ++ ": " ++ listed available

/-- How a fault of the arguments is told. -/
def ArgumentFault.message : ArgumentFault → String
  | .notText key found =>
      "Invalid `" ++ key ++ "` value `" ++ found.toText ++ "`, expected a string"
  | .notTextItem key found =>
      "Invalid `" ++ key ++ "` entry `" ++ found.toText ++ "`, expected a string"
  | .notTexts key found =>
      "Invalid `" ++ key ++ "` value `" ++ found.toText ++
        "`, expected a string or an array of strings"
  | .notBoolean key found =>
      "Invalid `" ++ key ++ "` value `" ++ found.toText ++ "`, expected a boolean"
  | .unknownDisplay found available =>
      "Invalid display value `" ++ found ++ "`." ++ availableLine "display values" available
  | .notCustomProperty found =>
      "Invalid variable `" ++ found ++ "`, CSS variables must start with `--`"
  | .noDefaultExport => "next/font/google has no default export"
  | .notOptions found family =>
      "Unexpected argument `" ++ found.toText ++ "` for font `" ++ family ++
        "`, expected an options object"
  | .missingSubsets family available =>
      "Preload is enabled but no subsets were specified for font `" ++ family ++
        "`. Please specify subsets or disable preloading if your intended subset " ++
        "can't be preloaded." ++ availableLine "subsets" available
  | .unknownSubset found family available =>
      "Unknown subset `" ++ found ++ "` for font `" ++ family ++ "`." ++
        availableLine "subsets" available
  | .missingWeight family available =>
      "Missing weight for font `" ++ family ++ "`." ++ availableLine "weights" available
  | .variableAmongWeights family =>
      "Unexpected `variable` in weight array for font `" ++ family ++
        "`. You only need `variable`, it includes all available weights."
  | .unknownWeight found family available =>
      "Unknown weight `" ++ found ++ "` for font `" ++ family ++ "`." ++
        availableLine "weights" available
  | .unknownStyle found family available =>
      "Unknown style `" ++ found ++ "` for font `" ++ family ++ "`." ++
        availableLine "styles" available
  | .notAxes family =>
      "Invalid axes value for font `" ++ family ++ "`, expected an array of axes."
  | .axesOfStaticFont => "Axes can only be defined for variable fonts"
  | .notAdjustment found family =>
      "Invalid adjustFontFallback value `" ++ found.toText ++ "` for font `" ++ family ++
        "`, expected a boolean"
  | .noAxes family => "Font `" ++ family ++ "` has no definable `axes`"
  | .unknownAxis found family available =>
      "Invalid axes value `" ++ found ++ "` for font `" ++ family ++ "`." ++
        availableLine "axes" available
  | .noNamedExports => "next/font/local has no named exports"
  | .notFileOptions found =>
      "Unexpected argument `" ++ found.toText ++ "`, expected an options object"
  | .missingSource => "Missing required `src` property"
  | .emptySource => "Unexpected empty `src` array."
  | .missingSourcePath => "Missing required `path` in `src` entry"
  | .notSourceItem found => "Unexpected `src` entry `" ++ found.toText ++ "`"
  | .notSource found => "Unexpected `src` value `" ++ found.toText ++ "`"
  | .unknownFallback found =>
      "Invalid adjustFontFallback value `" ++ found.toText ++ "`." ++
        availableLine "values" ["Arial", "Times New Roman", "false"]
  | .notDeclarations found => "Unexpected `declarations` value `" ++ found.toText ++ "`"
  | .notDeclaration found => "Unexpected declaration `" ++ found.toText ++ "`"
  | .reservedDeclaration property => "Invalid declaration prop: `" ++ property ++ "`"
  | .notFontFile path => "Unexpected file `" ++ path ++ "`"

/-- How an error is told. -/
def Error.message : Error → String
  | .arguments fault => fault.message
  | .notFetched family => "Failed to fetch `" ++ family ++ "` from Google Fonts."
  | .fetchFailed reason => reason
  | .notRead path reason => "Failed to read font file " ++ path ++ ": " ++ reason
  | .unexpectedFontFile url => "Unexpected font file `" ++ url ++ "`"
  | .noFontFace => "Font loaders must return one or more @font-face's"
  | .badStylesheet path => "Failed to parse CSS from " ++ path

end FontHosting.Loader
