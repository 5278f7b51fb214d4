import FontHosting.Google.Axes
import FontHosting.Google.Stylesheet
import FontHosting.Loader.Call

/-!
# Fonts from the net

The stylesheet of a family and the font files in it are downloaded, and every URL in
the stylesheet is replaced by that of the copy.  A site in development goes on with
the stand-in if the download fails.
-/

namespace FontHosting.Google

open Loader (Call Run Output)

/-- Download a font file and emit it; the answer is the URL of the copy. -/
def hostFile (call : Call) (options : Options) (sizeAdjusted : Bool) (file : FontFile) :
    Run (FontFile × String) := do
  match ← Loader.fetchFont call file.url with
  | none => throw (.notFetched options.family)
  | some content =>
      match Asset.fontExtension? file.url.toList with
      | none => throw (.unexpectedFontFile file.url)
      | some extension =>
          let hosted ← Loader.emit call content extension file.preload sizeAdjusted
          return (file, hosted)

/-- A stylesheet with the URL of every file replaced by that of its copy, one after the
other. -/
def replaceUrls (css : List Char) (hosted : List (FontFile × String)) : List Char :=
  hosted.foldl (fun css (file, url) => Text.replaceAll file.url.toList url.toList css) css

/-- Download a stylesheet and its font files. -/
def selfHost (call : Call) (options : Options) (url : String) (sizeAdjusted : Bool) :
    Run String := do
  match ← Loader.fetchStylesheet call url options.family with
  | none => throw (.notFetched options.family)
  | some stylesheet =>
      let rules := fontRules stylesheet.toList
      let files := fontFiles rules (if options.preload then some options.subsets else none)
      let hosted ← files.mapM (hostFile call options sizeAdjusted)
      return String.ofList (replaceUrls rules hosted)

/-- The only weight, if it is a single one. -/
def onlyWeight? : List String → Option String
  | [weight] => if weight = variableWeight then none else some weight
  | _ => none

/-- The only style. -/
def onlyStyle? : List String → Option String
  | [style] => some style
  | _ => none

/-- How the loss of a font is reported. -/
def lossMessage (family : String) (error : Loader.Error) : String :=
  "Failed to download `" ++ family ++
    "` from Google Fonts. Using fallback font instead.\n\n" ++ error.message

/-- Run `first`; if it fails and the site is being developed, take the stand-in. -/
def orFallback (call : Call) (options : Options) (fallback : Option Loader.Fallback)
    (first : Run String) : Run String :=
  tryCatch first fun error =>
    if call.isDev then do
      if call.isServer then Loader.report (lossMessage options.family error)
      return Loader.fallbackFace options.family fallback
    else throw error

/-- The loader of font families. -/
def loader (catalog : Catalog) : Loader.FontLoader := fun call => do
  let options ← Loader.accept (Options.check call.function call.options? catalog)
  let axes ← Loader.accept (options.wantedAxes catalog)
  let url := stylesheetUrl options.family axes options.display
  let fallback :=
    if options.adjustsFallback then call.world.familyFallback options.family else none
  let css ← orFallback call options fallback (selfHost call options url fallback.isSome)
  return {
    css
    fallbackFonts := options.fallback.getD []
    weight := onlyWeight? options.weights
    style := onlyStyle? options.styles
    variableName := options.variableName
    fallback }

end FontHosting.Google
