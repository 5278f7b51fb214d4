import FontHosting.Decimal.Reading
import FontHosting.Loader.Call
import FontHosting.LocalFont.Options
import FontHosting.Text.Blank

/-!
# Fonts from files

Every file of a call becomes a rule of its own.  The family of the rules is the
constant that the font is assigned to, unless the author declares another one.
-/

namespace FontHosting.LocalFont

open Loader (Call Run Output Category)

/-- The category that a stand-in belongs to. -/
def StandIn.category? : StandIn → Option Category
  | .arial => some .sansSerif
  | .timesNewRoman => some .serif
  | .disabled => none

/-! ## Rules -/

/-- A rule with its declarations, one a line. -/
def renderFace (declarations : List Declaration) : String :=
  let lines := declarations.map fun declaration =>
    declaration.property ++ ": " ++ declaration.value ++ ";"
  "@font-face \x7b\n" ++ "\n".intercalate lines ++ "\n\x7d\n"

/-- Whether the author declares a family. -/
def Options.namesFamily (options : Options) : Bool :=
  options.declarations.any fun declaration => declaration.property == "font-family"

/-- A declaration, if there is a value for it. -/
def declared (property : String) (value : Option String) : List Declaration :=
  value.toList.map fun value => ⟨property, value⟩

/-- The declarations of a file that is served at a URL. -/
def faceDeclarations (options : Options) (family url : String) (source : Source) :
    List Declaration :=
  options.declarations ++
    (if options.namesFamily then [] else [⟨"font-family", family⟩]) ++
    [⟨"src", "url(" ++ url ++ ") format('" ++ source.format ++ "')"⟩,
      ⟨"font-display", options.display⟩] ++
    declared "font-weight" (source.weight.or options.weight) ++
    declared "font-style" (source.style.or options.style)

/-! ## The file that stands for the family -/

/-- How far a weight, or a range of weights, is from the normal weight. -/
def weightDistance (weight : Option String) : Float :=
  match weight with
  | none => 0.0
  | some weight =>
      match (Text.words weight.toList).filterMap Decimal.readFloat? with
      | [single] => (single - 400.0).abs
      | [low, high] =>
          if low ≤ 400.0 && 400.0 ≤ high then 0.0
          else smaller (low - 400.0).abs (high - 400.0).abs
      | _ => 0.0
where
  /-- The smaller of two numbers; what is no number does not count. -/
  smaller (a b : Float) : Float :=
    if a.isNaN then b else if b.isNaN then a else if b < a then b else a

/-- How well a file stands for the family: upright ones first, then by the weight. -/
structure Rank where
  slanted : Bool
  distance : Float

/-- The rank of a file. -/
def rankOf (options : Options) (source : Source) : Rank :=
  ⟨source.style.or options.style == some "italic",
    weightDistance (source.weight.or options.weight)⟩

/-- Whether a rank is better than another. -/
def Rank.better (a b : Rank) : Bool :=
  (!a.slanted && b.slanted) || (a.slanted == b.slanted && a.distance < b.distance)

/-- The largest finite number. -/
def largestFloat : Float := Float.ofScientific 17976931348623157 false 292

/-- The index of the file that stands best for the family; of equals the first one. -/
def bestIndex (options : Options) : Nat :=
  let ranked := options.sources.zipIdx.map fun (source, index) => (rankOf options source, index)
  let best := ranked.foldl
    (fun best candidate => if candidate.1.better best.1 then candidate else best)
    ((⟨true, largestFloat⟩, 0) : Rank × Nat)
  best.2

/-! ## The loader -/

/-- Read a file and emit it; the answer is its rule and its content. -/
def hostSource (call : Call) (options : Options) (source : Source) :
    Run (String × Asset.Bytes) := do
  let path ← Loader.resolve call source.path
  let content ← Loader.readFile call path
  let url ← Loader.emit call content source.extension options.preload
    (options.standIn != .disabled)
  return (renderFace (faceDeclarations options call.variableName url source), content)

/-- The stand-in, adjusted to the file that stands for the family. -/
def fallbackOf (call : Call) (options : Options) (contents : List Asset.Bytes) :
    Option Loader.Fallback := do
  let category ← options.standIn.category?
  let content ← contents[bestIndex options]?
  call.world.fileFallback content category

/-- The only file, if there is only one. -/
def Options.onlySource? (options : Options) : Option Source :=
  match options.sources with
  | [source] => some source
  | _ => none

/-- The loader of font files. -/
def loader : Loader.FontLoader := fun call => do
  let options ← Loader.accept (Options.check call.function call.options?)
  let hosted ← options.sources.mapM (hostSource call options)
  let only := options.onlySource?
  return {
    css := "\n".intercalate (hosted.map Prod.fst)
    fallbackFonts := options.fallback.getD []
    weight := only.bind Source.weight
    style := only.bind Source.style
    variableName := options.variableName
    fallback := fallbackOf call options (hosted.map Prod.snd) }

end FontHosting.LocalFont
