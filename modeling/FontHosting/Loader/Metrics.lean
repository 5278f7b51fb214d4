import FontHosting.Decimal.Shortest

/-!
# Metrics of fallback fonts

Until a font is there, a font of the system stands in for it.  So that the page does
not move when the font arrives, the stand-in is stretched to the same size.
-/

namespace FontHosting.Loader

/-- The kind of font that stands in. -/
inductive Category where
  | sansSerif
  | serif
  deriving DecidableEq, Repr

/-- A font of the system. -/
structure SystemFont where
  name : String
  averageWidth : Float
  unitsPerEm : Float

/-- The font that stands in for a category. -/
def Category.systemFont : Category → SystemFont
  | .sansSerif => ⟨"Arial", 934.5116279069767, 2048.0⟩
  | .serif => ⟨"Times New Roman", 854.3953488372093, 2048.0⟩

/-- The measures of a font, in its own units. -/
structure Metrics where
  ascent : Float
  descent : Float
  lineGap : Float
  unitsPerEm : Float
  /-- The average width of a letter, if it is known. -/
  averageWidth : Option Float
  category : Category

/-- The font that stands in, and how it is stretched. -/
structure Fallback where
  font : String
  ascent : Option String
  descent : Option String
  lineGap : Option String
  sizeAdjust : Option String
  deriving DecidableEq, Repr

/-- A share in percent, without its sign, with two places. -/
def percentage (share : Float) : String :=
  String.ofList (Decimal.fixedText 2 (share * 100.0).abs) ++ "%"

/-- How much larger the letters of a font are than those of its stand-in. -/
def Metrics.sizeAdjust (metrics : Metrics) : Float :=
  let standIn := metrics.category.systemFont
  match metrics.averageWidth with
  | some width =>
      if width > 0.0 then
        (width / metrics.unitsPerEm) / (standIn.averageWidth / standIn.unitsPerEm)
      else 1.0
  | none => 1.0

/-- The stand-in for a font of the given measures. -/
def Metrics.fallback (metrics : Metrics) : Fallback :=
  let scale := metrics.unitsPerEm * metrics.sizeAdjust
  { font := metrics.category.systemFont.name
    ascent := some (percentage (metrics.ascent / scale))
    descent := some (percentage (metrics.descent / scale))
    lineGap := some (percentage (metrics.lineGap / scale))
    sizeAdjust := some (percentage metrics.sizeAdjust) }

/-- The rule of a font that could not be downloaded: it points to the stand-in. -/
def fallbackFace (family : String) (fallback : Option Fallback) : String :=
  let standIn := (fallback.map Fallback.font).getD "Arial"
  let measures := match fallback with
    | none => ""
    | some fallback =>
        "\n  ascent-override:" ++ fallback.ascent.getD "" ++
        ";\n  descent-override:" ++ fallback.descent.getD "" ++
        ";\n  line-gap-override:" ++ fallback.lineGap.getD "" ++
        ";\n  size-adjust:" ++ fallback.sizeAdjust.getD "" ++ ";"
  "@font-face \x7b\n  font-family: '" ++ family ++ " Fallback';\n  src: local(\"" ++ standIn ++
    "\");" ++ measures ++ "\n\x7d"

end FontHosting.Loader
