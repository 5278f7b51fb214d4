import FontHosting.Css.Families
import FontHosting.Css.Minify
import FontHosting.Decimal.Reading
import FontHosting.Digest.Sha256
import FontHosting.Loader.Call

/-!
# Stylesheets as modules

The rules of a loader become a module that a script can import.  The family gets a
name that depends on the rules, a rule for the stand-in is added, and so are two
classes: one that applies the font, and one that gives its families to a custom
property.  The module exports the names of the classes, and the families for use
without a class.
-/

namespace FontHosting.Stylesheet

/-- The properties of a font for use without a class. -/
structure InlineStyle where
  fontFamily : String
  fontWeight : Option Json.Number
  fontStyle : Option String

/-- A stylesheet with the names that it exports. -/
structure Module where
  code : String
  /-- The names of the classes under the names that they are exported with. -/
  classNames : Table String
  style : InlineStyle

/-- The number of digits of a hash that make a name unique. -/
def scopeLength : Nat := 6

/-- What tells the names of a stylesheet from those of others. -/
def scopeOf (css : String) : List Char :=
  (Digest.hexDigest (Text.Utf8.encode css.toList)).take scopeLength

/-- A family under a name of its own. -/
def scopedFamily (scope family : List Char) : List Char :=
  "'__".toList ++ Text.replaceChar ' ' '_' family ++ '_' :: scope ++ ['\'']

/-- A class under a name of its own. -/
def scopedClass (name : String) (scope : List Char) : String :=
  "__" ++ name ++ "_" ++ String.ofList scope

/-- Whether a value is a range such as `100 900`. -/
def isRange (value : String) : Bool :=
  (Text.trim value.toList).contains ' '

/-- The number that a weight is. -/
def weightNumber? (value : String) : Option Json.Number :=
  let text := Text.trim value.toList
  match Decimal.readInt64? text with
  | some whole => some (.whole whole)
  | none => do
      let real ← Decimal.readFloat? text
      if real.isNaN || real.isInf then none else return .real real

/-- A rule with its declarations, one a line. -/
def renderRule (selector : String) (declarations : List (String × String)) : String :=
  "\n" ++ selector ++ " \x7b\n" ++
    String.join (declarations.map fun (property, value) =>
      "  " ++ property ++ ": " ++ value ++ ";\n") ++ "\x7d\n"

/-- A property, if there is a value for it. -/
def declared (property : String) (value : Option String) : List (String × String) :=
  value.toList.map fun value => (property, value)

/-- The rule of a stand-in. -/
def fallbackRule (family : List Char) (fallback : Loader.Fallback) : String :=
  renderRule "@font-face"
    ([("font-family", String.ofList family), ("src", "local(\"" ++ fallback.font ++ "\")")] ++
      declared "ascent-override" fallback.ascent ++
      declared "descent-override" fallback.descent ++
      declared "line-gap-override" fallback.lineGap ++
      declared "size-adjust" fallback.sizeAdjust)

/-- The families of a font: its own, its stand-in, and those the author names. -/
def familyList (own : List Char) (standIn : Option (List Char)) (others : List String) : String :=
  ", ".intercalate (String.ofList own :: standIn.toList.map String.ofList ++ others)

/-- A value that is not a range. -/
def single (value : Option String) : Option String :=
  value.filter fun value => !isRange value

/-- The class that applies a font. -/
def classRule (className families : String) (output : Loader.Output) : String :=
  renderRule ("." ++ className)
    (("font-family", families) :: declared "font-weight" (single output.weight) ++
      declared "font-style" (single output.style))

/-- The class that gives the families to a custom property, with its name. -/
def variableRule (scope : List Char) (families property : String) : String × String :=
  let name := scopedClass "variable" scope
  (name, renderRule ("." ++ name) [(property, families)])

/-- The module of a font call in the module at `path`. -/
def Module.generate (minify : Bool) (path : String) (output : Loader.Output) :
    Except Loader.Error Module :=
  let scope := scopeOf output.css
  match Css.renameFamilies (scopedFamily scope) output.css.toList with
  | none => .error .noFontFace
  | some (rules, family) =>
      let standIn := output.fallback.map fun fallback =>
        (scopedFamily scope (family ++ " Fallback".toList), fallback)
      let families := familyList (scopedFamily scope family) (standIn.map Prod.fst)
        output.fallbackFonts
      let className := scopedClass "className" scope
      let variableClass := output.variableName.map (variableRule scope families)
      let code := String.ofList rules ++
        (standIn.map fun (family, fallback) => fallbackRule family fallback).getD "" ++
        classRule className families output ++ (variableClass.map Prod.snd).getD ""
      let names := Table.ofList
        (("className", className) :: variableClass.toList.map fun (name, _) => ("variable", name))
      let style : InlineStyle :=
        ⟨families, output.weight.bind weightNumber?, single output.style⟩
      if minify then
        match Css.minify code.toList with
        | some brief => .ok ⟨String.ofList brief, names, style⟩
        | none => .error (.badStylesheet path)
      else .ok ⟨code, names, style⟩

/-! ## As a script -/

/-- The properties of a font as a document. -/
def InlineStyle.toJson (style : InlineStyle) : Json.Value :=
  let weight := style.fontWeight.toList.map fun weight => ("fontWeight", Json.Value.number weight)
  let slant := style.fontStyle.toList.map fun slant => ("fontStyle", Json.Value.text slant)
  .object (("fontFamily", .text style.fontFamily) :: weight ++ slant)

/-- The script that exports the names of the classes and the properties of the font. -/
def Module.toScript (module : Module) : String :=
  let names := module.classNames.entries.map fun (name, className) =>
    "export const " ++ name ++ " = " ++ Json.quoteString className ++ ";\n"
  let exported := module.classNames.keys ++ ["style"]
  String.join names ++ "export const style = " ++ module.style.toJson.toText ++ ";\n" ++
    "export default \x7b " ++ ", ".intercalate exported ++ " \x7d;\n"

end FontHosting.Stylesheet
