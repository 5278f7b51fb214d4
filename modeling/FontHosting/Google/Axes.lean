import FontHosting.Decimal.Reading
import FontHosting.Google.Options
import FontHosting.Text.Blank

/-!
# URLs of stylesheets

A stylesheet is asked for by a URL that lists the variants of a family.  Every
variant gives a value to each of the axes named before: `ital`, whether it is
slanted, `wght`, its weight, and what other axes the family has.  The variants are
listed in ascending order.
-/

namespace FontHosting.Google

open Loader (Checked ArgumentFault)

/-- The values of the axes that a call asks for. -/
structure Axes where
  weights : Option (List String)
  /-- `0` for upright and `1` for slanted. -/
  slants : Option (List String)
  /-- Further axes with their ranges. -/
  further : Option (List (String × String))
  deriving DecidableEq, Repr

/-- The range of weights of a family whose axes are not known. -/
def wholeWeightRange : String := "100..900"

/-- The slants that a list of styles asks for. -/
def slantsOf (styles : List String) : Option (List String) :=
  if styles.contains "italic" then
    some ((if styles.contains "normal" then ["0"] else []) ++ ["1"])
  else none

/-- The selected axes are axes of the family other than the weight. -/
def checkSelected (family : String) (axes : List Axis) : Option (List String) → Checked Unit
  | none => .ok ()
  | some selected =>
      let available := (axes.map Axis.tag).filter (· != "wght")
      if available.isEmpty then .error (.noAxes family)
      else allAvailable available selected fun value available =>
        .unknownAxis value family available

/-- The range of weights of a variable font, if its weight varies. -/
def weightRange? (axes : List Axis) : Option String :=
  if axes.isEmpty then some wholeWeightRange
  else ((axes.filter fun axis => axis.tag == "wght").getLast?).map Axis.range

/-- The selected axes with their ranges. -/
def selectedRanges (axes : List Axis) (selected : Option (List String)) :
    List (String × String) :=
  (axes.filter fun axis => axis.tag != "wght" && (selected.getD []).contains axis.tag).map
    fun axis => (axis.tag, axis.range)

/-- The values of the axes that a checked call asks for. -/
def Options.wantedAxes (options : Options) (catalog : Catalog) : Checked Axes := do
  let slants := slantsOf options.styles
  if options.weights.head? != some variableWeight then
    return ⟨some options.weights, slants, none⟩
  else
    let axes := ((catalog.get? options.family).map Family.axes).getD []
    checkSelected options.family axes options.axes
    let further := selectedRanges axes options.axes
    return ⟨(weightRange? axes).map (fun range => [range]), slants,
      if further.isEmpty then none else some further⟩

/-! ## Order -/

/-- Put an item behind those that it does not come before, from the end of the list on. -/
def insertFromEnd {α : Type} (before : α → α → Bool) (item : α) : List α → List α
  | [] => [item]
  | last :: rest => if before item last then last :: insertFromEnd before item rest
      else item :: last :: rest

/-- A list in order; items of which none comes before the other keep their order. -/
def sortBy {α : Type} (before : α → α → Bool) (items : List α) : List α :=
  (items.foldl (fun sorted item => insertFromEnd before item sorted) []).reverse

/-- Whether a text starts with a lower-case letter. -/
def startsLower (tag : String) : Bool :=
  tag.toList.head?.any Char.isLower

/-- Whether a tag comes before another: lower-case ones come first. -/
def tagBefore (a b : String) : Bool :=
  match startsLower a, startsLower b with
  | true, false => true
  | false, true => false
  | _, _ => a < b

/-- The whole number that a value starts with, zero if there is none or if it is too large. -/
def leadingInt (value : List Char) : Int :=
  let text := Text.trim value
  let digits := match text with
    | '-' :: rest => '-' :: rest.takeWhile Char.isDigit
    | _ => text.takeWhile Char.isDigit
  (Decimal.readInt64? digits).getD 0

/-- How two values of a list of variants compare: by their first numbers, or, if both have a
comma and the same text before it, by the numbers behind it. -/
def compareValues (a b : String) : Ordering :=
  match Text.splitOnce? [','] a.toList, Text.splitOnce? [','] b.toList with
  | some (aFirst, aRest), some (bFirst, bRest) =>
      if aFirst = bFirst then compare (leadingInt aRest) (leadingInt bRest)
      else compare (leadingInt aFirst) (leadingInt bFirst)
  | _, _ => compare (leadingInt a.toList) (leadingInt b.toList)

/-- Whether a value comes before another. -/
def valueBefore (a b : String) : Bool := compareValues a b == .lt

/-- Values in ascending order. -/
def sortValues (values : List String) : List String := sortBy valueBefore values

/-! ## URLs -/

/-- A variant: axes with their values. -/
abbrev Variant := List (String × String)

/-- The variants that are asked for. -/
def Axes.variants (axes : Axes) : List Variant :=
  let further := axes.further.getD []
  match axes.weights with
  | some weights =>
      weights.flatMap fun weight =>
        match axes.slants with
        | none => [("wght", weight) :: further]
        | some slants => slants.map fun slant => ("ital", slant) :: ("wght", weight) :: further
  | none => if further.isEmpty then [] else [further]

/-- A variant with its axes in the order of a URL. -/
def orderTags (variant : Variant) : Variant :=
  sortBy (fun a b => tagBefore a.1 b.1) variant

/-- The variants as a URL gives them. -/
def renderVariants (variants : List Variant) : String :=
  match variants with
  | [] => ""
  | first :: _ =>
      let values := variants.map fun variant => ",".intercalate (variant.map Prod.snd)
      ":" ++ ",".intercalate (first.map Prod.fst) ++ "@" ++ ";".intercalate (sortValues values)

/-- The URL of the stylesheet of a family. -/
def stylesheetUrl (family : String) (axes : Axes) (display : String) : String :=
  let variants := if axes.further.isSome then axes.variants.map orderTags else axes.variants
  "https://fonts.googleapis.com/css2?family=" ++
    String.ofList (Text.replaceChar ' ' '+' family.toList) ++
    renderVariants variants ++ "&display=" ++ display

end FontHosting.Google
