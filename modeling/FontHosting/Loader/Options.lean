import FontHosting.Loader.Error

/-!
# Options of font calls

The first argument of a font call is an object of options.  An option that is
`null` is not given.  A number may stand for a text; its digits are the text.
-/

namespace FontHosting.Loader

/-- The result of reading an option. -/
abbrev Checked (α : Type) := Except ArgumentFault α

/-- An option that is given. -/
def given? (options : Json.Fields) (key : String) : Option Json.Value :=
  match options.get? key with
  | none | some .null => none
  | some value => some value

/-- The text of a string or a number. -/
def asText? : Json.Value → Option String
  | .text value => some value
  | .number value => some (String.ofList value.render)
  | _ => none

/-- A text. -/
def textOption (options : Json.Fields) (key : String) : Checked (Option String) :=
  match given? options key with
  | none => .ok none
  | some value =>
      match asText? value with
      | some text => .ok (some text)
      | none => .error (.notText key value)

/-- The texts of a list. -/
def textItems (key : String) : List Json.Value → Checked (List String)
  | [] => .ok []
  | item :: rest =>
      match asText? item with
      | some text => do return text :: (← textItems key rest)
      | none => .error (.notTextItem key item)

/-- A list of texts; one that stands alone is a list of one. -/
def textsOption (options : Json.Fields) (key : String) : Checked (Option (List String)) :=
  match given? options key with
  | none => .ok none
  | some (.list items) => do return some (← textItems key items)
  | some value =>
      match asText? value with
      | some text => .ok (some [text])
      | none => .error (.notTexts key value)

/-- A truth value. -/
def booleanOption (options : Json.Fields) (key : String) : Checked (Option Bool) :=
  match given? options key with
  | none => .ok none
  | some (.boolean value) => .ok (some value)
  | some value => .error (.notBoolean key value)

/-- How a page may be shown until a font is there. -/
def displayValues : List String := ["auto", "block", "swap", "fallback", "optional"]

/-- How the page is shown until the font is there, `swap` if that is not said. -/
def displayOption (options : Json.Fields) : Checked String := do
  let display := (← textOption options "display").getD "swap"
  if displayValues.contains display then return display
  else throw (.unknownDisplay display displayValues)

/-- The custom property that the font family is to be given to. -/
def variableOption (options : Json.Fields) : Checked (Option String) := do
  match ← textOption options "variable" with
  | none => return none
  | some variableName =>
      if "--".toList.isPrefixOf variableName.toList then return some variableName
      else throw (.notCustomProperty variableName)

end FontHosting.Loader
