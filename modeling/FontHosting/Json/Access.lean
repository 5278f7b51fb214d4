import FontHosting.Json.Value

/-!
# Parts of documents

Looking for a value of a certain kind in a document that may have another shape.
-/

namespace FontHosting.Json.Value

/-- Whether a value is `null`. -/
def isNull : Value → Bool
  | .null => true
  | _ => false

/-- A text. -/
def asText? : Value → Option String
  | .text value => some value
  | _ => none

/-- A truth value. -/
def asBoolean? : Value → Option Bool
  | .boolean value => some value
  | _ => none

/-- A whole number. -/
def asWhole? : Value → Option Int
  | .number (.whole value) => some value
  | _ => none

/-- The items of a list; none for anything else. -/
def items : Value → List Value
  | .list items => items
  | _ => []

/-- The fields of an object; none for anything else. -/
def fields : Value → Fields
  | .object fields => fields
  | _ => []

/-- The field of an object, if it is there. -/
def field? (value : Value) (key : String) : Option Value :=
  Fields.get? value.fields key

/-- The field of an object, `null` if it is missing. -/
def field (value : Value) (key : String) : Value :=
  (value.field? key).getD .null

/-- The texts in a list. -/
def texts (value : Value) : List String :=
  value.items.filterMap asText?

theorem field_object (written : Fields) (key : String) :
    (Value.object written).field key = (written.get? key).getD .null := rfl

end FontHosting.Json.Value
