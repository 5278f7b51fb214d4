/-!
# JSON values

Objects keep their fields in the order in which the keys were first written.  A
number is whole or a binary fraction; whole numbers keep all of their digits.
-/

namespace FontHosting.Json

/-- A number of a document. -/
inductive Number where
  | whole (value : Int)
  | real (value : Float)
  deriving Repr

/-- A document. -/
inductive Value where
  | null
  | boolean (value : Bool)
  | number (value : Number)
  | text (value : String)
  | list (items : List Value)
  | object (fields : List (String × Value))
  deriving Repr, Inhabited

/-- The fields of an object, in order. -/
abbrev Fields := List (String × Value)

/-- The value of a key. -/
def Fields.get? (fields : Fields) (key : String) : Option Value :=
  List.lookup key fields

/-- Give a key a value.  A key that is there keeps its place. -/
def Fields.insert (fields : Fields) (key : String) (value : Value) : Fields :=
  match fields with
  | [] => [(key, value)]
  | (other, old) :: rest =>
      if other = key then (key, value) :: rest
      else (other, old) :: Fields.insert rest key value

/-- The fields that are written one after the other, a repeated key counting once. -/
def Fields.ofList (written : List (String × Value)) : Fields :=
  written.foldl (fun fields field => fields.insert field.1 field.2) []

theorem Fields.get?_cons (name key : String) (value : Value) (rest : Fields) :
    Fields.get? ((name, value) :: rest) key =
      if key = name then some value else Fields.get? rest key := by
  by_cases h : key = name
  · simp [get?, h]
  · have hne : (key == name) = false := by simpa using h
    simp [get?, List.lookup_cons, h, hne]

theorem Fields.get?_insert (fields : Fields) (key other : String) (value : Value) :
    (fields.insert key value).get? other =
      if other = key then some value else fields.get? other := by
  induction fields with
  | nil => simp [insert, get?_cons]
  | cons field rest ih =>
      obtain ⟨name, old⟩ := field
      by_cases hname : name = key
      · subst hname
        by_cases h : other = name <;> simp [insert, get?_cons, h]
      · by_cases h : other = name
        · subst h
          simp [insert, get?_cons, hname]
        · simp [insert, get?_cons, hname, h, ih]

end FontHosting.Json
