import FontHosting.Decimal.Shortest
import FontHosting.Json.Value
import FontHosting.Table
import FontHosting.Text.Escaped
import FontHosting.Toml.Value

/-!
# Settings

A setting is a value with the source it was read from.  Sources are laid over each
other: `merge` keeps what the later source does not mention, also inside tables, and
takes everything else from the later one.
-/

namespace FontHosting.Config

/-- Where a setting was read. -/
inductive Source where
  | defaults
  | toml
  | json
  | environment
  deriving DecidableEq, Repr

/-- A value without parts. -/
inductive Scalar where
  | unit
  | boolean (value : Bool)
  | unsigned (value : Nat)
  | signed (value : Int)
  | real (value : Float)
  | character (value : Char)
  | text (value : String)

/-- A value with its sources.  The entries of a table are in the order of their keys. -/
inductive Setting where
  | scalar (source : Source) (value : Scalar)
  | list (source : Source) (items : List Setting)
  | table (source : Source) (entries : List (String × Setting))

namespace Setting

/-- The source of a setting; that of a table is the last one that mentions it. -/
def source : Setting → Source
  | .scalar source _ | .list source _ | .table source _ => source

/-- A text. -/
def text (source : Source) (value : String) : Setting := .scalar source (.text value)

/-! ## Laying sources over each other -/

mutual

/-- A setting with a later one laid over it. -/
def merge (earlier : Setting) : Setting → Setting
  | .table source later =>
      match earlier with
      | .table _ entries => .table source (mergeEntries entries later)
      | _ => .table source later
  | .scalar source value => .scalar source value
  | .list source items => .list source items

/-- Entries with later ones laid over them. -/
def mergeEntries (entries : List (String × Setting)) :
    List (String × Setting) → List (String × Setting)
  | [] => entries
  | (key, setting) :: rest =>
      let value := match Table.find? key entries with
        | some earlier => earlier.merge setting
        | none => setting
      mergeEntries (Table.insertInto key value entries) rest

end

/-! ## Reading documents -/

/-- Entries in the order of their keys, a later one winning over an earlier one. -/
def sorted (entries : List (String × Setting)) : List (String × Setting) :=
  entries.foldl (fun entries entry => Table.insertInto entry.1 entry.2 entries) []

mutual

/-- A value of a JSON document. -/
def ofJson : Json.Value → Setting
  | .null => .scalar .json .unit
  | .boolean value => .scalar .json (.boolean value)
  | .number (.whole value) =>
      .scalar .json (if value < 0 then .signed value else .unsigned value.toNat)
  | .number (.real value) => .scalar .json (.real value)
  | .text value => .text .json value
  | .list items => .list .json (ofJsonItems items)
  | .object fields => .table .json (sorted (ofJsonFields fields))

/-- The items of a list. -/
def ofJsonItems : List Json.Value → List Setting
  | [] => []
  | item :: rest => ofJson item :: ofJsonItems rest

/-- The fields of an object. -/
def ofJsonFields : List (String × Json.Value) → List (String × Setting)
  | [] => []
  | (key, value) :: rest => (key, ofJson value) :: ofJsonFields rest

end

mutual

/-- A value of a TOML document.  A date is a table to its readers, under a key of its own. -/
def ofToml : Toml.Value → Setting
  | .text value => .text .toml value
  | .whole value => .scalar .toml (.signed value)
  | .real value => .scalar .toml (.real value)
  | .boolean value => .scalar .toml (.boolean value)
  | .moment written => .table .toml [("$__toml_private_datetime", .text .toml written)]
  | .list items => .list .toml (ofTomlItems items)
  | .table entries => .table .toml (sorted (ofTomlEntries entries))

/-- The items of a list. -/
def ofTomlItems : List Toml.Value → List Setting
  | [] => []
  | item :: rest => ofToml item :: ofTomlItems rest

/-- The entries of a table. -/
def ofTomlEntries : List (String × Toml.Value) → List (String × Setting)
  | [] => []
  | (key, value) :: rest => (key, ofToml value) :: ofTomlEntries rest

end

/-! ## Telling what was found -/

/-- A text between backticks. -/
def ticked (text : String) : String := "\x60" ++ text ++ "\x60"

/-- What a message calls a value without parts. -/
def describeScalar : Scalar → String
  | .unit => "unit"
  | .boolean value => "bool " ++ (if value then "true" else "false")
  | .unsigned value => "unsigned int " ++ ticked (toString value)
  | .signed value => "signed int " ++ ticked (toString value)
  | .real value => "float " ++ ticked (String.ofList (Decimal.plainText value))
  | .character value => "char '" ++ String.ofList (Text.Escaped.escapeChar value) ++ "'"
  | .text value => "string " ++ String.ofList (Text.Escaped.quote value.toList)

/-- What a message calls a setting. -/
def describe : Setting → String
  | .scalar _ value => describeScalar value
  | .list .. => "sequence"
  | .table .. => "map"

end Setting

end FontHosting.Config
