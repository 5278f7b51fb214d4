import FontHosting.Config.Setting
import FontHosting.Text.Blank
import FontHosting.Text.LowerCase
import FontHosting.Toml.Quoted

/-!
# Variables of the environment

A variable whose name starts with `FOB_FONT_`, in any case, gives the setting that the
rest of its name tells.  Its value is a number or a truth value if it looks like one, a
list or a table in brackets, and otherwise a text.
-/

namespace FontHosting.Config.Variable

/-- How the names of the variables start. -/
def namePrefix : String := "FOB_FONT_"

/-! ## Names -/

/-- The partner of a character of lower case. -/
def upperOf (c : Char) : Char :=
  if c.toNat < 0x80 then c.toUpper
  else
    let covers := fun (row : Text.LowerCase.Row) =>
      let code : Int := c.toNat - row.shift
      row.first ≤ code && code ≤ row.last && (code - row.first) % row.step == 0
    match Text.LowerCase.rows.find? covers with
    | some row => Char.ofNat (c.toNat - row.shift).toNat
    | none => c

/-- The words of a name put together, the first in lower case and the others starting with a
capital. -/
def humped : Bool → List Char → List Char
  | _, [] => []
  | capital, c :: rest =>
      if c = '_' then humped true rest
      else if capital then upperOf c :: humped false rest
      else Text.LowerCase.ofChar c ++ humped false rest

/-- The path of the setting that a variable gives.  The letters of ASCII are in lower case, so a
field of several words has no variable. -/
def path? (name : String) : Option (List String) := do
  let start := name.toList.take namePrefix.length
  if start.map Char.toUpper = namePrefix.toList then
    let written := humped false (name.toList.drop namePrefix.length)
    let parts := Text.splitOn '.' (Text.trim (written.map Char.toLower))
    if parts.any List.isEmpty then none else some (parts.map String.ofList)
  else none

/-! ## Values -/

/-- Whether a character is a blank of ASCII. -/
def isGap (c : Char) : Bool :=
  c = ' ' || c = '\t' || c = '\n' || c = '\r' || c = '\x0c'

/-- A text without the blanks it starts with. -/
def skipGap (text : List Char) : List Char := text.dropWhile isGap

/-- Whether a character ends a value without quotes. -/
def isStop (c : Char) : Bool :=
  c = ',' || c = '\x7b' || c = '\x7d' || c = '[' || c = ']'

/-- Whether a whole number has 64 bits and no sign. -/
def fitsWord (value : Int) : Bool := 0 ≤ value && value < 0x10000000000000000

/-- A number, or else a text. -/
def ofWord (word : List Char) : Scalar :=
  match if word.contains '.' then Decimal.readFloat? word else none with
  | some value => .real value
  | none =>
      match Decimal.readInt? word with
      | none => .text (String.ofList word)
      | some value =>
          if fitsWord value && word.head? != some '-' then .unsigned value.toNat
          else if Decimal.fitsInt64 value then .signed value
          else .text (String.ofList word)

/-- A key of a table, up to its equals sign. -/
def readKey? (text : List Char) : Option (String × List Char) := do
  let (key, rest) ← (match skipGap text with
    | '"' :: rest => Toml.readShort? '"' rest
    | text =>
        let key := text.takeWhile fun c => c.isAlphanum || c = '_' || c = '-'
        if key.isEmpty then none else some (String.ofList key, text.drop key.length))
  match skipGap rest with
  | '=' :: rest => some (key, rest)
  | _ => none

mutual

/-- A value with blanks around it. -/
def readValue? : Nat → List Char → Option (Setting × List Char)
  | 0, _ => none
  | fuel + 1, text => do
      let (value, rest) ← (match skipGap text with
        | 't' :: 'r' :: 'u' :: 'e' :: rest => some (scalar (.boolean true), rest)
        | 'f' :: 'a' :: 'l' :: 's' :: 'e' :: rest => some (scalar (.boolean false), rest)
        | '\x7b' :: rest =>
            (readEntries? fuel [] rest).map fun (entries, rest) =>
              (.table .environment (Setting.sorted entries), rest)
        | '[' :: rest =>
            (readItems? fuel [] rest).map fun (items, rest) => (.list .environment items, rest)
        | '"' :: rest =>
            (Toml.readShort? '"' rest).map fun (value, rest) => (scalar (.text value), rest)
        | '\'' :: c :: '\'' :: rest => some (scalar (.character c), rest)
        | '\'' :: _ => none
        | text =>
            let word := text.takeWhile fun c => !isStop c
            some (scalar (ofWord (Text.trim word)), text.drop word.length))
      some (value, skipGap rest)
where
  /-- A value without parts. -/
  scalar (value : Scalar) : Setting := .scalar .environment value

/-- The items of a list up to its bracket, those before them in reverse. -/
def readItems? : Nat → List Setting → List Char → Option (List Setting × List Char)
  | 0, _, _ => none
  | fuel + 1, done, text =>
      match text with
      | ']' :: rest => some (done.reverse, rest)
      | _ => do
          let (item, rest) ← readValue? fuel text
          match rest with
          | ',' :: rest => readItems? fuel (item :: done) rest
          | ']' :: rest => some ((item :: done).reverse, rest)
          | _ => none

/-- The entries of a table up to its brace, those before them in reverse. -/
def readEntries? : Nat → List (String × Setting) → List Char →
    Option (List (String × Setting) × List Char)
  | 0, _, _ => none
  | fuel + 1, done, text =>
      match text with
      | '\x7d' :: rest => some (done.reverse, rest)
      | _ => do
          let (key, rest) ← readKey? text
          let (value, rest) ← readValue? fuel rest
          match rest with
          | ',' :: rest => readEntries? fuel ((key, value) :: done) rest
          | '\x7d' :: rest => some (((key, value) :: done).reverse, rest)
          | _ => none

end

/-- The setting that the value of a variable gives.  What cannot be read as a whole is a text. -/
def readValue (written : String) : Setting :=
  let trimmed := Text.trim written.toList
  match readValue? (2 * trimmed.length + 2) trimmed with
  | some (value, []) => value
  | _ => .text .environment (String.ofList trimmed)

/-! ## Variables -/

/-- A setting below the tables that a path names. -/
def nested (path : List String) (value : Setting) : Setting :=
  path.foldr (fun key inner => .table .environment [(key, inner)]) value

/-- The settings of all variables, a later one laid over an earlier one. -/
def settings (environment : List (String × String)) : Setting :=
  environment.foldl (fun merged (name, value) =>
    match path? name with
    | some path => merged.merge (nested path (readValue value))
    | none => merged) (.table .environment [])

end FontHosting.Config.Variable
