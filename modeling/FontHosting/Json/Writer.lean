import FontHosting.Json.Value
import FontHosting.Decimal.Shortest
import FontHosting.Text.Hex

/-!
# Writing JSON

`Value.render` writes without any blank between the tokens, `Value.renderPretty`
with one item per line.  In a string only the quote, the backslash and the
characters below U+0020 are escaped.
-/

namespace FontHosting.Json

/-- One character inside a string. -/
def escapeChar (c : Char) : List Char :=
  if c = '"' then ['\\', '"']
  else if c = '\\' then ['\\', '\\']
  else if c = '\x08' then ['\\', 'b']
  else if c = '\x0c' then ['\\', 'f']
  else if c = '\n' then ['\\', 'n']
  else if c = '\r' then ['\\', 'r']
  else if c = '\t' then ['\\', 't']
  else if c.toNat < 0x20 then
    ['\\', 'u', '0', '0', Text.Hex.lowerDigit (c.toNat / 16), Text.Hex.lowerDigit (c.toNat % 16)]
  else [c]

/-- A string in quotes. -/
def quote (text : List Char) : List Char :=
  '"' :: text.flatMap escapeChar ++ ['"']

/-- A string in quotes. -/
def quoteString (text : String) : String :=
  String.ofList (quote text.toList)

/-- A binary fraction: plain digits with at least one after the point from `1e-5` up
to below `1e16`, scientific notation outside, and `null` for what is no number. -/
def renderReal (value : Float) : List Char :=
  match Decimal.floatKind value with
  | .notANumber | .infinite _ => "null".toList
  | .finite binary =>
      let shortest := binary.shortest
      let magnitude := shortest.magnitude
      let digits :=
        if shortest.digits = 0 ∨ (-5 ≤ magnitude ∧ magnitude < 16) then shortest.positional 1
        else shortest.exponential
      Decimal.signed binary.negative digits

/-- A whole number. -/
def renderWhole (value : Int) : List Char :=
  Decimal.signed (value < 0) (Nat.toDigits 10 value.natAbs)

/-- A number. -/
def Number.render : Number → List Char
  | .whole value => renderWhole value
  | .real value => renderReal value

mutual

/-- A document without blanks. -/
def Value.render : Value → List Char
  | .null => "null".toList
  | .boolean true => "true".toList
  | .boolean false => "false".toList
  | .number value => value.render
  | .text value => quote value.toList
  | .list items => '[' :: renderItems items ++ [']']
  | .object fields => '{' :: renderFields fields ++ ['}']

/-- Items with commas between them. -/
def renderItems : List Value → List Char
  | [] => []
  | [item] => item.render
  | item :: rest => item.render ++ ',' :: renderItems rest

/-- Fields with commas between them. -/
def renderFields : List (String × Value) → List Char
  | [] => []
  | [(key, value)] => quote key.toList ++ ':' :: value.render
  | (key, value) :: rest => quote key.toList ++ ':' :: value.render ++ ',' :: renderFields rest

end

/-- A document without blanks, as a string. -/
def Value.toText (value : Value) : String :=
  String.ofList value.render

/-- The start of a line at a depth. -/
def newLine (depth : Nat) : List Char :=
  '\n' :: List.replicate (2 * depth) ' '

mutual

/-- A document with one item per line, two blanks per level. -/
def Value.renderPretty (depth : Nat) : Value → List Char
  | .list [] => ['[', ']']
  | .list items => '[' :: prettyItems (depth + 1) items ++ newLine depth ++ [']']
  | .object [] => ['{', '}']
  | .object fields => '{' :: prettyFields (depth + 1) fields ++ newLine depth ++ ['}']
  | .null => "null".toList
  | .boolean value => (if value then "true" else "false").toList
  | .number value => value.render
  | .text value => quote value.toList

/-- Items on lines of their own. -/
def prettyItems (depth : Nat) : List Value → List Char
  | [] => []
  | [item] => newLine depth ++ item.renderPretty depth
  | item :: rest => newLine depth ++ item.renderPretty depth ++ ',' :: prettyItems depth rest

/-- Fields on lines of their own. -/
def prettyFields (depth : Nat) : List (String × Value) → List Char
  | [] => []
  | [(key, value)] => newLine depth ++ quote key.toList ++ ':' :: ' ' :: value.renderPretty depth
  | (key, value) :: rest =>
      newLine depth ++ quote key.toList ++ ':' :: ' ' :: value.renderPretty depth ++
        ',' :: prettyFields depth rest

end

end FontHosting.Json
