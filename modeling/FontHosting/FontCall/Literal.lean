import FontHosting.FontCall.Fault
import FontHosting.Json.Value
import FontHosting.Script.Node
import FontHosting.Decimal.Binary

/-!
# Literals as JSON

The arguments of a font call must be known without running the script, so they
are literals: strings, numbers, booleans, `null`, and arrays and objects of these.
Anything else is a fault, told of the first place where it stands.
-/

namespace FontHosting.FontCall

open Script (Node)

/-- The magnitudes below which a whole number is written without a fraction. -/
def wholeLimit : Nat := 0x8000000000000000

/-- A number as JSON.  A whole number that is not too large is a whole number there too,
and what is infinite has no number. -/
def numberValue (value : Float) : Json.Value :=
  match Decimal.floatKind value with
  | .notANumber | .infinite _ => .null
  | .finite binary =>
      match binary.whole? with
      | some whole =>
          if whole.natAbs < wholeLimit then .number (.whole whole) else .number (.real value)
      | none => .number (.real value)

mutual

/-- The value of a literal. -/
def literal : Node → Except Fault Json.Value
  | .text value _ => .ok (.text value)
  | .number value _ => .ok (numberValue value)
  | .boolean value _ => .ok (.boolean value)
  | .null _ => .ok .null
  | .parenthesized inner _ => literal inner
  | .object properties _ => do return .object (Json.Fields.ofList (← literalFields properties))
  | .array items _ => do return .list (← literalItems items)
  | node => .error ⟨.notLiteral, node.start⟩

/-- The items of an array. -/
def literalItems : List Node → Except Fault (List Json.Value)
  | [] => .ok []
  | .spread _ span :: _ => .error ⟨.spread, span.start⟩
  | .hole span :: _ => .error ⟨.hole, span.start⟩
  | item :: rest => do
      let value ← literal item
      return value :: (← literalItems rest)

/-- The properties of an object, as they are written. -/
def literalFields : List Node → Except Fault (List (String × Json.Value))
  | [] => .ok []
  | .property .plain false (.word name _) value _ :: rest => do
      let value ← literal value
      return (name, value) :: (← literalFields rest)
  | .property .plain _ key _ _ :: _ => .error ⟨.keyForm, key.start⟩
  | .property _ _ _ _ span :: _ => .error ⟨.propertyForm, span.start⟩
  | node :: _ => .error ⟨.spread, node.start⟩

end

end FontHosting.FontCall
