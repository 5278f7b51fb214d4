import FontHosting.Proofs.FontCall.Usage
import FontHosting.Proofs.Json.Document
import FontHosting.Stylesheet.Collection

/-!
# Arguments as JSON

The name of a stylesheet gives the arguments of its call as JSON.  They are read back as the
values they have (`readArguments?_of_argumentValues`) if their numbers are whole numbers below
`wholeLimit` and they are nested no deeper than the reader goes, where the list of the arguments
counts as one level.
-/

namespace FontHosting.Script

mutual

/-- How many lists and objects are inside each other in a literal. -/
def Node.nesting : Node → Nat
  | .parenthesized inner _ => inner.nesting
  | .array items _ => nestingIn items + 1
  | .object properties _ => nestingIn properties + 1
  | .property _ _ _ value _ => value.nesting
  | _ => 0

/-- How many lists and objects are inside each other in one of several literals. -/
def nestingIn : List Node → Nat
  | [] => 0
  | node :: rest => max node.nesting (nestingIn rest)

end

mutual

/-- The numbers in a literal. -/
def Node.numbers : Node → List Float
  | .number value _ => [value]
  | .parenthesized inner _ => inner.numbers
  | .array items _ => numbersIn items
  | .object properties _ => numbersIn properties
  | .property _ _ _ value _ => value.numbers
  | _ => []

/-- The numbers in several literals. -/
def numbersIn : List Node → List Float
  | [] => []
  | node :: rest => node.numbers ++ numbersIn rest

end

end FontHosting.Script

namespace FontHosting.FontCall

open Script (Node nestingIn numbersIn)

/-- Whether a number is a whole one below `wholeLimit`. -/
def IsWhole (value : Float) : Prop :=
  ∃ binary whole, Decimal.floatKind value = .finite binary ∧ binary.whole? = some whole ∧
    whole.natAbs < wholeLimit

theorem fits_numberValue {value : Float} (h : IsWhole value) (depth : Nat) :
    (numberValue value).FitsWithin depth := by
  obtain ⟨binary, whole, hkind, hwhole, hlimit⟩ := h
  simp only [numberValue, hkind, hwhole, hlimit, if_true]
  cases depth <;> exact hlimit

theorem literalItems_cons_ok {item : Node} {rest : List Node} {values : List Json.Value}
    (h : literalItems (item :: rest) = .ok values) :
    ∃ value others, literal item = .ok value ∧ literalItems rest = .ok others ∧
      values = value :: others := by
  unfold literalItems at h
  split at h
  · contradiction
  · cases h
  · cases h
  · rename_i heq
    cases heq
    obtain ⟨value, hvalue, h⟩ := bind_eq_ok h
    obtain ⟨others, hothers, h⟩ := bind_eq_ok h
    cases h
    exact ⟨value, others, hvalue, hothers, rfl⟩

theorem literalFields_cons_ok {property : Node} {rest : List Node}
    {fields : List (String × Json.Value)} (h : literalFields (property :: rest) = .ok fields) :
    ∃ kind computed name place node span value others,
      property = .property kind computed (.word name place) node span ∧
        literal node = .ok value ∧ literalFields rest = .ok others ∧
        fields = (name, value) :: others := by
  unfold literalFields at h
  split at h
  · contradiction
  · rename_i heq
    cases heq
    obtain ⟨value, hvalue, h⟩ := bind_eq_ok h
    obtain ⟨others, hothers, h⟩ := bind_eq_ok h
    cases h
    exact ⟨_, _, _, _, _, _, value, others, rfl, hvalue, hothers, rfl⟩
  all_goals cases h

mutual

/-- **The value of a literal fits** within the depth of the literal. -/
theorem fits_literal : ∀ (node : Node) {value : Json.Value} {depth : Nat},
    literal node = .ok value → (∀ number ∈ node.numbers, IsWhole number) →
      node.nesting ≤ depth → value.FitsWithin depth
  | .text .., _, depth, h, _, _ | .boolean .., _, depth, h, _, _ | .null .., _, depth, h, _, _ => by
      cases h
      cases depth <;> trivial
  | .number value span, _, depth, h, hwhole, _ => by
      cases h
      exact fits_numberValue (hwhole value List.mem_cons_self) depth
  | .parenthesized inner _, _, _, h, hwhole, hnesting => fits_literal inner h hwhole hnesting
  | .array items _, _, depth, h, hwhole, hnesting => by
      obtain ⟨values, hvalues, h⟩ := bind_eq_ok h
      cases h
      obtain ⟨depth, rfl⟩ := Nat.exists_eq_succ_of_ne_zero
        (Nat.ne_of_gt (Nat.lt_of_lt_of_le (Nat.succ_pos _) hnesting))
      exact fits_literalItems items hvalues hwhole (Nat.le_of_succ_le_succ hnesting)
  | .object properties _, _, depth, h, hwhole, hnesting => by
      obtain ⟨fields, hfields, h⟩ := bind_eq_ok h
      cases h
      obtain ⟨depth, rfl⟩ := Nat.exists_eq_succ_of_ne_zero
        (Nat.ne_of_gt (Nat.lt_of_lt_of_le (Nat.succ_pos _) hnesting))
      obtain ⟨hkeys, hwritten⟩ := Json.Fields.nodup_ofList fields
      refine ⟨hkeys, fun field hfield => ?_⟩
      exact fits_literalFields properties hfields hwhole (Nat.le_of_succ_le_succ hnesting) field
        (hwritten field hfield)

theorem fits_literalItems : ∀ (items : List Node) {values : List Json.Value} {depth : Nat},
    literalItems items = .ok values → (∀ number ∈ numbersIn items, IsWhole number) →
      nestingIn items ≤ depth → ∀ value ∈ values, value.FitsWithin depth
  | [], _, _, h, _, _ => by
      cases h
      exact nofun
  | item :: rest, values, depth, h, hwhole, hnesting => by
      obtain ⟨hitem, hrest⟩ := List.forall_mem_append.mp hwhole
      obtain ⟨hle, hle'⟩ := Nat.max_le.mp hnesting
      obtain ⟨value, others, hvalue, hothers, rfl⟩ := literalItems_cons_ok h
      exact List.forall_mem_cons.mpr
        ⟨fits_literal item hvalue hitem hle, fits_literalItems rest hothers hrest hle'⟩

theorem fits_literalFields : ∀ (properties : List Node) {fields : List (String × Json.Value)}
    {depth : Nat}, literalFields properties = .ok fields →
      (∀ number ∈ numbersIn properties, IsWhole number) → nestingIn properties ≤ depth →
      ∀ field ∈ fields, field.2.FitsWithin depth
  | [], _, _, h, _, _ => by
      cases h
      exact nofun
  | property :: rest, fields, depth, h, hwhole, hnesting => by
      obtain ⟨hproperty, hrest⟩ := List.forall_mem_append.mp hwhole
      obtain ⟨hle, hle'⟩ := Nat.max_le.mp hnesting
      obtain ⟨kind, computed, name, place, node, span, value, others, rfl, hvalue, hothers, rfl⟩ :=
        literalFields_cons_ok h
      exact List.forall_mem_cons.mpr
        ⟨fits_literal node hvalue hproperty hle, fits_literalFields rest hothers hrest hle'⟩

end

/-! ## The arguments of a call -/

/-- Whether all numbers in an argument are whole, and it is nested no deeper than the reader
goes: the list of the arguments is one more level. -/
def IsPlain (argument : Node) : Prop :=
  (∀ number ∈ argument.numbers, IsWhole number) ∧ argument.nesting ≤ 126

theorem fits_argumentValues {arguments : List Node} {values : List Json.Value}
    (h : argumentValues arguments = .ok values)
    (hplain : ∀ argument ∈ arguments, IsPlain argument) :
    ∀ value ∈ values, value.FitsWithin 126 := by
  induction arguments generalizing values with
  | nil =>
      cases h
      exact nofun
  | cons argument rest ih =>
      obtain ⟨⟨hwhole, hnesting⟩, hrest⟩ := List.forall_mem_cons.mp hplain
      unfold argumentValues at h
      split at h
      · contradiction
      · cases h
      · rename_i heq
        cases heq
        obtain ⟨value, hvalue, h⟩ := bind_eq_ok h
        obtain ⟨others, hothers, h⟩ := bind_eq_ok h
        cases h
        exact List.forall_mem_cons.mpr
          ⟨fits_literal argument hvalue hwhole hnesting, ih hothers hrest⟩

/-- **The arguments of a call are read back** from their text. -/
theorem readArguments?_of_argumentValues {arguments : List Node} {values : List Json.Value}
    (h : argumentValues arguments = .ok values)
    (hplain : ∀ argument ∈ arguments, IsPlain argument) :
    Stylesheet.Collection.readArguments? (Json.Value.list values).toText = some values := by
  have hfits : (Json.Value.list values).FitsWithin Json.maximalDepth :=
    fits_argumentValues h hplain
  unfold Stylesheet.Collection.readArguments? Json.Value.toText
  rw [String.toList_ofList, Json.Value.read?_render hfits]

end FontHosting.FontCall
