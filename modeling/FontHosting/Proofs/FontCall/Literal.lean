import FontHosting.FontCall.Transform
import FontHosting.Proofs.FontCall.Usage
import FontHosting.Proofs.Json.Document
import FontHosting.Proofs.Script.Grammar.Order
import Mathlib.Algebra.Order.Field.Power
import Mathlib.Data.Rat.Cast.Order
import Mathlib.Tactic.NormNum

/-!
# What literals denote

The evaluator of literals is told here by rules that do not run it:

* `Denotes` gives the values that literals denote.  A number denotes what it is equal to
  (`Binary.toRat`), and the fields of an object are merged (`Json.Fields.Merges`).
* `offences` are the nodes in the way of a value, in the order in which they are written.

Literals have exactly the values that they denote (`literal_eq_ok_iff`), and whatever else is
evaluated fails at its first offence (`literal_eq_error_iff`).  Where trees stand in order, as all
that are read from a text do, that is the one that starts first (`between_offences`).
-/

namespace FontHosting.Decimal

/-! ## Numbers -/

/-- The number that a binary fraction is. -/
def Binary.toRat (value : Binary) : ℚ :=
  (if value.negative then -1 else 1) * (value.mantissa * 2 ^ value.exponent)

/-- A natural number over a power of two is whole if the power divides it. -/
theorem natCast_eq_div_pow_iff {mantissa places whole : Nat} :
    (whole : ℚ) = mantissa * 2 ^ (-(places : Int)) ↔
      mantissa % 2 ^ places = 0 ∧ mantissa / 2 ^ places = whole := by
  have hpos : 0 < 2 ^ places := Nat.two_pow_pos places
  rw [zpow_neg, zpow_natCast, ← div_eq_mul_inv, eq_div_iff (by positivity)]
  norm_cast
  constructor
  · rintro rfl
    exact ⟨Nat.mul_mod_left _ _, Nat.mul_div_cancel _ hpos⟩
  · rintro ⟨hmod, rfl⟩
    exact Nat.div_mul_cancel (Nat.dvd_of_mod_eq_zero hmod)

/-- The whole number that a fraction without its sign is equal to. -/
theorem magnitude_eq_some_iff {mantissa : Nat} {exponent : Int} {magnitude : Nat} :
    ((if 0 ≤ exponent then some (mantissa * Nat.pow 2 exponent.natAbs)
      else if mantissa % Nat.pow 2 exponent.natAbs = 0 then
        some (mantissa / Nat.pow 2 exponent.natAbs)
      else none) = some magnitude) ↔ (magnitude : ℚ) = mantissa * 2 ^ exponent := by
  simp only [Nat.pow_eq]
  rcases Int.natAbs_eq exponent with hexponent | hexponent
  · rw [if_pos (by omega), hexponent, Int.natAbs_natCast, Option.some_inj, zpow_natCast]
    norm_cast
    exact eq_comm
  · by_cases hzero : exponent.natAbs = 0
    · rw [if_pos (by omega)]
      obtain rfl : exponent = 0 := Int.natAbs_eq_zero.mp hzero
      simp [eq_comm]
    · rw [if_neg (by omega)]
      generalize exponent.natAbs = places at hexponent
      rw [hexponent, natCast_eq_div_pow_iff]
      split <;> simp_all

/-- A fraction has a whole number if it is equal to that number. -/
theorem Binary.whole?_eq_some_iff {value : Binary} {whole : Int} :
    value.whole? = some whole ↔ (whole : ℚ) = value.toRat := by
  obtain ⟨negative, mantissa, exponent, edge⟩ := value
  simp only [whole?, toRat, Option.map_eq_some_iff, Option.bind_eq_bind, Option.bind_eq_some_iff,
    Option.pure_def, Option.some_inj, magnitude_eq_some_iff]
  have hnonneg : (0 : ℚ) ≤ mantissa * 2 ^ exponent := by positivity
  cases negative
  · simp only [Bool.false_eq_true, if_false, one_mul]
    constructor
    · rintro ⟨_, ⟨magnitude, hmagnitude, rfl⟩, rfl⟩
      rw [Int.cast_natCast, hmagnitude]
    · intro h
      rw [← h] at hnonneg
      obtain ⟨magnitude, rfl⟩ := Int.eq_ofNat_of_zero_le (Int.cast_nonneg_iff.mp hnonneg)
      rw [Int.cast_natCast] at h
      exact ⟨magnitude, ⟨magnitude, h, rfl⟩, rfl⟩
  · simp only [if_true, neg_one_mul]
    constructor
    · rintro ⟨_, ⟨magnitude, hmagnitude, rfl⟩, rfl⟩
      rw [Int.cast_neg, Int.cast_natCast, hmagnitude]
    · intro h
      rw [← neg_eq_iff_eq_neg, ← Int.cast_neg] at h
      rw [← h] at hnonneg
      obtain ⟨magnitude, hmagnitude⟩ :=
        Int.eq_ofNat_of_zero_le (Int.cast_nonneg_iff.mp hnonneg)
      rw [hmagnitude, Int.cast_natCast] at h
      exact ⟨magnitude, ⟨magnitude, h, rfl⟩, by omega⟩

end FontHosting.Decimal

namespace FontHosting.Json

/-! ## Objects -/

/-- Whether fields are what is left of written ones: a key that is repeated keeps its first place
and has its last value. -/
structure Fields.Merges (written fields : Fields) : Prop where
  places : fields.map Prod.fst = (written.map Prod.fst).eraseDups
  values : ∀ key, fields.lookup key = written.reverse.lookup key

theorem Fields.map_fst_insert (fields : Fields) (key : String) (value : Value) :
    (fields.insert key value).map Prod.fst =
      fields.map Prod.fst ++ [key].removeAll (fields.map Prod.fst) := by
  induction fields with
  | nil => simp [insert, List.removeAll]
  | cons field rest ih =>
      by_cases hkey : field.1 = key
      · simp [insert, hkey, List.removeAll]
      · have hne : key ≠ field.1 := Ne.symm hkey
        by_cases hmem : key ∈ rest.map Prod.fst <;>
          simp_all [insert, List.removeAll]

theorem Fields.merges_ofList (written : Fields) : Merges written (ofList written) := by
  unfold ofList
  induction written using List.reverseRecOn with
  | nil => exact ⟨rfl, fun _ => rfl⟩
  | append_singleton written field ih =>
      rw [List.foldl_append, List.foldl_cons, List.foldl_nil]
      refine ⟨?_, fun key => ?_⟩
      · rw [map_fst_insert, ih.places, List.map_append, List.eraseDups_append]
        by_cases hmem : field.1 ∈ written.map Prod.fst <;>
          simp_all [List.removeAll, List.mem_eraseDups, List.eraseDups_cons]
      · have hlookup := get?_insert (written.foldl (fun fields field =>
          fields.insert field.1 field.2) []) field.1 key field.2
        unfold get? at hlookup
        rw [hlookup, ih.values, List.reverse_append, List.reverse_singleton, List.singleton_append,
          List.lookup_cons]
        by_cases hkey : key = field.1
        · simp [hkey]
        · simp [hkey, beq_false_of_ne hkey]

theorem Fields.lookup_eq_none {fields : Fields} {key : String}
    (h : key ∉ fields.map Prod.fst) : fields.lookup key = none := by
  rw [List.lookup_eq_none_iff]
  intro field hfield
  exact bne_iff_ne.mpr fun heq => h (heq ▸ List.mem_map_of_mem hfield)

/-- The same keys with the same values, each once, are the same fields. -/
theorem Fields.ext_lookup {first second : Fields}
    (hplaces : first.map Prod.fst = second.map Prod.fst) (hkeys : (first.map Prod.fst).Nodup)
    (hvalues : ∀ key, first.lookup key = second.lookup key) : first = second := by
  induction first generalizing second with
  | nil => exact (List.map_eq_nil_iff.mp hplaces.symm).symm
  | cons field rest ih =>
      obtain ⟨key, value⟩ := field
      obtain ⟨⟨other, value'⟩, others, rfl⟩ := List.exists_cons_of_ne_nil
        (show second ≠ [] by rintro rfl; cases hplaces)
      obtain ⟨hkey, hothers⟩ := List.cons.inj hplaces
      obtain rfl : key = other := hkey
      obtain ⟨hfirst, hkeys⟩ := List.nodup_cons.mp hkeys
      have hvalue : value = value' := by simpa using hvalues key
      rw [hvalue, ih hothers hkeys]
      intro name
      by_cases hname : name = key
      · subst hname
        rw [lookup_eq_none hfirst, lookup_eq_none (hothers ▸ hfirst)]
      · simpa [List.lookup_cons, beq_false_of_ne hname] using hvalues name

theorem Fields.merges_iff {written fields : Fields} :
    Merges written fields ↔ fields = ofList written := by
  constructor
  · intro h
    have hmerges := merges_ofList written
    refine ext_lookup (h.places.trans hmerges.places.symm) ?_ fun key =>
      (h.values key).trans (hmerges.values key).symm
    rw [h.places, ← hmerges.places]
    exact (nodup_ofList written).1
  · rintro rfl
    exact merges_ofList written

end FontHosting.Json

namespace FontHosting.FontCall

open Script (AreInOrder Goal Node Program Span grammar isInOrder_grammar topLevel)
open Script.Parser (stateAt)
open Decimal (Binary floatKind)

/-! ## What literals denote -/

/-- What a number denotes: a whole number if it is one below `2 ^ 63`.  What is infinite or no
number denotes nothing. -/
inductive NumberDenotes (value : Float) : Json.Value → Prop
  | whole {binary : Binary} {whole : Int} : floatKind value = .finite binary →
      (whole : ℚ) = binary.toRat → whole.natAbs < 2 ^ 63 →
      NumberDenotes value (.number (.whole whole))
  | real {binary : Binary} : floatKind value = .finite binary →
      (∀ whole : Int, (whole : ℚ) = binary.toRat → 2 ^ 63 ≤ whole.natAbs) →
      NumberDenotes value (.number (.real value))
  | none : (∀ binary, floatKind value ≠ .finite binary) → NumberDenotes value .null

mutual

/-- What a literal denotes. -/
inductive Denotes : Node → Json.Value → Prop
  | text (value : String) (span : Span) : Denotes (.text value span) (.text value)
  | number {value : Float} {denoted : Json.Value} (span : Span) : NumberDenotes value denoted →
      Denotes (.number value span) denoted
  | boolean (value : Bool) (span : Span) : Denotes (.boolean value span) (.boolean value)
  | null (span : Span) : Denotes (.null span) .null
  | parenthesized {inner : Node} {denoted : Json.Value} {span : Span} : Denotes inner denoted →
      Denotes (.parenthesized inner span) denoted
  | array {items : List Node} {values : List Json.Value} {span : Span} :
      List.Forall₂ Denotes items values → Denotes (.array items span) (.list values)
  | object {properties : List Node} {written fields : List (String × Json.Value)} {span : Span} :
      List.Forall₂ DenotesField properties written → Json.Fields.Merges written fields →
      Denotes (.object properties span) (.object fields)

/-- What a property of a literal denotes. -/
inductive DenotesField : Node → String × Json.Value → Prop
  | plain {name : String} {place : Span} {value : Node} {denoted : Json.Value} {span : Span} :
      Denotes value denoted →
      DenotesField (.property .plain false (.word name place) value span) (name, denoted)

end

/-! ## Offences -/

/-- What is wrong with the key of a property. -/
def keyOffences : Bool → Node → List Fault
  | false, .word .. => []
  | _, key => [⟨.keyForm, key.start⟩]

mutual

/-- The nodes in a tree that are in the way of a value, in the order in which they are written. -/
def offences : Node → List Fault
  | .text .. | .number .. | .boolean .. | .null .. => []
  | .parenthesized inner _ => offences inner
  | .array items _ => offencesOfItems items
  | .object properties _ => offencesOfProperties properties
  | node => [⟨.notLiteral, node.start⟩]

/-- The offences in the items of an array. -/
def offencesOfItems : List Node → List Fault
  | [] => []
  | .spread _ span :: rest => ⟨.spread, span.start⟩ :: offencesOfItems rest
  | .hole span :: rest => ⟨.hole, span.start⟩ :: offencesOfItems rest
  | item :: rest => offences item ++ offencesOfItems rest

/-- The offences in the properties of an object. -/
def offencesOfProperties : List Node → List Fault
  | [] => []
  | .property .plain computed key value _ :: rest =>
      keyOffences computed key ++ offences value ++ offencesOfProperties rest
  | .property _ _ _ _ span :: rest => ⟨.propertyForm, span.start⟩ :: offencesOfProperties rest
  | node :: rest => ⟨.spread, node.start⟩ :: offencesOfProperties rest

end

/-! ## Evaluation -/

theorem numberDenotes_iff {value : Float} {denoted : Json.Value} :
    NumberDenotes value denoted ↔ numberValue value = denoted := by
  unfold numberValue
  constructor
  · rintro (⟨hkind, hwhole, hlimit⟩ | ⟨hkind, hlarge⟩ | hnone)
    · rw [hkind]
      simp only [Binary.whole?_eq_some_iff.mpr hwhole]
      exact if_pos hlimit
    · rw [hkind]
      dsimp only
      split
      · rename_i hwhole
        exact if_neg (Nat.not_lt.mpr (hlarge _ (Binary.whole?_eq_some_iff.mp hwhole)))
      · rfl
    · split
      · rfl
      · rfl
      · rename_i hkind
        exact absurd hkind (hnone _)
  · rintro rfl
    split
    · rename_i hkind
      exact .none fun binary h => by cases hkind.symm.trans h
    · rename_i hkind
      exact .none fun binary h => by cases hkind.symm.trans h
    · rename_i binary hkind
      split
      · rename_i whole hwhole
        rw [Binary.whole?_eq_some_iff] at hwhole
        split
        · rename_i hlimit
          exact .whole hkind hwhole hlimit
        · rename_i hlimit
          refine .real hkind fun other hother => ?_
          obtain rfl : whole = other := Int.cast_injective (hwhole.trans hother.symm)
          exact Nat.not_lt.mp hlimit
      · rename_i hnone
        refine .real hkind fun other hother => ?_
        rw [Binary.whole?_eq_some_iff.mpr hother] at hnone
        cases hnone

/-- An item of an array is an offence, or is evaluated. -/
theorem items_cons (item : Node) (rest : List Node) :
    ((∀ value, ¬Denotes item value) ∧ ∃ fault,
      offencesOfItems (item :: rest) = fault :: offencesOfItems rest ∧
        literalItems (item :: rest) = .error fault) ∨
    (offencesOfItems (item :: rest) = offences item ++ offencesOfItems rest ∧
      literalItems (item :: rest) =
        do let value ← literal item; return value :: (← literalItems rest)) := by
  cases item with
  | spread | hole => exact .inl ⟨nofun, _, rfl, rfl⟩
  | _ => exact .inr ⟨rfl, rfl⟩

/-- A property of an object has an offence, or its value is evaluated. -/
theorem properties_cons (property : Node) (rest : List Node) :
    ((∀ field, ¬DenotesField property field) ∧ ∃ fault others,
      offencesOfProperties (property :: rest) = fault :: others ∧
        literalFields (property :: rest) = .error fault) ∨
    ∃ name place value span, property = .property .plain false (.word name place) value span ∧
      offencesOfProperties (property :: rest) = offences value ++ offencesOfProperties rest ∧
      literalFields (property :: rest) =
        do let denoted ← literal value; return (name, denoted) :: (← literalFields rest) := by
  cases property with
  | property kind computed key value span =>
      cases kind with
      | plain =>
          cases computed with
          | true => exact .inl ⟨nofun, _, _, rfl, rfl⟩
          | false =>
              cases key with
              | word => exact .inr ⟨_, _, _, _, rfl, rfl, rfl⟩
              | _ => exact .inl ⟨nofun, _, _, rfl, rfl⟩
      | _ => exact .inl ⟨nofun, _, _, rfl, rfl⟩
  | _ => exact .inl ⟨nofun, _, _, rfl, rfl⟩

mutual

/-- A tree is evaluated to what it denotes, or fails at its first offence. -/
theorem literal_cases : ∀ node : Node,
    (offences node = [] ∧ ∃ value, Denotes node value ∧ literal node = .ok value) ∨
      ∃ fault, (offences node).head? = some fault ∧ literal node = .error fault
  | .text .. => .inl ⟨rfl, _, .text .., rfl⟩
  | .number .. => .inl ⟨rfl, _, .number _ (numberDenotes_iff.mpr rfl), rfl⟩
  | .boolean .. => .inl ⟨rfl, _, .boolean .., rfl⟩
  | .null .. => .inl ⟨rfl, _, .null .., rfl⟩
  | .parenthesized inner _ =>
      (literal_cases inner).imp_left fun ⟨hnone, value, hvalue, hrun⟩ =>
        ⟨hnone, value, .parenthesized hvalue, hrun⟩
  | .array items _ => by
      rcases literalItems_cases items with ⟨hnone, values, hvalues, hrun⟩ | ⟨fault, hfirst, hrun⟩
      · exact .inl ⟨hnone, _, .array hvalues, by rw [literal, hrun]; rfl⟩
      · exact .inr ⟨fault, hfirst, by rw [literal, hrun]; rfl⟩
  | .object properties _ => by
      rcases literalFields_cases properties with
        ⟨hnone, written, hwritten, hrun⟩ | ⟨fault, hfirst, hrun⟩
      · exact .inl ⟨hnone, _, .object hwritten (Json.Fields.merges_ofList written),
          by rw [literal, hrun]; rfl⟩
      · exact .inr ⟨fault, hfirst, by rw [literal, hrun]; rfl⟩
  | .reference .. | .binding .. | .word .. | .hole .. | .spread .. | .property .. | .call ..
  | .declarator .. | .variables .. | .importSpecifier .. | .importFrom .. | .exported ..
  | .form .. => .inr ⟨_, rfl, rfl⟩

theorem literalItems_cases : ∀ items : List Node,
    (offencesOfItems items = [] ∧ ∃ values, List.Forall₂ Denotes items values ∧
      literalItems items = .ok values) ∨
      ∃ fault, (offencesOfItems items).head? = some fault ∧ literalItems items = .error fault
  | [] => .inl ⟨rfl, [], .nil, rfl⟩
  | item :: rest => by
      -- the first offence is looked for in the item, and behind it only if the item has a value
      rcases items_cons item rest with ⟨-, fault, hoffences, hrun⟩ | ⟨hoffences, hrun⟩
      · exact .inr ⟨fault, by rw [hoffences]; rfl, hrun⟩
      rw [hoffences, hrun]
      rcases literal_cases item with ⟨hnone, value, hvalue, hitem⟩ | ⟨fault, hfirst, hitem⟩
      · rw [hnone, hitem, List.nil_append]
        rcases literalItems_cases rest with ⟨hnone, values, hvalues, hrest⟩ | ⟨fault, hfirst, hrest⟩
        · exact .inl ⟨hnone, value :: values, .cons hvalue hvalues, by rw [hrest]; rfl⟩
        · exact .inr ⟨fault, hfirst, by rw [hrest]; rfl⟩
      · exact .inr ⟨fault, by rw [List.head?_append, hfirst]; rfl, by rw [hitem]; rfl⟩

theorem literalFields_cases : ∀ properties : List Node,
    (offencesOfProperties properties = [] ∧ ∃ written,
      List.Forall₂ DenotesField properties written ∧ literalFields properties = .ok written) ∨
      ∃ fault, (offencesOfProperties properties).head? = some fault ∧
        literalFields properties = .error fault
  | [] => .inl ⟨rfl, [], .nil, rfl⟩
  | property :: rest => by
      rcases properties_cons property rest with
        ⟨-, fault, others, hoffences, hrun⟩ |
        ⟨name, place, value, span, rfl, hoffences, hrun⟩
      · exact .inr ⟨fault, by rw [hoffences]; rfl, hrun⟩
      rw [hoffences, hrun]
      rcases literal_cases value with ⟨hnone, denoted, hdenoted, hvalue⟩ | ⟨fault, hfirst, hvalue⟩
      · rw [hnone, hvalue, List.nil_append]
        rcases literalFields_cases rest with
          ⟨hnone, written, hwritten, hrest⟩ | ⟨fault, hfirst, hrest⟩
        · exact .inl ⟨hnone, (name, denoted) :: written, .cons (.plain hdenoted) hwritten,
            by rw [hrest]; rfl⟩
        · exact .inr ⟨fault, hfirst, by rw [hrest]; rfl⟩
      · exact .inr ⟨fault, by rw [List.head?_append, hfirst]; rfl, by rw [hvalue]; rfl⟩

end

mutual

theorem literal_of_denotes : ∀ (node : Node) {value : Json.Value}, Denotes node value →
    literal node = .ok value
  | .text .., _, .text .. | .boolean .., _, .boolean .. | .null .., _, .null .. => rfl
  | .number .., _, .number _ h => by rw [literal, numberDenotes_iff.mp h]
  | .parenthesized inner _, _, .parenthesized h => literal_of_denotes inner h
  | .array items _, _, .array h => by
      rw [literal, literalItems_of_denotes items h]
      rfl
  | .object properties _, _, .object hwritten hmerges => by
      rw [literal, literalFields_of_denotes properties hwritten, Json.Fields.merges_iff.mp hmerges]
      rfl

theorem literalItems_of_denotes : ∀ (items : List Node) {values : List Json.Value},
    List.Forall₂ Denotes items values → literalItems items = .ok values
  | [], _, .nil => rfl
  | item :: rest, _, .cons hitem hrest => by
      rcases items_cons item rest with ⟨hnone, -⟩ | ⟨-, hrun⟩
      · exact absurd hitem (hnone _)
      · rw [hrun, literal_of_denotes item hitem, literalItems_of_denotes rest hrest]
        rfl

theorem literalFields_of_denotes : ∀ (properties : List Node)
    {written : List (String × Json.Value)}, List.Forall₂ DenotesField properties written →
      literalFields properties = .ok written
  | [], _, .nil => rfl
  | property :: rest, _, .cons hproperty hrest => by
      rcases properties_cons property rest with
        ⟨hnone, -⟩ | ⟨name, place, value, span, rfl, -, hrun⟩
      · exact absurd hproperty (hnone _)
      · obtain ⟨hvalue⟩ := hproperty
        rw [hrun, literal_of_denotes value hvalue, literalFields_of_denotes rest hrest]
        rfl

end

/-- **Literals have the values that they denote.** -/
theorem literal_eq_ok_iff {node : Node} {value : Json.Value} :
    literal node = .ok value ↔ Denotes node value := by
  refine ⟨fun h => ?_, literal_of_denotes node⟩
  rcases literal_cases node with ⟨-, other, hdenotes, hrun⟩ | ⟨fault, -, hrun⟩
  · cases h.symm.trans hrun
    exact hdenotes
  · cases h.symm.trans hrun

/-- **Whatever is no literal fails at its first offence.** -/
theorem literal_eq_error_iff {node : Node} {fault : Fault} :
    literal node = .error fault ↔ (offences node).head? = some fault := by
  rcases literal_cases node with ⟨hnone, value, -, hrun⟩ | ⟨first, hfirst, hrun⟩
  · rw [hrun, hnone]
    exact iff_of_false nofun nofun
  · rw [hrun, hfirst, Except.error.injEq, Option.some_inj]

/-! ## Source order -/

/-- Whether faults stand one behind the other between two places. -/
structure Between (start stop : Nat) (faults : List Fault) : Prop where
  le : start ≤ stop
  bounds : ∀ fault ∈ faults, start ≤ fault.offset ∧ fault.offset ≤ stop
  ordered : faults.Pairwise fun first second => first.offset ≤ second.offset

section
variable {start middle stop : Nat} {faults others : List Fault}

theorem Between.nil (h : start ≤ stop) : Between start stop [] :=
  ⟨h, nofun, .nil⟩

theorem Between.append (hfirst : Between start middle faults)
    (hsecond : Between middle stop others) : Between start stop (faults ++ others) := by
  refine ⟨hfirst.le.trans hsecond.le, List.forall_mem_append.mpr ⟨?_, ?_⟩, ?_⟩
  · exact fun fault hfault => (hfirst.bounds fault hfault).imp_right (·.trans hsecond.le)
  · exact fun fault hfault => (hsecond.bounds fault hfault).imp_left hfirst.le.trans
  · refine List.pairwise_append.mpr ⟨hfirst.ordered, hsecond.ordered, ?_⟩
    exact fun first hmem second hmem' =>
      (hfirst.bounds first hmem).2.trans (hsecond.bounds second hmem').1

theorem Between.mono (h : Between start stop faults) {before behind : Nat} (hstart : before ≤ start)
    (hstop : stop ≤ behind) : Between before behind faults :=
  ⟨hstart.trans (h.le.trans hstop),
    fun fault hfault => (h.bounds fault hfault).imp hstart.trans (·.trans hstop), h.ordered⟩

theorem Between.single (cause : Cause) (h : start ≤ stop) : Between start stop [⟨cause, start⟩] :=
  ⟨h, List.forall_mem_singleton.mpr ⟨le_rfl, h⟩, List.pairwise_singleton _ _⟩

/-- A fault at a place, and others behind it. -/
theorem Between.cons (cause : Cause) (h : Between start stop faults) :
    Between start stop (⟨cause, start⟩ :: faults) :=
  (Between.single cause le_rfl).append h

theorem between_keyOffences (computed : Bool) {key : Node} (h : key.start ≤ stop) :
    Between key.start stop (keyOffences computed key) := by
  unfold keyOffences
  split
  · exact .nil h
  · exact .single _ h

end

mutual

/-- The offences in a tree that stands in order stand in order, too. -/
theorem between_offences : ∀ node : Node, node.IsInOrder →
    Between node.span.start node.span.stop (offences node)
  | .text .., h | .number .., h | .boolean .., h | .null .., h => .nil h
  | .parenthesized inner _, ⟨hstart, h, hstop⟩ => (between_offences inner h).mono hstart hstop
  | .array items _, h => between_offencesOfItems items h
  | .object properties _, h => between_offencesOfProperties properties h
  | .property _ _ _ value _, ⟨hkey, hvalue, h, hstop⟩ =>
      .single _ ((hkey.trans hvalue).trans ((between_offences value h).le.trans hstop))
  | .reference .., h | .binding .., h | .word .., h | .hole .., h | .spread .., h | .call .., h
  | .declarator .., h | .variables .., h | .importSpecifier .., h | .importFrom .., h
  | .exported .., h | .form .., h => .single _ h

theorem between_offencesOfItems : ∀ (items : List Node) {start stop : Nat},
    AreInOrder start items stop → Between start stop (offencesOfItems items)
  | [], _, _, h => .nil h
  | item :: rest, start, stop, ⟨hstart, hitem, hrest⟩ => by
      have hitem := between_offences item hitem
      have hrest := between_offencesOfItems rest hrest
      cases item with
      | spread | hole => exact ((hrest.mono hitem.le le_rfl).cons _).mono hstart le_rfl
      | _ => exact (hitem.append hrest).mono hstart le_rfl

theorem between_offencesOfProperties : ∀ (properties : List Node) {start stop : Nat},
    AreInOrder start properties stop → Between start stop (offencesOfProperties properties)
  | [], _, _, h => .nil h
  | property :: rest, start, stop, ⟨hstart, hproperty, hrest⟩ => by
      have hle := (between_offences property hproperty).le
      have hrest := between_offencesOfProperties rest hrest
      cases property with
      | property kind computed key value span =>
          cases kind with
          | plain =>
              obtain ⟨hkey, hbehind, hvalue, hstop⟩ := hproperty
              have hown := (between_keyOffences computed hbehind).append
                (between_offences value hvalue)
              exact (hown.append (hrest.mono hstop le_rfl)).mono (hstart.trans hkey) le_rfl
          | _ => exact ((hrest.mono hle le_rfl).cons _).mono hstart le_rfl
      | _ => exact ((hrest.mono hle le_rfl).cons _).mono hstart le_rfl

end

/-- In trees that stand in order the first offence is the one that starts first. -/
theorem offset_le_of_literal_eq_error {node : Node} (horder : node.IsInOrder) {fault : Fault}
    (h : literal node = .error fault) : ∀ other ∈ offences node, fault.offset ≤ other.offset := by
  obtain ⟨rest, hrest⟩ := List.head?_eq_some_iff.mp (literal_eq_error_iff.mp h)
  have hordered := (between_offences node horder).ordered
  rw [hrest] at hordered ⊢
  exact List.forall_mem_cons.mpr ⟨le_rfl, (List.pairwise_cons.mp hordered).1⟩

/-- **Evaluation of literals.**  A tree has a value if it is a literal, and the value is what it
denotes.  Otherwise the fault is the first of its offences.  In a tree that stands in order this is
the one that starts first, and every tree that is read as an expression stands in order. -/
theorem literals_are_evaluated (node : Node) :
    ((∃ value, literal node = .ok value) ↔ IsLiteral node) ∧
    (∀ value, literal node = .ok value ↔ Denotes node value) ∧
    (∀ fault, literal node = .error fault ↔ (offences node).head? = some fault) ∧
    (node.IsInOrder → ∀ fault, literal node = .error fault →
      ∀ other ∈ offences node, fault.offset ≤ other.offset) ∧
    (∀ goal ∈ [Goal.expression, .assignment], ∀ depth context state after,
      (grammar depth goal).run context state = some (node, after) → node.IsInOrder) ∧
    ([Cause.spread, .hole, .propertyForm, .keyForm, .notLiteral].map Cause.message =
      ["Unexpected spread", "Unexpected empty value in array", "Unexpected key",
        "Unexpected object key type",
        "Font loader values must be explicitly written literals."]) :=
  ⟨literal_isOk_iff node, fun _ => literal_eq_ok_iff, fun _ => literal_eq_error_iff,
    fun horder _ => offset_le_of_literal_eq_error horder,
    fun _ hgoal _ _ _ _ => isInOrder_grammar hgoal, rfl⟩

/-! ## Two texts with offences -/

/-- An object with three offences. -/
def offendingSource : String :=
  "(\x7b a: [, x], ...y \x7d)"

/-- A tree without the parentheses around it. -/
def unwrapped : Node → Node
  | .parenthesized inner _ => unwrapped inner
  | node => node

/-- The expression that a script starts with. -/
def firstExpression? (program : Program) : Option Node :=
  match program.statements with
  | .form .expressionStatement [expression] _ :: _ => some expression
  | _ => none

/-- The key of the first property of an object. -/
def firstKey? (node : Node) : Option Node :=
  match unwrapped node with
  | .object (.property _ _ key _ _ :: _) _ => some key
  | _ => none

/-- A script whose only key stands in parentheses. -/
def wrappedKeySource : String :=
  "(\x7b[(x)]:null\x7d)"

/-- What the two texts are read as, and how a part of them is told. -/
theorem offences_run :
    ((grammar 32 .expression).run (topLevel .typedMarkup)
      (stateAt ⟨offendingSource.toList, 0⟩)).map (fun found => offences found.1) =
        some [⟨.hole, 7⟩, ⟨.notLiteral, 9⟩, ⟨.spread, 13⟩] ∧
    (((readScript? "a.tsx" wrappedKeySource).bind firstExpression?).bind
      fun expression => (firstKey? expression).map fun key =>
        ((unwrapped key).start, (offences expression).head?)) = some (4, some ⟨.keyForm, 3⟩) := by
  constructor <;> decide +kernel

/-- Of its three offences the hole is told. -/
theorem hole_is_told_first :
    ∃ node after, (grammar 32 .expression).run (topLevel .typedMarkup)
        (stateAt ⟨offendingSource.toList, 0⟩) = some (node, after) ∧
      node.IsInOrder ∧ literal node = .error ⟨.hole, 7⟩ ∧
      offences node = [⟨.hole, 7⟩, ⟨.notLiteral, 9⟩, ⟨.spread, 13⟩] ∧
      ∀ other ∈ offences node, 7 ≤ other.offset := by
  obtain ⟨⟨node, after⟩, hrun, hoffences⟩ := Option.map_eq_some_iff.mp offences_run.1
  dsimp only at hoffences
  obtain ⟨-, -, herror, hfirst, horder, -⟩ := literals_are_evaluated node
  have horder := horder .expression List.mem_cons_self _ _ _ _ hrun
  have hfault : literal node = .error ⟨.hole, 7⟩ := (herror _).mpr (by rw [hoffences]; rfl)
  exact ⟨node, after, hrun, horder, hfault, hoffences, hfirst horder _ hfault⟩

/-- A key that is no plain name is told where it is written, with the parentheses around it. -/
theorem key_is_told_with_parentheses :
    ∃ expression key, (readScript? "a.tsx" wrappedKeySource).bind firstExpression? =
        some expression ∧ firstKey? expression = some key ∧
      (unwrapped key).start = 4 ∧ literal expression = .error ⟨.keyForm, 3⟩ := by
  obtain ⟨expression, hexpression, hread⟩ := Option.bind_eq_some_iff.mp offences_run.2
  obtain ⟨key, hkey, hread⟩ := Option.map_eq_some_iff.mp hread
  obtain ⟨hstart, hfirst⟩ := Prod.mk.inj hread
  exact ⟨expression, key, hexpression, hkey, hstart, literal_eq_error_iff.mpr hfirst⟩

end FontHosting.FontCall
