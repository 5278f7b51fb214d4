import FontHosting.Proofs.Script.Name
import FontHosting.Proofs.Script.Run
import FontHosting.Script.Rules

/-!
# Trees tell where their names stand

Every name in a tree that a rule of the grammar answers is written in the text, at the place
that the tree says: behind the place where the rule started, and in front of the place behind
the last token that it passed (`spells_grammar`).

`Spells` says so of one parser.  The place that a name may start in front of is fixed from the
beginning, and only compared with the place where the parser ends.  So what is known of the
values that the steps of a parser answer stays known while the parser goes on, and a tree is
spelled because its parts are.

The names of properties are followed too.  They stand for no binding, but a property without
a value is a reference, and an import or export without another name is a binding or a
reference.
-/

namespace FontHosting.Script

open FontHosting.Script.Parser

/-! ## Trees whose names are written -/

section
variable (origin : Source) (stop : Nat)

/-- A name is written at a place behind an origin and in front of a stop. -/
def WrittenAt (name : String) (start : Nat) : Prop :=
  start < stop ∧ ∃ place, origin.Leads place ∧ place.offset = start ∧ place.Writes name

mutual

/-- Every name in a tree is written where the tree says. -/
def Node.IsWritten : Node → Prop
  | .reference name span | .binding name span | .word name span =>
      WrittenAt origin stop name span.start
  | .text .. | .number .. | .boolean .. | .null .. | .hole .. => True
  | .parenthesized inner _ | .spread inner _ => inner.IsWritten
  | .array items _ | .object items _ | .variables _ items _ | .form _ items _ => areWritten items
  | .property _ _ key value _ => key.IsWritten ∧ value.IsWritten
  | .call _ callee typeArguments arguments _ =>
      callee.IsWritten ∧ areWritten typeArguments ∧ areWritten arguments
  | .declarator target type initial _ => target.IsWritten ∧ areWritten type ∧ areWritten initial
  | .importSpecifier _ target _ => target.IsWritten
  | .importFrom _ specifiers _ attributes _ => areWritten specifiers ∧ areWritten attributes
  | .exported declaration _ => declaration.IsWritten

/-- Every name in several trees is written where the trees say. -/
def areWritten : List Node → Prop
  | [] => True
  | node :: rest => node.IsWritten ∧ areWritten rest

end

end

attribute [simp] Node.IsWritten

variable {origin : Source} {stop : Nat}

theorem areWritten_iff {nodes : List Node} :
    areWritten origin stop nodes ↔ ∀ node ∈ nodes, node.IsWritten origin stop := by
  induction nodes with
  | nil => simp [areWritten]
  | cons node rest ih => rw [areWritten, ih, List.forall_mem_cons]

mutual

/-- The references and bindings of a tree are among its names. -/
theorem Node.writtenAt_of_mem_occurrences : ∀ node : Node, node.IsWritten origin stop →
    ∀ occurrence ∈ node.occurrences, WrittenAt origin stop occurrence.name occurrence.start
  | .reference name span, h => by
      rintro _ (_ | ⟨_, ⟨⟩⟩)
      exact h
  | .binding name span, h => by
      rintro _ (_ | ⟨_, ⟨⟩⟩)
      exact h
  | .word .., _ | .text .., _ | .number .., _ | .boolean .., _ | .null .., _ | .hole .., _ => nofun
  | .parenthesized inner _, h | .spread inner _, h | .exported inner _, h
  | .importSpecifier _ inner _, h => inner.writtenAt_of_mem_occurrences h
  | .array items _, h | .object items _, h | .variables _ items _, h | .form _ items _, h =>
      writtenAt_of_mem_occurrencesIn items h
  | .property _ _ key value _, h => by
      intro occurrence hmem
      rcases List.mem_append.mp hmem with hmem | hmem
      · exact key.writtenAt_of_mem_occurrences h.1 occurrence hmem
      · exact value.writtenAt_of_mem_occurrences h.2 occurrence hmem
  | .call _ callee typeArguments arguments _, h => by
      intro occurrence hmem
      rcases List.mem_append.mp hmem with hmem | hmem
      · rcases List.mem_append.mp hmem with hmem | hmem
        · exact callee.writtenAt_of_mem_occurrences h.1 occurrence hmem
        · exact writtenAt_of_mem_occurrencesIn typeArguments h.2.1 occurrence hmem
      · exact writtenAt_of_mem_occurrencesIn arguments h.2.2 occurrence hmem
  | .declarator target type initial _, h => by
      intro occurrence hmem
      rcases List.mem_append.mp hmem with hmem | hmem
      · rcases List.mem_append.mp hmem with hmem | hmem
        · exact target.writtenAt_of_mem_occurrences h.1 occurrence hmem
        · exact writtenAt_of_mem_occurrencesIn type h.2.1 occurrence hmem
      · exact writtenAt_of_mem_occurrencesIn initial h.2.2 occurrence hmem
  | .importFrom _ specifiers _ attributes _, h => by
      intro occurrence hmem
      rcases List.mem_append.mp hmem with hmem | hmem
      · exact writtenAt_of_mem_occurrencesIn specifiers h.1 occurrence hmem
      · exact writtenAt_of_mem_occurrencesIn attributes h.2 occurrence hmem

theorem writtenAt_of_mem_occurrencesIn : ∀ nodes : List Node, areWritten origin stop nodes →
    ∀ occurrence ∈ occurrencesIn nodes,
      WrittenAt origin stop occurrence.name occurrence.start
  | [], _ => nofun
  | node :: rest, h => by
      intro occurrence hmem
      rcases List.mem_append.mp hmem with hmem | hmem
      · exact node.writtenAt_of_mem_occurrences h.1 occurrence hmem
      · exact writtenAt_of_mem_occurrencesIn rest h.2 occurrence hmem

end

/-! ## Values that hold trees -/

/-- What it means for the names in a value that a parser answers to be written. -/
class HasNames (α : Type) where
  AreWritten : Source → Nat → α → Prop

open HasNames (AreWritten)

instance : HasNames Node := ⟨Node.IsWritten⟩

instance {α : Type} [HasNames α] : HasNames (List α) :=
  ⟨fun origin stop values => ∀ value ∈ values, AreWritten origin stop value⟩

instance {α : Type} [HasNames α] : HasNames (Option α) :=
  ⟨fun origin stop value? => ∀ value ∈ value?, AreWritten origin stop value⟩

instance {α β : Type} [HasNames α] [HasNames β] : HasNames (α × β) :=
  ⟨fun origin stop pair => AreWritten origin stop pair.1 ∧ AreWritten origin stop pair.2⟩

/-- A name with its place. -/
instance (priority := high) : HasNames (String × Span) :=
  ⟨fun origin stop named => WrittenAt origin stop named.1 named.2.start⟩

/-- Other values hold no names. -/
instance (priority := low) nameless {α : Type} : HasNames α := ⟨fun _ _ _ => True⟩

@[simp] theorem areWritten_nameless {α : Type} {value : α} :
    nameless.AreWritten origin stop value := trivial

section
variable {α : Type} [HasNames α]

@[simp] theorem areWritten_node {node : Node} :
    AreWritten origin stop node ↔ node.IsWritten origin stop := Iff.rfl

@[simp] theorem areWritten_nil : AreWritten origin stop ([] : List α) := nofun

@[simp] theorem areWritten_cons {value : α} {rest : List α} :
    AreWritten origin stop (value :: rest) ↔
      AreWritten origin stop value ∧ AreWritten origin stop rest := List.forall_mem_cons

@[simp] theorem areWritten_append {first second : List α} :
    AreWritten origin stop (first ++ second) ↔
      AreWritten origin stop first ∧ AreWritten origin stop second := List.forall_mem_append

@[simp] theorem areWritten_reverse {values : List α} :
    AreWritten origin stop values.reverse ↔ AreWritten origin stop values := by
  simp [AreWritten]

@[simp] theorem areWritten_none : AreWritten origin stop (none : Option α) := nofun

@[simp] theorem areWritten_some {value : α} :
    AreWritten origin stop (some value) ↔ AreWritten origin stop value := by
  simp [AreWritten]

@[simp] theorem areWritten_toList {value? : Option α} :
    AreWritten origin stop value?.toList ↔ AreWritten origin stop value? := by
  simp [AreWritten]

@[simp] theorem areWritten_getD {values? : Option (List α)} :
    AreWritten origin stop (values?.getD []) ↔ AreWritten origin stop values? := by
  cases values? with
  | none => exact iff_of_true areWritten_nil areWritten_none
  | some values => exact areWritten_some.symm

@[simp] theorem areWritten_pair {β : Type} [HasNames β] {pair : α × β} :
    AreWritten origin stop pair ↔
      AreWritten origin stop pair.1 ∧ AreWritten origin stop pair.2 := Iff.rfl

@[simp] theorem areWritten_named {named : String × Span} :
    AreWritten origin stop named ↔ WrittenAt origin stop named.1 named.2.start := Iff.rfl

end

section
variable {α β : Type} [HasNames α] [HasNames β]

theorem areWritten_bind {value? : Option α} {next : α → Option β}
    (h : AreWritten origin stop value?)
    (hnext : ∀ value, AreWritten origin stop value → AreWritten origin stop (next value)) :
    AreWritten origin stop (value?.bind next) := by
  cases value? with
  | none => exact areWritten_none
  | some value => exact hnext value (areWritten_some.mp h)

theorem areWritten_map {value? : Option α} {change : α → β} (h : AreWritten origin stop value?)
    (hchange : ∀ value, AreWritten origin stop value → AreWritten origin stop (change value)) :
    AreWritten origin stop (value?.map change) := by
  cases value? with
  | none => exact areWritten_none
  | some value => exact areWritten_some.mpr (hchange value (areWritten_some.mp h))
end

@[simp] theorem areWritten_list {nodes : List Node} :
    areWritten origin stop nodes ↔ AreWritten origin stop nodes := areWritten_iff

@[simp] theorem Node.isWritten_asWord {node : Node} :
    node.asWord.IsWritten origin stop ↔ node.IsWritten origin stop := by
  cases node <;> exact Iff.rfl

@[simp] theorem Node.isWritten_asReference {node : Node} :
    node.asReference.IsWritten origin stop ↔ node.IsWritten origin stop := by
  cases node <;> exact Iff.rfl

/-! ## Parsers that spell names -/

section
variable {α β : Type} [HasNames α] [HasNames β] {context : Context} {state : State}
  {parser : Parser α} {next : α → Parser β}

/-- If a parser that starts behind an origin ends in front of a stop, the names in its answer
are written between the two. -/
def Spells (origin : Source) (stop : Nat) (parser : Parser α) : Prop :=
  ∀ context state, origin.Leads state.here → parser.Post context state fun value after =>
    after.previous.offset ≤ stop → AreWritten origin stop value

theorem Spells.bind (hfirst : Spells origin stop parser)
    (hnext : ∀ value, AreWritten origin stop value → Spells origin stop (next value)) :
    Spells origin stop (parser >>= next) := by
  intro context state horigin value after hrun hstop
  rw [run_bind] at hrun
  obtain ⟨⟨first, between⟩, hparser, hrun⟩ := Option.bind_eq_some_iff.mp hrun
  have hle := Nat.le_trans (reaches_of_run hrun).previous_le hstop
  have hwritten := hfirst context state horigin first between hparser hle
  have hbetween := horigin.trans (reaches_of_run hparser).leads
  exact hnext first hwritten context between hbetween value after hrun hstop

/-- What a step answers may be of no importance for the names. -/
theorem spells_step {α : Type} {parser : Parser α} {next : α → Parser β}
    (hnext : ∀ value, Spells origin stop (next value)) :
    Spells origin stop (parser >>= next) := by
  intro context state horigin value after hrun hstop
  rw [run_bind] at hrun
  obtain ⟨⟨first, between⟩, hparser, hrun⟩ := Option.bind_eq_some_iff.mp hrun
  have hbetween := horigin.trans (reaches_of_run hparser).leads
  exact hnext first context between hbetween value after hrun hstop

theorem spells_pure {value : α} (h : AreWritten origin stop value) :
    Spells origin stop (pure value) := by
  intro context state _ last after hrun _
  rw [run_pure] at hrun
  cases hrun
  exact h

/-- A value that is there without a step. -/
theorem spells_pure_bind {α : Type} {next : α → Parser β} {value : α} (h : Spells origin stop (next value)) :
    Spells origin stop (pure value >>= next) := by
  intro context state horigin last after hrun
  rw [run_bind, run_pure] at hrun
  exact h context state horigin last after hrun

theorem spells_fail : Spells origin stop (fail : Parser α) :=
  fun _ _ _ _ _ hrun => nomatch hrun

theorem spells_ite {condition : Prop} [Decidable condition] {yes no : Parser α}
    (hyes : condition → Spells origin stop yes) (hno : ¬condition → Spells origin stop no) :
    Spells origin stop (if condition then yes else no) := by
  split
  · exact hyes ‹_›
  · exact hno ‹_›

theorem spells_form {start : Nat} {kind : Form} {parts : List Node}
    (h : AreWritten origin stop parts) : Spells origin stop (form start kind parts) := by
  intro context state _ node after hrun _
  rw [run_form] at hrun
  cases hrun
  exact areWritten_list.mpr h

theorem spells_within {change : Context → Context} (h : Spells origin stop parser) :
    Spells origin stop (within change parser) :=
  fun context state => h (change context) state

theorem spells_attempt (h : Spells origin stop parser) :
    Spells origin stop (attempt parser) := by
  intro context state horigin value? after hrun hstop
  rw [run_attempt] at hrun
  split at hrun
  · rename_i value _ hparser
    cases hrun
    exact areWritten_some.mpr (h context state horigin value after hparser hstop)
  · cases hrun
    exact areWritten_none

theorem spells_collect {step : Parser (Option α)} (h : Spells origin stop step) {fuel : Nat}
    {done : List α} (hdone : AreWritten origin stop done) :
    Spells origin stop (Parser.collect step fuel done) := by
  induction fuel generalizing done with
  | zero => exact spells_pure (areWritten_reverse.mpr hdone)
  | succ fuel ih =>
      refine h.bind fun value? hvalue => ?_
      split
      · exact spells_pure (areWritten_reverse.mpr hdone)
      · exact ih (areWritten_cons.mpr ⟨areWritten_some.mp hvalue, hdone⟩)

theorem spells_many {step : Parser (Option α)} (h : Spells origin stop step) :
    Spells origin stop (many step) :=
  spells_step fun _ => spells_collect h areWritten_nil

/-- An item that is there only if a condition holds. -/
theorem spells_when {item : Parser α} {holds : Bool} (h : Spells origin stop item) :
    Spells origin stop (do if holds then return some (← item) else return none) := by
  split
  · exact h.bind fun value hvalue => spells_pure (areWritten_some.mpr hvalue)
  · exact spells_pure areWritten_none

theorem spells_unless {item : Parser α} {holds : Bool} (h : Spells origin stop item) :
    Spells origin stop (do if holds then return none else return some (← item)) := by
  split
  · exact spells_pure areWritten_none
  · exact h.bind fun value hvalue => spells_pure (areWritten_some.mpr hvalue)

theorem spells_commaList {close : String} {item : Parser α} (h : Spells origin stop item) :
    Spells origin stop (commaList close item) := by
  unfold commaList
  refine Spells.bind (spells_many ?_) fun items hitems => spells_step fun _ => spells_pure hitems
  refine spells_step fun closes => ?_
  split
  · exact spells_pure areWritten_none
  · refine h.bind fun value hvalue => spells_step fun _ => ?_
    split
    · exact spells_step fun _ => spells_pure (areWritten_some.mpr hvalue)
    · exact spells_pure (areWritten_some.mpr hvalue)

theorem spells_commaSeparated {item : Parser α} (h : Spells origin stop item) :
    Spells origin stop (commaSeparated item) :=
  h.bind fun _ hfirst => (spells_many (spells_step fun _ => spells_when h)).bind fun _ hothers =>
    spells_pure (areWritten_cons.mpr ⟨hfirst, hothers⟩)

end

/-! ## Names -/

/-- The current word is written where it stands, once it is passed. -/
theorem writtenAt_word {state after : State} {word : String} (horigin : origin.Leads state.here)
    (hword : state.token.word? = some word) (hpassed : state.after.Leads after.previous)
    (hstop : after.previous.offset ≤ stop) : WrittenAt origin stop word state.token.start := by
  have hplace : state.token.start = state.here.offset := state.reading.start_eq
  have hlt : state.here.offset < state.after.offset := state.reading.passes_word hword
  have hle := hpassed.offset_le
  exact ⟨by omega, state.here, horigin, hplace.symm, state.reading.writes_word hword⟩

end FontHosting.Script
