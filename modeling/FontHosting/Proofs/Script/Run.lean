import FontHosting.Proofs.Script.Place
import FontHosting.Script.Parser

/-!
# What parsers answer

`run` forgets that the state after a parser is reached from the state before it
(`reaches_of_run`), so that the parts of a parser can be run one after the other by rewriting.
`Post` says what holds of the value and of the state after a parser, if it answers.
-/

namespace FontHosting.Script

theorem State.Reaches.leads {state after : State} (h : state.Reaches after) :
    state.here.Leads after.here := by
  rcases h with ⟨hhere, -⟩ | hleads
  · exact hhere ▸ .refl _
  · exact hleads.trans after.leads

theorem State.Reaches.previous_le {state after : State} (h : state.Reaches after) :
    state.previous.offset ≤ after.previous.offset := by
  rcases h with ⟨-, hprevious⟩ | hleads
  · rw [hprevious]
  · exact (state.leads.trans hleads).offset_le

namespace Parser

variable {α β : Type} {context : Context} {state : State}

/-- The value a parser answers and the state after it. -/
def run (parser : Parser α) (context : Context) (state : State) : Option (α × State) :=
  (parser context state).map fun reply => (reply.value, reply.after)

theorem reaches_of_run {parser : Parser α} {value : α} {after : State}
    (h : parser.run context state = some (value, after)) : state.Reaches after := by
  obtain ⟨reply, -, hreply⟩ := Option.map_eq_some_iff.mp h
  cases hreply
  exact reply.reaches

@[simp] theorem run_pure (value : α) :
    (pure value : Parser α).run context state = some (value, state) := rfl

@[simp] theorem run_bind (parser : Parser α) (next : α → Parser β) :
    (parser >>= next).run context state =
      (parser.run context state).bind fun found => (next found.1).run context found.2 := by
  simp only [run, bind]
  cases parser context state with
  | none => rfl
  | some reply =>
      dsimp only [Option.map_some, Option.bind_some]
      cases next reply.value context reply.after <;> rfl

/-- A parser whose answer is known goes on with what comes next.  Rewriting with this one step at a
time leaves the branches that are not taken alone. -/
theorem run_bind_of {parser : Parser α} {value : α} {after : State}
    (h : parser.run context state = some (value, after)) (next : α → Parser β) :
    (parser >>= next).run context state = (next value).run context after := by
  rw [run_bind, h, Option.bind_some]

@[simp] theorem run_ite {condition : Prop} [Decidable condition] (first second : Parser α) :
    (if condition then first else second).run context state =
      if condition then first.run context state else second.run context state := by
  split <;> rfl

@[simp] theorem run_read : (read : Parser Context).run context state = some (context, state) := rfl

@[simp] theorem run_fail : (fail : Parser α).run context state = none := rfl

@[simp] theorem run_require (condition : Bool) : (require condition).run context state =
    if condition then some ((), state) else none := by
  unfold require
  split <;> rfl

@[simp] theorem run_inspect (view : State → α) :
    (inspect view).run context state = some (view state, state) := rfl

@[simp] theorem run_token : token.run context state = some (state.token, state) := rfl

@[simp] theorem run_place : place.run context state = some (state.here, state) := rfl

theorem next_token (source : Source) :
    source.next.reading.token = (stateAt source).token := rfl

@[simp] theorem run_peek :
    peek.run context state = some (state.after.next.reading.token, state) := rfl

@[simp] theorem run_advance : advance.run context state = some ((), stateAt state.after) := rfl

@[simp] theorem run_attempt (parser : Parser α) : (attempt parser).run context state =
    match parser.run context state with
    | some (value, after) => some (some value, after)
    | none => some (none, state) := by
  simp only [run, attempt]
  cases parser context state <;> rfl

@[simp] theorem run_fits (parser : Parser α) :
    (fits parser).run context state = some ((parser.run context state).isSome, state) := by
  simp only [run, fits]
  cases parser context state <;> rfl

@[simp] theorem run_within (change : Context → Context) (parser : Parser α) :
    (within change parser).run context state = parser.run (change context) state := rfl

@[simp] theorem run_language : language.run context state = some (context.language, state) := rfl

@[simp] theorem run_typed : typed.run context state = some (context.language.typed, state) := rfl

@[simp] theorem run_at? (text : String) :
    (at? text).run context state = some (state.token.isPunctuator text, state) := rfl

@[simp] theorem run_atKeyword (text : String) :
    (atKeyword text).run context state = some (state.token.isKeyword text, state) := rfl

@[simp] theorem run_eat (text : String) : (eat text).run context state =
    if state.token.isPunctuator text then some (true, stateAt state.after)
    else some (false, state) := by
  simp only [eat, run_bind, run_at?, Option.bind_some]
  split <;> rfl

@[simp] theorem run_eatKeyword (text : String) : (eatKeyword text).run context state =
    if state.token.isKeyword text then some (true, stateAt state.after)
    else some (false, state) := by
  simp only [eatKeyword, run_bind, run_atKeyword, Option.bind_some]
  split <;> rfl

@[simp] theorem run_expect (text : String) : (expect text).run context state =
    if state.token.isPunctuator text then some ((), stateAt state.after) else none := by
  simp only [expect, run_bind, run_eat]
  split <;> rfl

@[simp] theorem run_expectKeyword (text : String) : (expectKeyword text).run context state =
    if state.token.isKeyword text then some ((), stateAt state.after) else none := by
  simp only [expectKeyword, run_bind, run_eatKeyword]
  split <;> rfl

@[simp] theorem run_startHere :
    startHere.run context state = some (state.token.start, state) := rfl

@[simp] theorem run_tokenSpan :
    tokenSpan.run context state = some (⟨state.token.start, state.token.stop⟩, state) := rfl

@[simp] theorem run_spanFrom (start : Nat) :
    (spanFrom start).run context state = some (⟨start, state.previous.offset⟩, state) := rfl

@[simp] theorem run_form (start : Nat) (kind : Form) (parts : List Node) :
    (form start kind parts).run context state =
      some (.form kind parts ⟨start, state.previous.offset⟩, state) := rfl

@[simp] theorem run_atName : atName.run context state =
    some ((match state.token.word? with
      | some word => mayName context word
      | none => false), state) := by
  simp only [atName, run_bind, run_token, Option.bind_some]
  cases state.token.word? <;> rfl

/-! ## What holds of an answer -/

/-- What holds of the value and of the state after a parser, if it answers. -/
def Post (parser : Parser α) (context : Context) (state : State) (holds : α → State → Prop) :
    Prop :=
  ∀ value after, parser.run context state = some (value, after) → holds value after

variable {holds : α → State → Prop} {parser : Parser α} {next : α → Parser β}
  {goal : β → State → Prop}

theorem post_pure {value : α} (h : holds value state) :
    (pure value : Parser α).Post context state holds := by
  rintro _ _ ⟨⟩
  exact h

theorem post_fail : (fail : Parser α).Post context state holds := nofun

theorem post_pure_bind {value : α} (h : (next value).Post context state goal) :
    (pure value >>= next).Post context state goal := by
  intro last after hrun
  rw [run_bind, run_pure] at hrun
  exact h last after hrun

theorem Post.imp {others : α → State → Prop} (h : parser.Post context state holds)
    (himp : ∀ value after, holds value after → others value after) :
    parser.Post context state others :=
  fun value after hrun => himp value after (h value after hrun)

theorem post_reaches : parser.Post context state fun _ after => state.Reaches after :=
  fun _ _ hrun => reaches_of_run hrun

theorem Post.and_reaches (h : parser.Post context state holds) :
    parser.Post context state fun value after => holds value after ∧ state.Reaches after :=
  fun value after hrun => ⟨h value after hrun, reaches_of_run hrun⟩

/-- What the second of two parsers makes of what the first one answers. -/
theorem Post.bind (hfirst : parser.Post context state holds)
    (hnext : ∀ value after, holds value after → (next value).Post context after goal) :
    (parser >>= next).Post context state goal := by
  intro value after hrun
  rw [run_bind] at hrun
  obtain ⟨⟨first, between⟩, hparser, hrun⟩ := Option.bind_eq_some_iff.mp hrun
  exact hnext first between (hfirst first between hparser) value after hrun

/-- What holds after the last of several parsers, whatever the ones before it answer. -/
theorem post_bind (hnext : ∀ value after, (next value).Post context after goal) :
    (parser >>= next).Post context state goal :=
  have htrue : parser.Post context state fun _ _ => True := fun _ _ _ => trivial
  htrue.bind fun value after _ => hnext value after

theorem post_ite {condition : Prop} [Decidable condition] {yes no : Parser α}
    (hyes : yes.Post context state holds)
    (hno : no.Post context state holds) :
    (if condition then yes else no).Post context state holds := by
  split
  · exact hyes
  · exact hno

theorem post_within {change : Context → Context}
    (h : parser.Post (change context) state holds) :
    (within change parser).Post context state holds := h

/-- An attempt answers what the parser does, or leaves the state as it is. -/
theorem post_attempt (hparser : parser.Post context state holds) :
    (attempt parser).Post context state fun value? after =>
      (∃ value, value? = some value ∧ holds value after) ∨ value? = none ∧ after = state := by
  intro value? after hrun
  rw [run_attempt] at hrun
  split at hrun
  · rename_i value _ hparser'
    cases hrun
    exact .inl ⟨value, rfl, hparser value after hparser'⟩
  · cases hrun
    exact .inr ⟨rfl, rfl⟩

/-- A parser that looks at the state and leaves it as it is. -/
def Still (parser : Parser α) : Prop :=
  ∀ context state, parser.Post context state fun _ after => after = state

theorem Still.post_bind (hstill : parser.Still)
    (hnext : ∀ value, (next value).Post context state goal) :
    (parser >>= next).Post context state goal :=
  Post.bind (hstill context state) fun value _ hafter => hafter ▸ hnext value

theorem Still.bind (hstill : parser.Still) (hnext : ∀ value, (next value).Still) :
    (parser >>= next).Still := fun context state =>
  hstill.post_bind fun value => hnext value context state

theorem still_pure (value : α) : (pure value : Parser α).Still := fun _ _ => post_pure rfl

theorem still_read : (read : Parser Context).Still := by rintro _ _ _ _ ⟨⟩; rfl

theorem still_token : token.Still := by rintro _ _ _ _ ⟨⟩; rfl

theorem still_place : place.Still := by rintro _ _ _ _ ⟨⟩; rfl

theorem still_peek : peek.Still := by rintro _ _ _ _ ⟨⟩; rfl

theorem still_at? (text : String) : (at? text).Still := by rintro _ _ _ _ ⟨⟩; rfl

theorem still_atKeyword (text : String) : (atKeyword text).Still := by rintro _ _ _ _ ⟨⟩; rfl

theorem still_require (condition : Bool) : (require condition).Still := by
  intro context state value after hrun
  rw [run_require] at hrun
  split at hrun <;> cases hrun
  rfl

theorem still_fits (parser : Parser α) : (fits parser).Still := by
  intro context state value after hrun
  rw [run_fits] at hrun
  cases hrun
  rfl

theorem post_startHere {next : Nat → Parser β}
    (hnext : (next state.token.start).Post context state goal) :
    (startHere >>= next).Post context state goal := by
  intro value after hrun
  rw [run_bind, run_startHere] at hrun
  exact hnext value after hrun

theorem post_token {next : Token → Parser β} (hnext : (next state.token).Post context state goal) :
    (token >>= next).Post context state goal := by
  intro value after hrun
  rw [run_bind, run_token] at hrun
  exact hnext value after hrun

theorem post_tokenSpan {next : Span → Parser β}
    (hnext : (next ⟨state.token.start, state.token.stop⟩).Post context state goal) :
    (tokenSpan >>= next).Post context state goal := by
  intro value after hrun
  rw [run_bind, run_tokenSpan] at hrun
  exact hnext value after hrun

theorem post_spanFrom_bind {start : Nat} {next : Span → Parser β}
    (hnext : (next ⟨start, state.previous.offset⟩).Post context state goal) :
    (spanFrom start >>= next).Post context state goal := by
  intro value after hrun
  rw [run_bind, run_spanFrom] at hrun
  exact hnext value after hrun

theorem post_require {condition : Bool} : (require condition).Post context state fun _ after =>
    after = state ∧ condition = true := by
  intro _ after hrun
  rw [run_require] at hrun
  split at hrun
  · cases hrun
    exact ⟨rfl, ‹_›⟩
  · cases hrun

end Parser

end FontHosting.Script
