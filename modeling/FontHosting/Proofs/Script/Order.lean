import FontHosting.Proofs.Script.Run
import Mathlib.Order.Basic

/-!
# Trees in the order of their text

The parts of an array, of an object and of a value in brackets stand one behind the other, each
inside of what it is a part of (`Node.IsInOrder`).

What a parser answers starts at or behind the token that the parser starts with, and ends at or
in front of the end of the last token passed (`Placed`).  A parser never moves back, which is
known from its type, so two facts are carried through its steps: that it is behind the place where
the tree is to start (`post_behind`), and, as soon as a step must pass a token (`Parser.Passes`),
that this place has been passed (`post_past`).  From then on every form that is put together from
there on is in order, whatever its parts are.
-/

namespace FontHosting.Script

open FontHosting.Script.Parser

/-! ## Trees in order -/

mutual

/-- Whether the parts of a literal stand one behind the other, each inside of what it is a part
of.  The name of a property may be its value, too. -/
def Node.IsInOrder : Node → Prop
  | .parenthesized inner span =>
      span.start ≤ inner.span.start ∧ inner.IsInOrder ∧ inner.span.stop ≤ span.stop
  | .array items span => AreInOrder span.start items span.stop
  | .object properties span => AreInOrder span.start properties span.stop
  | .property _ _ key value span =>
      span.start ≤ key.start ∧ key.start ≤ value.start ∧ value.IsInOrder ∧
        value.span.stop ≤ span.stop
  | node => node.span.start ≤ node.span.stop

/-- Whether trees stand one behind the other between two places. -/
def AreInOrder : Nat → List Node → Nat → Prop
  | start, [], stop => start ≤ stop
  | start, node :: rest, stop =>
      start ≤ node.span.start ∧ node.IsInOrder ∧ AreInOrder node.span.stop rest stop

end

mutual

theorem Node.IsInOrder.le : ∀ {node : Node}, node.IsInOrder → node.span.start ≤ node.span.stop
  | .parenthesized _ _, ⟨hstart, h, hstop⟩ => (hstart.trans h.le).trans hstop
  | .array _ _, h | .object _ _, h => AreInOrder.le h
  | .property _ _ _ _ _, ⟨hkey, hvalue, h, hstop⟩ =>
      ((hkey.trans hvalue).trans h.le).trans hstop
  | .reference .., h | .binding .., h | .word .., h | .text .., h | .number .., h
  | .boolean .., h | .null .., h | .hole .., h | .spread .., h | .call .., h
  | .declarator .., h | .variables .., h | .importSpecifier .., h | .importFrom .., h
  | .exported .., h | .form .., h => h

theorem AreInOrder.le : ∀ {start : Nat} {nodes : List Node} {stop : Nat},
    AreInOrder start nodes stop → start ≤ stop
  | _, [], _, h => h
  | _, _ :: _, _, ⟨hstart, hnode, hrest⟩ => (hstart.trans hnode.le).trans hrest.le

end

theorem AreInOrder.mono {start stop before behind : Nat} {nodes : List Node}
    (h : AreInOrder start nodes stop) (hstart : before ≤ start) (hstop : stop ≤ behind) :
    AreInOrder before nodes behind := by
  induction nodes generalizing start before with
  | nil => exact (hstart.trans h).trans hstop
  | cons node rest ih =>
      obtain ⟨hfirst, hnode, hrest⟩ := h
      exact ⟨hstart.trans hfirst, hnode, ih hrest le_rfl⟩

theorem AreInOrder.append_singleton {start middle stop : Nat} {nodes : List Node} {node : Node}
    (h : AreInOrder start nodes middle) (hstart : middle ≤ node.span.start)
    (hnode : node.IsInOrder) (hstop : node.span.stop ≤ stop) :
    AreInOrder start (nodes ++ [node]) stop := by
  induction nodes generalizing start with
  | nil => exact ⟨h.trans hstart, hnode, hstop⟩
  | cons first rest ih =>
      obtain ⟨hfirst, hinside, hrest⟩ := h
      exact ⟨hfirst, hinside, ih hrest⟩

/-! ## Places of trees -/

/-- Whether a tree stands in order behind a place and in front of the end of the last token
passed. -/
structure Placed (start : Nat) (node : Node) (after : State) : Prop where
  order : node.IsInOrder
  starts : start ≤ node.span.start
  stops : node.span.stop ≤ after.previous.offset

/-- Whether a tree stands in order behind a place and in front of the end of the current token. -/
structure PlacedHere (start : Nat) (node : Node) (after : State) : Prop where
  order : node.IsInOrder
  starts : start ≤ node.span.start
  stops : node.span.stop ≤ after.token.stop

variable {start : Nat} {context : Context} {state : State} {node : Node}

theorem Placed.past (h : Placed start node state) : start ≤ state.previous.offset := calc
  start ≤ node.span.start := h.starts
  _ ≤ node.span.stop := h.order.le
  _ ≤ state.previous.offset := h.stops

theorem Placed.mono {before : Nat} (h : Placed start node state) (hstart : before ≤ start) :
    Placed before node state :=
  ⟨h.order, hstart.trans h.starts, h.stops⟩

theorem Placed.later {after : State} (h : Placed start node state)
    (hreaches : state.Reaches after) : Placed start node after :=
  ⟨h.order, h.starts, h.stops.trans hreaches.previous_le⟩

theorem PlacedHere.later {after : State} (h : PlacedHere start node state)
    (hpassed : state.after.offset ≤ after.previous.offset) : Placed start node after :=
  ⟨h.order, h.starts, (h.stops.trans state.reading.stop_eq.le).trans hpassed⟩

theorem State.token_start (state : State) : state.token.start = state.here.offset :=
  state.reading.start_eq

theorem State.previous_le_start (state : State) :
    state.previous.offset ≤ state.token.start := by
  rw [state.token_start]
  exact state.leads.offset_le

theorem State.start_le_stop (state : State) : state.token.start ≤ state.token.stop := by
  rw [state.token_start, State.token, state.reading.stop_eq]
  exact state.reading.leads.offset_le

/-- Whether a tree is the token that was the current one before, and has been passed. -/
structure IsToken (before : State) (node : Node) (after : State) : Prop where
  order : node.IsInOrder
  span_eq : node.span = ⟨before.token.start, before.token.stop⟩
  passed : before.token.stop ≤ after.previous.offset

theorem IsToken.placed {after : State} (h : IsToken state node after) :
    Placed state.token.start node after :=
  ⟨h.order, h.span_eq ▸ le_rfl, h.span_eq ▸ h.passed⟩

theorem State.Reaches.start_le {state after : State} (h : state.Reaches after) :
    state.token.start ≤ after.token.start := by
  rw [state.token_start, after.token_start]
  exact h.leads.offset_le

/-! ## Steps of parsers -/

namespace Parser

variable {α β : Type} {parser : Parser α} {next : α → Parser β} {goal : β → State → Prop}

/-- Whether a parser passes a token. -/
def Passes (parser : Parser α) : Prop :=
  ∀ context state, parser.Post context state fun _ after =>
    state.token.start ≤ after.previous.offset

/-- A parser stays behind a place that it is behind. -/
theorem post_behind (h : start ≤ state.token.start)
    (hnext : ∀ value after, start ≤ after.token.start → (next value).Post context after goal) :
    (parser >>= next).Post context state goal :=
  Post.bind post_reaches fun value after hreaches =>
    hnext value after (h.trans hreaches.start_le)

/-- A place that has been passed stays passed. -/
theorem post_past (h : start ≤ state.previous.offset)
    (hnext : ∀ value after, start ≤ after.previous.offset →
      (next value).Post context after goal) :
    (parser >>= next).Post context state goal :=
  Post.bind post_reaches fun value after hreaches =>
    hnext value after (h.trans hreaches.previous_le)

theorem Passes.post_bind (hpasses : parser.Passes) (h : start ≤ state.token.start)
    (hnext : ∀ value after, start ≤ after.previous.offset →
      (next value).Post context after goal) :
    (parser >>= next).Post context state goal :=
  Post.bind (hpasses context state) fun value after hpassed => hnext value after (h.trans hpassed)

theorem Passes.first (h : parser.Passes) : (parser >>= next).Passes := fun _ _ =>
  h.post_bind le_rfl fun _ _ hpassed _ _ hrun => hpassed.trans (reaches_of_run hrun).previous_le

theorem Passes.second (h : ∀ value, (next value).Passes) : (parser >>= next).Passes := fun _ _ =>
  post_behind le_rfl fun value _ hbehind last after hrun =>
    hbehind.trans (h value _ _ last after hrun)

theorem Passes.within {change : Context → Context} (h : parser.Passes) :
    (within change parser).Passes := fun context state => h (change context) state

theorem passes_fail : (fail : Parser α).Passes := fun _ _ => post_fail

theorem passes_advance : advance.Passes := by
  rintro _ state _ _ ⟨⟩
  rw [state.token_start]
  exact state.reading.leads.offset_le

theorem post_advance_stop : advance.Post context state fun _ after =>
    state.token.stop ≤ after.previous.offset := by
  rintro _ _ ⟨⟩
  exact state.reading.stop_eq.le

/-- When the current token is passed, what ends with it is passed. -/
theorem post_advance (h : PlacedHere start node state) :
    advance.Post context state fun _ after => Placed start node after := by
  rintro _ _ ⟨⟩
  exact h.later le_rfl

theorem passes_expect (text : String) : (expect text).Passes := by
  intro context state _ after hrun
  rw [run_expect] at hrun
  split at hrun
  · cases hrun
    exact passes_advance context state _ _ rfl
  · cases hrun

theorem passes_expectKeyword (text : String) : (expectKeyword text).Passes := by
  intro context state _ after hrun
  rw [run_expectKeyword] at hrun
  split at hrun
  · cases hrun
    exact passes_advance context state _ _ rfl
  · cases hrun

/-- What is passed over if it is there. -/
theorem post_eat (text : String) : (eat text).Post context state fun found after =>
    if found then state.token.start ≤ after.previous.offset else after = state := by
  intro found after hrun
  rw [run_eat] at hrun
  split at hrun
  · cases hrun
    exact passes_advance context state _ _ rfl
  · cases hrun
    rfl

/-- A tree that is put together from a place that has been passed. -/
theorem placed_spanFrom {build : Span → Node} (hspan : ∀ span, (build span).span = span)
    (horder : ∀ span, (build span).IsInOrder ↔ span.start ≤ span.stop)
    (h : start ≤ state.previous.offset) :
    (do return build (← spanFrom start) : Parser Node).Post context state (Placed start) := by
  rintro _ _ ⟨⟩
  exact ⟨(horder _).mpr h, (hspan _).symm ▸ le_rfl, (hspan _).symm ▸ le_rfl⟩

theorem placed_form {kind : Form} {parts : List Node} (h : start ≤ state.previous.offset) :
    (form start kind parts).Post context state (Placed start) :=
  placed_spanFrom (fun _ => rfl) (fun _ => Iff.rfl) h

/-- A tree that is the current token. -/
theorem isToken_advance {build : Span → Node} (hspan : ∀ span, (build span).span = span)
    (horder : ∀ span, (build span).IsInOrder ↔ span.start ≤ span.stop) :
    (do advance; return build ⟨state.token.start, state.token.stop⟩ : Parser Node).Post
      context state (IsToken state) := by
  rintro _ _ ⟨⟩
  exact ⟨(horder _).mpr state.start_le_stop, hspan _, state.reading.stop_eq.le⟩

/-- What has been placed stays placed. -/
theorem post_placed (h : Placed start node state)
    (hnext : ∀ value after, Placed start node after → (next value).Post context after goal) :
    (parser >>= next).Post context state goal :=
  Post.bind post_reaches fun value after hreaches => hnext value after (h.later hreaches)

/-- Whether what a parser answers stands in order behind the place where the parser starts. -/
def Places (parser : Parser Node) : Prop :=
  ∀ context state, parser.Post context state (Placed state.token.start)

variable {parser : Parser Node} {next : Node → Parser β}

theorem Places.post (h : parser.Places) (hstart : start ≤ state.token.start) :
    parser.Post context state (Placed start) := fun node after hrun =>
  (h context state node after hrun).mono hstart

theorem Places.post_bind (h : parser.Places) (hstart : start ≤ state.token.start)
    (hnext : ∀ node after, Placed start node after → (next node).Post context after goal) :
    (parser >>= next).Post context state goal :=
  (h.post hstart).bind hnext

/-! ## Lists -/

/-- Trees that steps answer one after the other stand one behind the other. -/
theorem post_collect_inOrder {step : Parser (Option Node)}
    (hstep : ∀ state, step.Post context state fun node? after =>
      ∀ node ∈ node?, Placed state.token.start node after)
    {fuel : Nat} {done : List Node} (hdone : AreInOrder start done.reverse state.token.start) :
    (collect step fuel done).Post context state fun nodes after =>
      AreInOrder start nodes after.token.start := by
  induction fuel generalizing done state with
  | zero => exact post_pure hdone
  | succ fuel ih =>
      refine Post.bind (hstep state).and_reaches fun node? after hafter => ?_
      obtain ⟨hnode, hreaches⟩ := hafter
      split
      · exact post_pure (hdone.mono le_rfl hreaches.start_le)
      · obtain ⟨horder, hstart, hstop⟩ := hnode _ rfl
        refine ih ?_
        rw [List.reverse_cons]
        exact hdone.append_singleton hstart horder (hstop.trans after.previous_le_start)

/-- Trees with commas between them stand one behind the other.  A tree may end with the current
token, if that is not the closing one. -/
theorem post_commaList_inOrder {close : String} {item : Parser Node}
    (hitem : ∀ state, item.Post context state fun node after =>
      Placed state.token.start node after ∨
        PlacedHere state.token.start node after ∧ after.token.isPunctuator close = false) :
    (commaList close item).Post context state fun nodes after =>
      AreInOrder state.token.start nodes after.previous.offset := by
  have hstep : ∀ state, (do
      if ← at? close then return none
      else
        let value ← item
        if !(← at? close) then expect ","
        return some value : Parser (Option Node)).Post context state fun node? after =>
          ∀ node ∈ node?, Placed state.token.start node after := by
    intro state
    refine (still_at? close).post_bind fun closes => ?_
    split
    · exact post_pure nofun
    refine Post.bind (hitem state) fun node between hnode => ?_
    have hlater : ∀ {after}, between.Reaches after →
        between.after.offset ≤ after.previous.offset ∨ between.token.isPunctuator close = true →
        ∀ other ∈ some node, Placed state.token.start other after := by
      rintro after hreaches hpassed _ ⟨⟩
      rcases hnode with hplaced | ⟨hhere, hopen⟩
      · exact hplaced.later hreaches
      · exact hhere.later (hpassed.resolve_right (by simp [hopen]))
    intro node? after hrun
    rw [run_bind, run_at?, Option.bind_some] at hrun
    cases hclose : between.token.isPunctuator close with
    | true =>
        simp only [hclose] at hrun
        cases hrun
        exact hlater (.refl _) (.inr hclose)
    | false =>
        simp only [hclose, Bool.not_false, if_true, run_bind, run_expect] at hrun
        split at hrun
        · cases hrun
          exact hlater (.inr between.reading.leads) (.inl le_rfl)
        · cases hrun
  unfold commaList
  have hmany : (many _).Post context state fun nodes after =>
      AreInOrder state.token.start nodes after.token.start :=
    still_place.post_bind fun _ => post_collect_inOrder hstep (le_refl _)
  refine Post.bind hmany fun nodes between hnodes => ?_
  refine Post.bind (passes_expect close context between) fun _ after hpassed => ?_
  exact post_pure (hnodes.mono le_rfl hpassed)

end Parser

end FontHosting.Script
