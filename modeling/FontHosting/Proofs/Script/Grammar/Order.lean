import FontHosting.Proofs.Script.Extent
import FontHosting.Proofs.Script.Order

/-!
# Expressions in the order of their text

Every expression that the grammar reads stands in order (`isInOrder_grammar`).

Most rules put their tree together in the last step, from the place where they started, so all
that has to be known is that a token has been passed.  Only what is taken apart again has to be
looked into: arrays and objects, whose items are read one behind the other, and properties, whose
names are read in front of their values.  A property without a value has its name for a value;
there both start at the same place.
-/

namespace FontHosting.Script

open FontHosting.Script.Parser

/-! ## What rules tell of places -/

/-- What is told of the answer to a goal.  An element leaves its closing bracket as the current
token. -/
def Tells (before : State) : Goal → Node → State → Prop
  | .expression, node, after | .assignment, node, after | .binary _, node, after
  | .unary, node, after | .member, node, after | .classDefinition, node, after =>
      Placed before.token.start node after
  | .markup, node, after => PlacedHere before.token.start node after
  | _, _, _ => True

/-- Whether rules keep what is told of their goals. -/
def KeepsOrder (recur : Recur) : Prop :=
  ∀ goal context state, (recur goal).Post context state (Tells state goal)

variable {start : Nat} {context : Context} {state : State} {node : Node} {recur : Recur}

theorem KeepsOrder.assignment (h : KeepsOrder recur) : (recur .assignment).Places :=
  fun context state => h .assignment context state

theorem KeepsOrder.expression (h : KeepsOrder recur) : (recur .expression).Places :=
  fun context state => h .expression context state

/-! ## Functions, classes and elements -/

theorem passes_parameters : (parameters recur).Passes :=
  Passes.second fun _ => (passes_expect _).first

theorem passes_functionRest {isAsync isGenerator mayOmitBody : Bool} :
    (functionRest recur isAsync isGenerator mayOmitBody).Passes :=
  Passes.second fun _ => passes_parameters.within.first

theorem placed_functionForm {isAsync isStatement needsName : Bool}
    (h : start ≤ state.token.start) :
    (functionForm recur start isAsync isStatement needsName).Post context state
      (Placed start) := by
  unfold functionForm
  refine (passes_expectKeyword _).post_bind h fun _ _ _ => ?_
  repeat' with_reducible first
    | exact placed_form ‹_›
    | refine post_past ‹_› fun _ _ _ => ?_
    | split

theorem placed_classForm {decorators : List Node} (h : start ≤ state.token.start) :
    (classForm recur start decorators).Post context state (Placed start) := by
  unfold classForm
  refine (passes_expectKeyword _).post_bind h fun _ _ _ => ?_
  repeat' with_reducible first
    | exact placed_form ‹_›
    | refine post_past ‹_› fun _ _ _ => ?_
    | split
    | dsimp only

theorem places_decoratedClass : (decoratedClass recur).Places := fun _ _ =>
  post_startHere (post_behind le_rfl fun _ _ hbehind => placed_classForm hbehind)

theorem placedHere_form {kind : Form} {parts : List Node} (h : start ≤ state.token.start) : (do
    let stop := (← token).stop
    return .form kind parts ⟨start, stop⟩ : Parser Node).Post context state
      (PlacedHere start) := by
  rintro _ _ ⟨⟩
  exact ⟨h.trans state.start_le_stop, le_rfl, le_rfl⟩

/-- An element ends with its closing bracket, which stays the current token. -/
theorem placedHere_markupElement :
    (markupElement recur).Post context state (PlacedHere state.token.start) := by
  unfold markupElement
  refine post_startHere (post_behind le_rfl fun _ _ _ => ?_)
  repeat' with_reducible first
    | exact placedHere_form ‹_›
    | refine post_behind ‹_› fun _ _ _ => ?_
    | split

/-! ## Templates and arrays -/

/-- A token is at most one punctuator. -/
theorem Token.isPunctuator_eq_false {token : Token} {text other : String}
    (h : token.isPunctuator text = true) (hne : text ≠ other) :
    token.isPunctuator other = false := by
  unfold isPunctuator at h ⊢
  split at h
  · rename_i found hfound
    rw [beq_iff_eq] at h
    exact beq_false_of_ne (h ▸ hne)
  · cases h

theorem passes_pieces {tagged : Bool} {fuel : Nat} {done : List Node} :
    (templateLiteral.pieces recur tagged fuel done).Passes := by
  cases fuel with
  | zero => exact passes_fail
  | succ fuel =>
      refine Passes.second fun token => ?_
      split
      · refine Passes.second fun _ => Passes.second fun _ => ?_
        exact passes_advance.first
      · exact passes_fail

theorem places_templateLiteral {tagged : Bool} : (templateLiteral recur tagged).Places := by
  intro context state
  unfold templateLiteral
  refine post_startHere (post_behind le_rfl fun _ _ hbehind => ?_)
  exact passes_pieces.post_bind hbehind fun _ _ hpast => placed_form hpast

theorem places_spreadOrValue (hrecur : KeepsOrder recur) : (spreadOrValue recur).Places := by
  intro context state
  unfold spreadOrValue
  refine post_startHere (Post.bind (post_eat "...") fun found after hafter => ?_)
  cases found with
  | true =>
      refine post_past hafter fun inner _ hpast => ?_
      exact placed_spanFrom (fun _ => rfl) (fun _ => Iff.rfl) hpast
  | false =>
      obtain rfl : after = state := hafter
      exact hrecur.assignment.post le_rfl

theorem places_arrayLiteral (hrecur : KeepsOrder recur) : (arrayLiteral recur).Places := by
  intro context state
  have hitem : ∀ state, (do
      if ← at? "," then return .hole (← tokenSpan) else spreadOrValue recur :
        Parser Node).Post (enclosed context) state fun node after =>
          Placed state.token.start node after ∨
            PlacedHere state.token.start node after ∧ after.token.isPunctuator "]" = false := by
    intro state node after hrun
    rw [run_bind, run_at?, Option.bind_some] at hrun
    cases hcomma : state.token.isPunctuator "," with
    | true =>
        -- a hole is the comma behind it, which is still to be passed
        simp only [hcomma] at hrun
        cases hrun
        exact .inr ⟨⟨state.start_le_stop, le_rfl, le_rfl⟩,
          Token.isPunctuator_eq_false hcomma (by decide)⟩
    | false =>
        simp only [hcomma] at hrun
        exact .inl (places_spreadOrValue hrecur _ _ _ _ hrun)
  unfold arrayLiteral
  refine post_startHere ((passes_expect "[").post_bind le_rfl fun _ between hpast => ?_)
  refine Post.bind (post_within (post_commaList_inOrder hitem)) fun items after hitems => ?_
  rintro _ _ ⟨⟩
  exact ⟨hitems.mono (hpast.trans between.previous_le_start) le_rfl, le_rfl, le_rfl⟩

/-! ## Tokens -/

theorem isToken_plainWord : plainWord.Post context state (IsToken state) := by
  unfold plainWord
  refine post_tokenSpan (post_token ?_)
  split
  · exact isToken_advance (fun _ => rfl) fun _ => Iff.rfl
  · exact post_fail

theorem isToken_textNode : textNode.Post context state (IsToken state) := by
  unfold textNode
  refine post_tokenSpan (post_token ?_)
  split
  · exact isToken_advance (fun _ => rfl) fun _ => Iff.rfl
  · exact post_fail

theorem isToken_privateName : privateName.Post context state (IsToken state) := by
  unfold privateName
  refine post_tokenSpan (post_token ?_)
  split
  · exact isToken_advance (fun _ => rfl) fun _ => Iff.rfl
  · exact post_fail

/-- What may be a name is a word. -/
theorem post_atName : atName.Post context state fun found after =>
    after = state ∧ (found → state.token.word?.isSome) := by
  rintro found after hrun
  rw [run_atName] at hrun
  cases hword : state.token.word? with
  | none =>
      rw [hword] at hrun
      cases hrun
      exact ⟨rfl, nofun⟩
  | some word =>
      rw [hword] at hrun
      cases hrun
      exact ⟨rfl, fun _ => rfl⟩

theorem isToken_referenceName : referenceName.Post context state (IsToken state) := by
  unfold referenceName
  refine post_atName.bind fun _ after hafter => ?_
  rw [hafter.1]
  refine (still_require _).post_bind fun _ => ?_
  exact post_tokenSpan (post_token (isToken_advance (fun _ => rfl) fun _ => Iff.rfl))

/-! ## Properties -/

theorem still_marksProperty (word : String) : (marksProperty word).Still :=
  still_token.bind fun _ => still_peek.bind fun _ => still_pure _

theorem places_methodValue {isAsync isGenerator : Bool} :
    (methodValue recur isAsync isGenerator).Places := fun _ _ =>
  post_startHere (passes_functionRest.post_bind le_rfl fun _ _ hpast => placed_form hpast)

/-- The name of a property, which is a word if it starts with one. -/
theorem post_propertyName (hrecur : KeepsOrder recur) {allowPrivate : Bool} :
    (propertyName recur allowPrivate).Post context state fun found after =>
      Placed state.token.start found.2 after ∧
        (state.token.word?.isSome → found.2.span = ⟨state.token.start, state.token.stop⟩) := by
  have htoken : ∀ {parser : Parser Node}, parser.Post context state (IsToken state) →
      (do return (false, ← parser) : Parser (Bool × Node)).Post context state fun found after =>
        Placed state.token.start found.2 after ∧
          (state.token.word?.isSome →
            found.2.span = ⟨state.token.start, state.token.stop⟩) := fun h =>
    h.bind fun node after hnode => post_pure ⟨hnode.placed, fun _ => hnode.span_eq⟩
  unfold propertyName
  refine post_tokenSpan (post_token ?_)
  split
  · exact htoken isToken_textNode
  · exact htoken (isToken_advance (fun _ => rfl) fun _ => Iff.rfl)
  · exact htoken (isToken_advance (fun _ => rfl) fun _ => Iff.rfl)
  · exact (still_require _).post_bind fun _ => htoken isToken_privateName
  · rename_i hkind
    refine passes_advance.post_bind le_rfl fun _ between hpast => ?_
    have hbehind := hpast.trans between.previous_le_start
    refine Post.bind (post_within (hrecur.assignment.post hbehind)) fun key _ hkey => ?_
    refine post_placed hkey fun _ _ hkey => post_pure ⟨hkey, ?_⟩
    simp [Token.word?, hkind]
  · exact htoken isToken_plainWord

theorem placed_property {kind : PropertyKind} {computed : Bool} {key value : Node}
    (hkey : start ≤ key.start) (hle : key.start ≤ value.start) (horder : value.IsInOrder)
    (hstop : value.span.stop ≤ state.previous.offset) :
    (do return .property kind computed key value (← spanFrom start) : Parser Node).Post
      context state (Placed start) := by
  rintro _ _ ⟨⟩
  exact ⟨⟨hkey, hle, horder, hstop⟩, le_rfl, le_rfl⟩

/-- A property with a value behind its name. -/
theorem Placed.post_property {kind : PropertyKind} {computed : Bool} {key value : Node}
    {between : State} (hkey : Placed start key between)
    (hvalue : Placed between.token.start value state) :
    (do return .property kind computed key value (← spanFrom start) : Parser Node).Post
      context state (Placed start) := by
  have hle : key.start ≤ value.start := calc
    key.start ≤ key.span.stop := hkey.order.le
    _ ≤ between.previous.offset := hkey.stops
    _ ≤ between.token.start := between.previous_le_start
    _ ≤ value.start := hvalue.starts
  exact placed_property hkey.starts hle hvalue.order hvalue.stops

theorem Placed.asReference (h : Placed start node state) : Placed start node.asReference state := by
  cases node with
  | word => exact ⟨h.order, h.starts, h.stops⟩
  | _ => exact h

theorem Node.start_asReference (node : Node) : node.asReference.start = node.start := by
  cases node <;> rfl

/-- A property from its name on.  It has no value only if nothing stands in front of its name. -/
theorem placed_propertyRest (hrecur : KeepsOrder recur) {isAsync isGenerator mayShorten : Bool}
    (hbehind : start ≤ state.token.start)
    (hplain : isAsync = false → isGenerator = false → state.token.start = start)
    (hshort : mayShorten → state.token.word?.isSome) : (do
      let (computed, key) ← propertyName recur false
      if isAsync || isGenerator || (← at? "(") || (← at? "<") then
        let value ← methodValue recur isAsync isGenerator
        return .property .method computed key value (← spanFrom start)
      else if ← eat ":" then
        let value ← recur .assignment
        return .property .plain computed key value (← spanFrom start)
      else
        require mayShorten
        let value := key.asReference
        if ← eat "=" then
          let initial ← recur .assignment
          let cover ← form start .coverDefault [value, initial]
          return .property .plain false key cover (← spanFrom start)
        else return .property .plain false key value (← spanFrom start) : Parser Node).Post
          context state (Placed start) := by
  refine Post.bind (post_propertyName hrecur) fun found between hfound => ?_
  obtain ⟨computed, key⟩ := found
  obtain ⟨hkey, hspan⟩ := hfound
  have hkey := hkey.mono hbehind
  refine (still_at? _).post_bind fun opens => (still_at? _).post_bind fun opensTypes => ?_
  split
  · exact Post.bind (places_methodValue _ _) fun value _ hvalue => hkey.post_property hvalue
  rename_i hnone
  refine Post.bind (post_eat ":") fun hasValue after hafter => ?_
  cases hasValue with
  | true =>
      have hlater : between.token.start ≤ after.token.start := hafter.trans after.previous_le_start
      exact Post.bind (hrecur.assignment.post hlater) fun value _ hvalue =>
        hkey.post_property hvalue
  | false =>
      obtain rfl : after = between := hafter
      -- the name is the value, too, so it must start where the property does
      refine Post.bind post_require fun _ last hlast => ?_
      obtain ⟨rfl, hmay⟩ := hlast
      have hfirst : key.start = start := by
        rw [Node.start, hspan (hshort hmay)]
        simp only [Bool.or_eq_true, not_or, Bool.not_eq_true] at hnone
        exact hplain hnone.1.1.1 hnone.1.1.2
      refine Post.bind (post_eat "=") fun hasDefault after hafter => ?_
      cases hasDefault with
      | true =>
          have hpast : start ≤ after.previous.offset :=
            (hkey.past.trans last.previous_le_start).trans hafter
          refine post_past hpast fun initial _ hpast => ?_
          refine Post.bind (placed_form hpast) fun cover _ hcover => ?_
          exact placed_property hkey.starts (hfirst.le.trans hcover.starts) hcover.order
            hcover.stops
      | false =>
          obtain rfl : after = last := hafter
          have hvalue := hkey.asReference
          exact placed_property hkey.starts key.start_asReference.ge hvalue.order hvalue.stops

theorem places_objectProperty (hrecur : KeepsOrder recur) : (objectProperty recur).Places := by
  intro context state
  unfold objectProperty
  refine post_startHere ((still_at? _).post_bind fun _ => ?_)
  split
  · exact places_spreadOrValue hrecur _ _
  refine (still_marksProperty _).post_bind fun isGetter =>
    (still_marksProperty _).post_bind fun isSetter => ?_
  split
  · refine passes_advance.post_bind le_rfl fun _ before hpast => ?_
    have hbehind := hpast.trans before.previous_le_start
    refine Post.bind (post_propertyName hrecur) fun found between hfound => ?_
    exact Post.bind (places_methodValue _ _) fun value _ hvalue =>
      (hfound.1.mono hbehind).post_property hvalue
  refine (still_marksProperty _).post_bind fun isAsync => ?_
  dsimp only
  split
  · refine passes_advance.post_bind le_rfl fun _ before hpast => ?_
    have hbehind := hpast.trans before.previous_le_start
    refine post_behind hbehind fun isGenerator _ hbehind => ?_
    refine post_atName.bind fun mayShorten after hname => ?_
    obtain ⟨rfl, hshort⟩ := hname
    exact placed_propertyRest hrecur hbehind (fun hplain => absurd ‹isAsync› (by simp [hplain]))
      hshort
  · refine Post.bind (post_eat "*") fun isGenerator _ hbefore => ?_
    refine post_atName.bind fun mayShorten after hname => ?_
    obtain ⟨rfl, hshort⟩ := hname
    cases isGenerator with
    | true =>
        exact placed_propertyRest hrecur (hbefore.trans after.previous_le_start)
          (fun _ hplain => nomatch hplain) hshort
    | false =>
        obtain rfl : after = state := hbefore
        exact placed_propertyRest hrecur le_rfl (fun _ _ => rfl) hshort

theorem places_objectLiteral (hrecur : KeepsOrder recur) : (objectLiteral recur).Places := by
  intro context state
  have hproperty : ∀ state, (objectProperty recur).Post (enclosed context) state fun node after =>
      Placed state.token.start node after ∨
        PlacedHere state.token.start node after ∧ after.token.isPunctuator "\x7d" = false :=
    fun _ _ _ hrun => .inl (places_objectProperty hrecur _ _ _ _ hrun)
  unfold objectLiteral
  refine post_startHere ((passes_expect "\x7b").post_bind le_rfl fun _ between hpast => ?_)
  refine Post.bind (post_within (post_commaList_inOrder hproperty)) fun properties _ h => ?_
  rintro _ _ ⟨⟩
  exact ⟨h.mono (hpast.trans between.previous_le_start) le_rfl, le_rfl, le_rfl⟩

/-! ## Accesses and calls -/

/-- Whatever is accessed or called starts where it starts. -/
theorem placed_accesses {calls : Bool} {fuel : Nat} (h : Placed start node state) :
    (accesses recur calls start fuel node).Post context state (Placed start) := by
  induction fuel generalizing node state with
  | zero => exact post_pure h
  | succ fuel ih =>
      have hform : ∀ {node state kind parts}, Placed start node state → (do
          accesses recur calls start fuel (← form start kind parts) : Parser Node).Post
            context state (Placed start) := fun h =>
        (placed_form h.past).bind fun _ _ hnode => ih hnode
      have hcall : ∀ {node state optional types arguments}, Placed start node state → (do
          let span ← spanFrom start
          accesses recur calls start fuel (.call optional node types arguments span) :
            Parser Node).Post context state (Placed start) := fun h =>
        post_spanFrom_bind (ih ⟨h.past, le_rfl, le_rfl⟩)
      unfold accesses
      repeat' with_reducible first
        | exact hform ‹_›
        | exact hcall ‹_›
        | exact post_pure ‹_›
        | exact post_fail
        | refine post_placed ‹_› fun _ _ _ => ?_
        | split

/-! ## Values -/

theorem places_creation {value : Parser Node} : (creation recur value).Places := by
  intro context state
  unfold creation
  refine post_startHere ((passes_expectKeyword "new").post_bind le_rfl fun _ _ _ => ?_)
  repeat' with_reducible first
    | exact placed_form ‹_›
    | refine post_past ‹_› fun _ _ _ => ?_
    | split

theorem places_value (hrecur : KeepsOrder recur) {fuel : Nat} : (value recur fuel).Places := by
  intro context state
  cases fuel with
  | zero => exact post_fail
  | succ fuel =>
      have hleaf : ∀ {build : Span → Node}, (∀ span, (build span).span = span) →
          (∀ span, (build span).IsInOrder ↔ span.start ≤ span.stop) →
          (do advance; return build ⟨state.token.start, state.token.stop⟩ : Parser Node).Post
            context state (Placed state.token.start) := fun hspan horder =>
        (isToken_advance hspan horder).imp fun _ _ => IsToken.placed
      unfold value
      refine post_startHere (post_tokenSpan (post_token ?_))
      split
      case h_1 | h_2 | h_3 => exact hleaf (fun _ => rfl) fun _ => Iff.rfl
      case h_4 => exact places_templateLiteral _ _
      case h_5 =>
        refine Post.bind isToken_privateName fun _ _ hname => ?_
        have hname := hname.placed
        repeat' with_reducible first | exact post_pure ‹_› | refine post_placed ‹_› fun _ _ _ => ?_
      case h_6 =>
        refine passes_advance.post_bind le_rfl fun _ between hpast => ?_
        have hbehind := hpast.trans between.previous_le_start
        refine Post.bind (post_within (hrecur.expression.post hbehind)) fun inner _ hinner => ?_
        refine post_placed hinner fun _ _ hinner => ?_
        rintro _ _ ⟨⟩
        exact ⟨⟨hinner.starts, hinner.order, hinner.stops⟩, le_rfl, le_rfl⟩
      case h_7 => exact places_arrayLiteral hrecur _ _
      case h_8 => exact places_objectLiteral hrecur _ _
      case h_9 => exact hrecur .classDefinition context state
      case h_10 | h_11 =>
        refine post_behind le_rfl fun _ _ hbehind => post_token ?_
        split
        · exact post_tokenSpan ((isToken_advance (fun _ => rfl) fun _ => Iff.rfl).imp
            fun _ _ h => h.placed.mono hbehind)
        · exact post_fail
      case h_12 =>
        refine post_behind le_rfl fun _ _ hbehind => post_behind hbehind fun _ between hbehind => ?_
        refine Post.bind (hrecur .markup context between) fun element _ helement => ?_
        exact (post_advance helement).bind fun _ _ h => post_pure (h.mono hbehind)
      case h_13 =>
        have hname : referenceName.Post context state (Placed state.token.start) :=
          isToken_referenceName.imp fun _ _ => IsToken.placed
        refine post_token (post_ite hname (post_ite (hleaf (fun _ => rfl) fun _ => Iff.rfl) ?_))
        refine post_ite (hleaf (fun _ => rfl) fun _ => Iff.rfl) ?_
        refine post_ite (hleaf (fun _ => rfl) fun _ => Iff.rfl) ?_
        refine post_ite (placed_functionForm le_rfl) ?_
        refine still_asyncFunctionStarts.post_bind fun _ => post_ite ?_ ?_
        · exact post_behind le_rfl fun _ _ hbehind => placed_functionForm hbehind
        refine post_ite (hrecur .classDefinition context state) ?_
        refine post_ite (places_creation context state) (post_ite ?_ (post_ite ?_ hname))
        · -- what follows `super` is looked at before its tree is made
          refine Post.bind post_advance_stop fun _ _ hstop => post_past hstop fun _ _ hstop => ?_
          refine post_past hstop fun _ _ hstop => post_past hstop fun _ _ hstop => ?_
          refine post_past hstop fun _ _ hstop => ?_
          exact post_pure ⟨state.start_le_stop, le_rfl, hstop⟩
        · refine passes_advance.post_bind le_rfl fun _ _ _ => ?_
          repeat' with_reducible first
            | exact placed_form ‹_›
            | refine post_past ‹_› fun _ _ _ => ?_
            | split
      case h_14 => exact post_fail

theorem places_callChain (hrecur : KeepsOrder recur) : (callChain recur).Places := fun _ _ =>
  post_startHere (post_behind le_rfl fun _ _ hbehind =>
    (places_value hrecur).post_bind hbehind fun _ _ hfirst => placed_accesses hfirst)

/-! ## Operators -/

theorem places_unary (hrecur : KeepsOrder recur) : (unary recur).Places := by
  intro context state
  unfold unary
  refine post_startHere (post_token (post_ite ?_ (post_ite ?_ ?_)))
  · refine passes_advance.post_bind le_rfl fun _ _ hpast => ?_
    exact post_past hpast fun _ _ hpast => placed_form hpast
  · refine passes_advance.post_bind le_rfl fun _ _ hpast => post_past hpast fun _ _ hpast => ?_
    exact post_past hpast fun _ _ hpast => placed_form hpast
  refine post_behind le_rfl fun _ _ hbehind => post_ite ?_ ?_
  · refine passes_advance.post_bind hbehind fun _ _ hpast => ?_
    exact post_past hpast fun _ _ hpast => placed_form hpast
  refine post_behind hbehind fun _ _ hbehind => post_behind hbehind fun _ _ hbehind => ?_
  refine post_ite ?_ ?_
  · refine passes_advance.post_bind hbehind fun _ _ hpast => post_past hpast fun _ _ hpast => ?_
    refine post_past hpast fun _ _ hpast => post_past hpast fun _ _ hpast => placed_form hpast
  · refine (places_callChain hrecur).post_bind hbehind fun inner _ hinner => ?_
    refine post_placed hinner fun _ _ hinner => post_ite ?_ (post_pure hinner)
    refine post_placed hinner fun _ _ hinner => post_placed hinner fun _ _ hinner => ?_
    exact placed_form hinner.past

/-- What stands between operators starts where the first of them starts. -/
theorem placed_binaryRest {minimum fuel : Nat} (h : Placed start node state) :
    (binaryRest recur minimum start fuel node).Post context state (Placed start) := by
  induction fuel generalizing node state with
  | zero => exact post_pure h
  | succ fuel ih =>
      have hform : ∀ {node state kind parts}, Placed start node state → (do
          binaryRest recur minimum start fuel (← form start kind parts) : Parser Node).Post
            context state (Placed start) := fun h =>
        (placed_form h.past).bind fun _ _ hnode => ih hnode
      unfold binaryRest
      repeat' with_reducible first
        | exact hform ‹_›
        | exact post_pure ‹_›
        | refine post_placed ‹_› fun _ _ _ => ?_
        | split
        | dsimp only

theorem places_binary (hrecur : KeepsOrder recur) {minimum : Nat} :
    (binary recur minimum).Places := by
  intro context state
  unfold binary
  refine post_startHere ((places_unary hrecur).post_bind le_rfl fun _ _ hleft => ?_)
  exact post_placed hleft fun _ _ hleft => placed_binaryRest hleft

/-! ## Arrow functions, assignments and sequences -/

theorem places_bracketedArrow : (bracketedArrow recur).Places := by
  intro context state
  unfold bracketedArrow
  have hbehind : state.token.start ≤ state.token.start := le_rfl
  refine post_startHere ?_
  repeat' with_reducible first
    | exact placed_form ‹_›
    | refine post_past ‹_› fun _ _ _ => ?_
    | refine (passes_expect "=>").post_bind ‹_› fun _ _ _ => ?_
    | refine post_behind ‹_› fun _ _ _ => ?_
    | split
    | dsimp only

theorem places_namedArrow : (namedArrow recur).Places := by
  intro context state
  unfold namedArrow
  have hbehind : state.token.start ≤ state.token.start := le_rfl
  refine post_startHere ?_
  repeat' with_reducible first
    | exact placed_form ‹_›
    | refine post_past ‹_› fun _ _ _ => ?_
    | refine (passes_expect "=>").post_bind ‹_› fun _ _ _ => ?_
    | refine post_behind ‹_› fun _ _ _ => ?_
    | split
    | dsimp only

theorem post_arrow? : (arrow? recur).Post context state fun node? after =>
    ∀ node ∈ node?, Placed state.token.start node after := by
  have hnone : (pure none : Parser (Option Node)).Post context state fun node? after =>
      ∀ node ∈ node?, Placed state.token.start node after := post_pure nofun
  have hattempt : ∀ {parser : Parser Node}, parser.Places →
      (attempt parser).Post context state fun node? after =>
        ∀ node ∈ node?, Placed state.token.start node after := fun h =>
    (post_attempt (h context state)).imp fun node? after hnode? node hnode => by
      rcases hnode? with ⟨other, rfl, hother⟩ | ⟨rfl, -⟩
      · cases hnode
        exact hother
      · cases hnode
  unfold arrow?
  refine still_peek.post_bind fun following => ?_
  refine Still.post_bind (still_token.bind fun _ => still_pure _) fun mayStart => ?_
  refine post_ite hnone (post_ite (hattempt places_namedArrow) ?_)
  refine (still_atKeyword _).post_bind fun isAsync => ?_
  refine (still_at? _).post_bind fun opens => (still_at? _).post_bind fun opensTypes => ?_
  refine post_ite (hattempt places_bracketedArrow) (post_ite (hattempt places_namedArrow) hnone)

theorem places_yieldForm : (yieldForm recur).Places := by
  intro context state
  unfold yieldForm
  refine post_startHere (passes_advance.post_bind le_rfl fun _ _ _ => ?_)
  repeat' with_reducible first
    | exact placed_form ‹_›
    | refine post_past ‹_› fun _ _ _ => ?_
    | split
    | dsimp only

theorem placed_conditionalRest (h : Placed start node state) :
    (conditionalRest recur start node).Post context state (Placed start) := by
  unfold conditionalRest
  refine post_placed h fun _ _ h => post_ite ?_ (post_pure h)
  refine post_placed h fun _ _ h => post_placed h fun _ _ h => post_placed h fun _ _ h => ?_
  exact placed_form h.past

theorem places_assignment (hrecur : KeepsOrder recur) : (assignment recur).Places := by
  intro context state
  unfold assignment
  refine still_read.post_bind fun _ => (still_atKeyword _).post_bind fun _ => ?_
  refine post_ite (places_yieldForm context state) ?_
  refine Post.bind post_arrow?.and_reaches fun arrow? between harrow => ?_
  obtain ⟨harrow, hreaches⟩ := harrow
  split
  · exact post_pure (harrow _ rfl)
  · refine Post.imp (?_ : Parser.Post _ _ _ (Placed between.token.start)) fun _ _ h =>
      h.mono hreaches.start_le
    refine post_startHere (Post.bind (hrecur (.binary 0) context between) fun left _ hleft => ?_)
    refine post_placed hleft fun operator _ hleft => post_ite ?_ (placed_conditionalRest hleft)
    dsimp only
    split
    · exact post_fail
    · refine post_placed hleft fun _ _ hleft => post_placed hleft fun _ _ hleft => ?_
      exact placed_form hleft.past

theorem places_expression (hrecur : KeepsOrder recur) : (expression recur).Places := by
  intro context state
  unfold expression
  refine post_startHere (hrecur.assignment.post_bind le_rfl fun first _ hfirst => ?_)
  refine post_placed hfirst fun _ _ hfirst => post_ite (post_pure hfirst) ?_
  exact placed_form hfirst.past

/-! ## The grammar -/

theorem keepsOrder_rule (hrecur : KeepsOrder recur) : KeepsOrder (rule recur) := by
  intro goal context state
  cases goal with
  | expression => exact places_expression hrecur context state
  | assignment => exact places_assignment hrecur context state
  | binary minimum => exact places_binary hrecur context state
  | unary => exact places_unary hrecur context state
  | member => exact places_callChain hrecur context state
  | classDefinition => exact places_decoratedClass context state
  | markup => exact placedHere_markupElement
  | _ => exact fun _ _ _ => trivial

theorem keepsOrder_grammar (depth : Nat) : KeepsOrder (grammar depth) := by
  induction depth with
  | zero => exact fun _ _ _ => post_fail
  | succ depth ih => exact keepsOrder_rule ih

/-- **Every expression that is read stands in order.** -/
theorem isInOrder_grammar {depth : Nat} {goal : Goal} (hgoal : goal ∈ [.expression, .assignment])
    {after : State} (h : (grammar depth goal).run context state = some (node, after)) :
    node.IsInOrder := by
  have htells := keepsOrder_grammar depth goal context state node after h
  simp only [List.mem_cons, List.not_mem_nil, or_false] at hgoal
  rcases hgoal with rfl | rfl
  all_goals exact htells.order

end FontHosting.Script
