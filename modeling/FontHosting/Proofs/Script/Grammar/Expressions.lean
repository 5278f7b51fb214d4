import FontHosting.Proofs.Script.Grammar.Types

/-!
# Names in expressions

The rules for markup and for expressions spell the names in their answers.
-/

namespace FontHosting.Script

open FontHosting.Script.Parser
open HasNames (AreWritten)

variable {origin : Source} {stop : Nat} {recur : Recur}

/-! ## Markup -/

theorem spells_markupWord : Spells origin stop markupWord := by
  intro context state horigin named after hrun hstop
  by_cases hword : state.token.isWord = true <;> simp [markupWord, hword] at hrun
  obtain ⟨rfl, rfl⟩ := hrun
  have hplace : state.token.start = state.here.offset := state.reading.start_eq
  have hlt := state.reading.passes_markupName hword
  exact ⟨Nat.lt_of_lt_of_le (hplace ▸ hlt) hstop, state.here, horigin, hplace.symm,
    state.reading.writes_markupName hword⟩

theorem spells_markupName : Spells origin stop markupName := by
  unfold markupName
  refine spells_step fun start => spells_markupWord.bind fun named hnamed => ?_
  refine spells_step fun namespaced => ?_
  split
  · exact spells_markupWord.bind fun member hmember => spells_form (by simp_all)
  refine spells_step fun pointed => ?_
  split
  · refine Spells.bind (spells_many (spells_step fun more => ?_)) fun members hmembers =>
      spells_form (areWritten_cons.mpr ⟨?_, hmembers⟩)
    · split
      · exact spells_markupWord.bind fun _ hmember => spells_pure (areWritten_some.mpr hmember)
      · exact spells_pure areWritten_none
    · split
      · trivial
      · exact hnamed
  · split
    · exact spells_pure trivial
    split
    · exact spells_pure hnamed
    · exact spells_pure hnamed

theorem spells_markupExpression (hrecur : SpellsAll origin stop recur) :
    Spells origin stop (markupExpression recur) := by
  unfold markupExpression
  repeat' with_reducible first
    | exact spells_pure (by simp_all) | exact spells_form (by simp_all)
    | refine (spells_within (hrecur _)).bind fun _ _ => ?_ | refine spells_pure_bind ?_
    | refine spells_step fun _ => ?_

theorem spells_markupValue (hrecur : SpellsAll origin stop recur) :
    Spells origin stop (markupValue recur) := by
  unfold markupValue
  repeat' with_reducible first
    | exact spells_pure (by simp_all) | exact spells_textNode
    | exact spells_markupExpression hrecur | exact spells_fail
    | refine (hrecur _).bind fun _ _ => ?_ | refine spells_pure_bind ?_
    | refine spells_step fun _ => ?_ | refine spells_ite (fun _ => ?_) fun _ => ?_ | split

theorem spells_markupAttribute (hrecur : SpellsAll origin stop recur) :
    Spells origin stop (markupAttribute recur) := by
  unfold markupAttribute
  repeat' with_reducible first
    | exact spells_pure (by simp_all) | exact spells_form (by simp_all)
    | refine (hrecur _).bind fun _ _ => ?_ | refine spells_markupWord.bind fun _ _ => ?_
    | refine (spells_markupValue hrecur).bind fun _ _ => ?_ | refine spells_pure_bind ?_
    | refine (spells_form (by simp_all)).bind fun _ _ => ?_ | refine spells_step fun _ => ?_
    | refine spells_ite (fun _ => ?_) fun _ => ?_

theorem spells_markupChildren (hrecur : SpellsAll origin stop recur) {fuel : Nat}
    {done : List Node} (hdone : AreWritten origin stop done) :
    Spells origin stop (markupChildren recur fuel done) := by
  induction fuel generalizing done with
  | zero => exact spells_fail
  | succ fuel ih =>
      unfold markupChildren
      refine spells_step fun token => ?_
      split
      · refine spells_step fun span => ?_
        extract_lets found next
        have hfound : AreWritten origin stop found := by
          dsimp only [found]
          split
          · exact hdone
          · simpa using hdone
        refine spells_step fun _ => spells_step fun element => ?_
        split
        · refine spells_step fun following => ?_
          split
          · exact spells_pure (areWritten_reverse.mpr hfound)
          · exact (hrecur .markup).bind fun _ hchild => spells_step fun _ =>
              ih (areWritten_cons.mpr ⟨hchild, hfound⟩)
        · refine spells_step fun start => spells_step fun _ => ?_
          have hnext : ∀ child, AreWritten origin stop child → Spells origin stop (next child) :=
            fun child hchild => spells_step fun _ => ih (areWritten_cons.mpr ⟨hchild, hfound⟩)
          repeat' with_reducible first
            | exact hnext _ (by simp_all) | refine (spells_form (by simp_all)).bind fun _ _ => ?_
            | refine (hrecur _).bind fun _ _ => ?_
            | refine (spells_within (hrecur _)).bind fun _ _ => ?_ | refine spells_step fun _ => ?_
            | split
      · exact spells_fail

theorem spells_markupElement (hrecur : SpellsAll origin stop recur) :
    Spells origin stop (markupElement recur) := by
  unfold markupElement
  refine spells_step fun start => spells_step fun _ => spells_step fun fragment => ?_
  split
  · exact spells_step fun _ => spells_step fun place =>
      (spells_markupChildren hrecur areWritten_nil).bind fun _ hchildren => spells_step fun _ =>
        spells_step fun _ => spells_step fun _ => spells_step fun _ => spells_step fun _ =>
          spells_pure (areWritten_list.mpr hchildren)
  · refine spells_markupName.bind fun name hname => spells_step fun angled => ?_
    refine spells_step fun typed => ?_
    extract_lets next
    have hnext : ∀ arguments, AreWritten origin stop arguments →
        Spells origin stop (next arguments) := by
      intro arguments harguments
      refine Spells.bind (spells_many (spells_step fun _ => spells_step fun _ =>
        spells_unless (spells_markupAttribute hrecur))) fun attributes hattributes => ?_
      refine spells_step fun ends => ?_
      split
      · exact spells_step fun _ => spells_step fun _ => spells_step fun _ =>
          spells_pure (by simp_all)
      · exact spells_step fun _ => spells_step fun place =>
          (spells_markupChildren hrecur areWritten_nil).bind fun _ hchildren => spells_step fun _ =>
            spells_step fun _ => spells_markupName.bind fun _ hclosing => spells_step fun _ =>
              spells_step fun _ => spells_step fun _ => spells_step fun _ =>
                spells_pure (by simp_all)
    split
    · exact (spells_typeArguments hrecur).bind hnext
    · exact spells_pure_bind (hnext _ areWritten_nil)

/-! ## Targets of assignments -/

theorem areWritten_ite {condition : Bool} {node : Node} (h : node.IsWritten origin stop) :
    AreWritten origin stop (if condition then some node else none) := by
  split
  · exact areWritten_some.mpr h
  · exact areWritten_none

/-- Targets hold the names of the trees that they are read from. -/
theorem areWritten_targets :
    (∀ node, node.IsWritten origin stop → AreWritten origin stop (toTarget? node)) ∧
    (∀ items : List Node, AreWritten origin stop items →
      AreWritten origin stop (toTargetItems? items)) ∧
    (∀ node, node.IsWritten origin stop → AreWritten origin stop (toDefaulted? node)) ∧
    (∀ properties : List Node, AreWritten origin stop properties →
      AreWritten origin stop (toTargetProperties? properties)) := by
  have hobject : ∀ properties span, (AreWritten origin stop properties →
      AreWritten origin stop (toTargetProperties? properties)) →
      (Node.object properties span).IsWritten origin stop →
      AreWritten origin stop ((toTargetProperties? properties).map fun parts =>
        Node.form .objectTarget parts span) := fun properties span ih h =>
    areWritten_map (ih (areWritten_list.mp h)) fun _ => areWritten_list.mpr
  have harray : ∀ items span, (AreWritten origin stop items →
      AreWritten origin stop (toTargetItems? items)) →
      (Node.array items span).IsWritten origin stop →
      AreWritten origin stop ((toTargetItems? items).map fun parts =>
        Node.form .arrayTarget parts span) := fun items span ih h =>
    areWritten_map (ih (areWritten_list.mp h)) fun _ => areWritten_list.mpr
  have hcons : ∀ {first : Node} {others : Option (List Node)}, first.IsWritten origin stop →
      AreWritten origin stop others →
      AreWritten origin stop (others.bind fun others => some (first :: others)) :=
    fun hfirst hothers => areWritten_bind hothers fun _ hothers =>
      areWritten_some.mpr (areWritten_cons.mpr ⟨hfirst, hothers⟩)
  apply toTarget?.mutual_induct
  case case1 | case6 => exact hobject
  case case2 | case7 => exact harray
  case case3 | case4 =>
    intro node hno hnone _ h
    unfold toTarget?
    split
    · exact (hno _ _ rfl).elim
    · exact (hnone _ _ rfl).elim
    · exact areWritten_ite h
  case case5 => exact fun target initial span h => areWritten_some.mpr h
  case case8 | case9 =>
    intro node hnot hno hnone _ h
    unfold toDefaulted?
    split
    · exact (hnot _ _ _ rfl).elim
    · exact (hno _ _ rfl).elim
    · exact (hnone _ _ rfl).elim
    · exact areWritten_ite h
  case case10 | case15 => exact fun _ => areWritten_some.mpr areWritten_nil
  case case11 => exact fun span rest ih h => hcons trivial (ih (areWritten_cons.mp h).2)
  case case12 =>
    intro inner span rest hlast ih h
    rw [toTargetItems?, if_pos hlast]
    exact areWritten_bind (ih (areWritten_cons.mp h).1) fun target htarget =>
      areWritten_some.mpr (by simpa using htarget)
  case case13 =>
    intro inner span rest hlast h
    rw [toTargetItems?, if_neg hlast]
    exact areWritten_none
  case case14 =>
    intro item rest hno hnone hitem hrest h
    obtain ⟨h, hothers⟩ := areWritten_cons.mp h
    rw [toTargetItems?]
    · exact areWritten_bind (hitem h) fun target htarget => hcons htarget (hrest hothers)
    · exact hno
    · exact hnone
  case case16 =>
    intro inner span rest hlast h
    rw [toTargetProperties?, if_pos hlast]
    exact areWritten_some.mpr (by simpa using (areWritten_cons.mp h).1)
  case case17 =>
    intro inner span rest hlast h
    rw [toTargetProperties?, if_neg hlast]
    exact areWritten_none
  case case18 =>
    intro computed key span rest parts valueSpan ih h
    obtain ⟨hproperty, hothers⟩ := areWritten_cons.mp h
    exact hcons (by simpa using hproperty) (ih hothers)
  case case19 =>
    intro computed key span rest value hcover ih hread h
    obtain ⟨hproperty, hothers⟩ := areWritten_cons.mp h
    unfold toTargetProperties?
    extract_lets next
    have hnext : ∀ target, AreWritten origin stop target → AreWritten origin stop (next target) :=
      fun target htarget => hcons ⟨hproperty.1, htarget, trivial⟩ (ih hothers)
    split
    · exact (hcover _ _ rfl).elim
    · exact areWritten_bind (hread hproperty.2) hnext
  case case20 =>
    intro property rest hno hnone h
    rw [toTargetProperties?]
    · exact areWritten_none
    · exact hno
    · exact hnone

/-! ## Expressions -/

theorem spells_templateLiteral (hrecur : SpellsAll origin stop recur) {tagged : Bool} :
    Spells origin stop (templateLiteral recur tagged) := by
  have hpieces : ∀ fuel done, AreWritten origin stop done →
      Spells origin stop (templateLiteral.pieces recur tagged fuel done) := by
    intro fuel
    induction fuel with
    | zero => exact fun _ _ => spells_fail
    | succ fuel ih =>
        intro done hdone
        unfold templateLiteral.pieces
        repeat' with_reducible first
          | exact spells_pure (by simp_all) | exact spells_fail | refine ih _ (by simp_all)
          | refine (spells_within (hrecur _)).bind fun _ _ => ?_ | refine spells_step fun _ => ?_
          | split
  unfold templateLiteral
  exact spells_step fun start => spells_step fun place =>
    (hpieces _ _ areWritten_nil).bind fun _ hparts => spells_form hparts

theorem spells_spreadOrValue (hrecur : SpellsAll origin stop recur) :
    Spells origin stop (spreadOrValue recur) := by
  unfold spreadOrValue
  repeat' with_reducible first
    | exact spells_pure (by simp_all) | exact hrecur _ | refine (hrecur _).bind fun _ _ => ?_
    | refine spells_pure_bind ?_ | refine spells_step fun _ => ?_
    | refine spells_ite (fun _ => ?_) fun _ => ?_

theorem spells_arrayLiteral (hrecur : SpellsAll origin stop recur) :
    Spells origin stop (arrayLiteral recur) := by
  unfold arrayLiteral
  refine spells_step fun start => spells_step fun _ => Spells.bind
    (spells_within (spells_commaList (spells_step fun hole => ?_))) fun items hitems =>
      spells_step fun span => spells_pure (areWritten_list.mpr hitems)
  split
  · exact spells_step fun _ => spells_pure trivial
  · exact spells_spreadOrValue hrecur

theorem spells_methodValue (hrecur : SpellsAll origin stop recur) {isAsync isGenerator : Bool} :
    Spells origin stop (methodValue recur isAsync isGenerator) := by
  unfold methodValue
  repeat' with_reducible first
    | exact spells_pure (by simp_all) | exact spells_form (by simp_all)
    | refine (spells_functionRest hrecur).bind fun _ _ => ?_ | refine spells_pure_bind ?_
    | refine spells_step fun _ => ?_

theorem spells_objectProperty (hrecur : SpellsAll origin stop recur) :
    Spells origin stop (objectProperty recur) := by
  unfold objectProperty
  repeat' with_reducible first
    | exact spells_pure (by simp_all) | exact spells_form (by simp_all)
    | exact spells_spreadOrValue hrecur | refine (hrecur _).bind fun _ _ => ?_
    | refine (spells_propertyName hrecur).bind fun _ _ => ?_
    | refine (spells_methodValue hrecur).bind fun _ _ => ?_ | refine spells_pure_bind ?_
    | refine (spells_form (by simp_all)).bind fun _ _ => ?_ | refine spells_step fun _ => ?_
    | refine spells_ite (fun _ => ?_) fun _ => ?_

theorem spells_objectLiteral (hrecur : SpellsAll origin stop recur) :
    Spells origin stop (objectLiteral recur) := by
  unfold objectLiteral
  exact spells_step fun start => spells_step fun _ =>
    (spells_within (spells_commaList (spells_objectProperty hrecur))).bind fun _ hproperties =>
      spells_step fun _ => spells_pure (areWritten_list.mpr hproperties)

theorem spells_callArguments (hrecur : SpellsAll origin stop recur) :
    Spells origin stop (callArguments recur) :=
  spells_step fun _ => spells_within (spells_commaList (spells_spreadOrValue hrecur))

theorem spells_typeArgumentsInExpression (hrecur : SpellsAll origin stop recur) :
    Spells origin stop (typeArgumentsInExpression recur) := by
  unfold typeArgumentsInExpression
  refine spells_step fun angled => spells_step fun typed => ?_
  split
  · exact spells_attempt ((spells_typeArguments hrecur).bind fun _ harguments =>
      spells_step fun _ => spells_step fun _ => spells_pure harguments)
  · exact spells_pure areWritten_none

theorem spells_memberName : Spells origin stop memberName := by
  unfold memberName
  refine spells_step fun token => ?_
  split
  · exact spells_privateName
  · exact spells_plainWord

theorem spells_accesses (hrecur : SpellsAll origin stop recur) {calls : Bool} {start fuel : Nat}
    {node : Node} (hnode : AreWritten origin stop node) :
    Spells origin stop (accesses recur calls start fuel node) := by
  induction fuel generalizing node with
  | zero => exact spells_pure hnode
  | succ fuel ih =>
      unfold accesses
      repeat' with_reducible first
        | exact spells_pure hnode | exact spells_fail | exact ih (by simp_all)
        | refine (spells_templateLiteral hrecur).bind fun _ _ => ?_
        | refine (spells_form (by simp_all)).bind fun _ _ => ?_
        | refine spells_memberName.bind fun _ _ => ?_
        | refine (spells_typeArgumentsInExpression hrecur).bind fun _ _ => ?_
        | refine (spells_callArguments hrecur).bind fun _ _ => ?_
        | refine (spells_within (hrecur _)).bind fun _ _ => ?_ | refine spells_step fun _ => ?_
        | split

theorem spells_creation (hrecur : SpellsAll origin stop recur) {value : Parser Node}
    (hvalue : Spells origin stop value) :
    Spells origin stop (creation recur value) := by
  unfold creation
  repeat' with_reducible first
    | exact spells_pure (by simp_all) | exact spells_form (by simp_all)
    | refine spells_plainWord.bind fun _ _ => ?_ | refine hvalue.bind fun _ _ => ?_
    | refine (spells_accesses hrecur (by assumption)).bind fun _ _ => ?_
    | refine (spells_callArguments hrecur).bind fun _ _ => ?_ | refine spells_pure_bind ?_
    | refine spells_step fun _ => ?_ | refine spells_ite (fun _ => ?_) fun _ => ?_

theorem spells_value (hrecur : SpellsAll origin stop recur) {fuel : Nat} :
    Spells origin stop (value recur fuel) := by
  induction fuel with
  | zero => exact spells_fail
  | succ fuel ih =>
      unfold value
      repeat' with_reducible first
        | exact spells_pure (by simp_all) | exact spells_form (by simp_all) | exact spells_fail
        | exact hrecur _ | exact spells_referenceName | exact spells_templateLiteral hrecur
        | exact spells_arrayLiteral hrecur | exact spells_objectLiteral hrecur
        | exact spells_functionForm hrecur | exact spells_creation hrecur ih
        | refine spells_privateName.bind fun _ _ => ?_ | refine spells_plainWord.bind fun _ _ => ?_
        | refine (spells_callArguments hrecur).bind fun _ _ => ?_
        | refine (spells_within (hrecur _)).bind fun _ _ => ?_
        | refine (hrecur _).bind fun _ _ => ?_ | refine spells_step fun _ => ?_
        | refine spells_ite (fun _ => ?_) fun _ => ?_ | split

theorem spells_callChain (hrecur : SpellsAll origin stop recur) :
    Spells origin stop (callChain recur) := by
  unfold callChain
  exact spells_step fun start => spells_step fun place => (spells_value hrecur).bind fun _ hfirst =>
    spells_accesses hrecur hfirst

theorem spells_unary (hrecur : SpellsAll origin stop recur) : Spells origin stop (unary recur) := by
  unfold unary
  repeat' with_reducible first
    | exact spells_pure (by simp_all) | exact spells_form (by simp_all)
    | refine (hrecur _).bind fun _ _ => ?_ | refine (spells_within (hrecur _)).bind fun _ _ => ?_
    | refine (spells_callChain hrecur).bind fun _ _ => ?_ | refine spells_pure_bind ?_
    | refine spells_step fun _ => ?_ | refine spells_ite (fun _ => ?_) fun _ => ?_

theorem spells_binaryRest (hrecur : SpellsAll origin stop recur) {minimum start fuel : Nat}
    {left : Node} (hleft : AreWritten origin stop left) :
    Spells origin stop (binaryRest recur minimum start fuel left) := by
  induction fuel generalizing left with
  | zero => exact spells_pure hleft
  | succ fuel ih =>
      unfold binaryRest
      repeat' with_reducible first
        | exact spells_pure hleft | exact ih (by assumption)
        | refine (spells_form (by simp_all)).bind fun _ _ => ?_
        | refine (spells_within (hrecur _)).bind fun _ _ => ?_
        | refine (hrecur _).bind fun _ _ => ?_ | refine spells_step fun _ => ?_ | extract_lets
        | split

theorem spells_binary (hrecur : SpellsAll origin stop recur) {minimum : Nat} :
    Spells origin stop (binary recur minimum) := by
  unfold binary
  exact spells_step fun start => (spells_unary hrecur).bind fun _ hleft => spells_step fun place =>
    spells_binaryRest hrecur hleft

theorem spells_arrowBody (hrecur : SpellsAll origin stop recur) {isAsync : Bool} :
    Spells origin stop (arrowBody recur isAsync) := by
  unfold arrowBody
  refine spells_step fun braces => ?_
  split
  · exact spells_within (hrecur _)
  · exact spells_within (hrecur _)

theorem spells_bracketedArrow (hrecur : SpellsAll origin stop recur) :
    Spells origin stop (bracketedArrow recur) := by
  unfold bracketedArrow
  repeat' with_reducible first
    | exact spells_pure (by simp_all) | exact spells_form (by simp_all)
    | refine (spells_typeParametersHere hrecur).bind fun _ _ => ?_
    | refine (spells_within (spells_parameters hrecur)).bind fun _ _ => ?_
    | refine (spells_within (spells_resultAfterColon hrecur)).bind fun _ _ => ?_
    | refine (spells_arrowBody hrecur).bind fun _ _ => ?_ | refine spells_pure_bind ?_
    | refine spells_step fun _ => ?_ | refine spells_ite (fun _ => ?_) fun _ => ?_

theorem spells_namedArrow (hrecur : SpellsAll origin stop recur) :
    Spells origin stop (namedArrow recur) := by
  unfold namedArrow
  repeat' with_reducible first
    | exact spells_pure (by simp_all) | exact spells_form (by simp_all)
    | refine (spells_within spells_bindingName).bind fun _ _ => ?_
    | refine (spells_arrowBody hrecur).bind fun _ _ => ?_ | refine spells_pure_bind ?_
    | refine (spells_form (by simp_all)).bind fun _ _ => ?_ | refine spells_step fun _ => ?_
    | refine spells_ite (fun _ => ?_) fun _ => ?_

theorem spells_arrow? (hrecur : SpellsAll origin stop recur) :
    Spells origin stop (arrow? recur) := by
  unfold arrow?
  repeat' with_reducible first
    | exact spells_pure areWritten_none | exact spells_attempt (spells_namedArrow hrecur)
    | exact spells_attempt (spells_bracketedArrow hrecur) | refine spells_step fun _ => ?_ | split

theorem spells_yieldForm (hrecur : SpellsAll origin stop recur) :
    Spells origin stop (yieldForm recur) := by
  unfold yieldForm
  repeat' with_reducible first
    | exact spells_pure (by simp_all) | exact spells_form (by simp_all)
    | refine (hrecur _).bind fun _ _ => ?_ | refine spells_pure_bind ?_
    | refine spells_step fun _ => ?_ | refine spells_ite (fun _ => ?_) fun _ => ?_

theorem spells_conditionalRest (hrecur : SpellsAll origin stop recur) {start : Nat}
    {condition : Node} (hcondition : AreWritten origin stop condition) :
    Spells origin stop (conditionalRest recur start condition) := by
  unfold conditionalRest
  repeat' with_reducible first
    | exact spells_pure (by simp_all) | exact spells_form (by simp_all)
    | refine (spells_within (hrecur _)).bind fun _ _ => ?_ | refine (hrecur _).bind fun _ _ => ?_
    | refine spells_pure_bind ?_ | refine spells_step fun _ => ?_
    | refine spells_ite (fun _ => ?_) fun _ => ?_

theorem spells_assignment (hrecur : SpellsAll origin stop recur) :
    Spells origin stop (assignment recur) := by
  unfold assignment
  refine spells_step fun context => spells_step fun yields => ?_
  split
  · exact spells_yieldForm hrecur
  refine (spells_arrow? hrecur).bind fun arrow? harrow => ?_
  split
  · exact spells_pure (areWritten_some.mp harrow)
  refine spells_step fun start => (hrecur _).bind fun left hleft => spells_step fun operator => ?_
  split
  · extract_lets target?
    have htarget : AreWritten origin stop target? := by
      dsimp only [target?]
      split
      · exact areWritten_targets.1 left hleft
      · exact areWritten_ite hleft
    clear_value target?
    cases target? with
    | none => exact spells_fail
    | some target =>
        have htarget := areWritten_some.mp htarget
        exact spells_step fun _ => (hrecur _).bind fun _ hright => spells_form (by simp_all)
  · exact spells_conditionalRest hrecur hleft

theorem spells_expression (hrecur : SpellsAll origin stop recur) :
    Spells origin stop (expression recur) := by
  unfold expression
  refine spells_step fun start => (hrecur _).bind fun first hfirst =>
    Spells.bind (spells_many (spells_step fun _ => spells_when (hrecur _))) fun others hothers => ?_
  split
  · exact spells_pure hfirst
  · exact spells_form (by simp_all)

end FontHosting.Script
