import FontHosting.Proofs.Script.Spelling

/-!
# Names in targets, types and classes

Each rule of the grammar spells the names in its answer, given that the rules one level below
do.  Here are the rules for names, targets, parameters, types, functions and classes.
-/

namespace FontHosting.Script

open FontHosting.Script.Parser
open HasNames (AreWritten)

variable {origin : Source} {stop : Nat} {recur : Recur}

/-! ## Names -/

theorem spells_referenceName : Spells origin stop referenceName := by
  intro context state horigin node after hrun hstop
  cases hword : state.token.word? with
  | none => simp [referenceName, hword] at hrun
  | some word =>
      by_cases hmay : mayName context word = true <;> simp [referenceName, hword, hmay] at hrun
      obtain ⟨rfl, rfl⟩ := hrun
      exact writtenAt_word horigin hword (.refl _) hstop

theorem spells_bindingName : Spells origin stop bindingName := by
  intro context state horigin node after hrun hstop
  cases hword : state.token.word? with
  | none => simp [bindingName, hword] at hrun
  | some word =>
      by_cases hmay : mayName context word = true <;> simp [bindingName, hword, hmay] at hrun
      obtain ⟨rfl, rfl⟩ := hrun
      exact writtenAt_word horigin hword (.refl _) hstop

theorem spells_plainWord : Spells origin stop plainWord := by
  intro context state horigin node after hrun hstop
  cases hword : state.token.word? with
  | none => simp [plainWord, hword] at hrun
  | some word =>
      simp [plainWord, hword] at hrun
      obtain ⟨rfl, rfl⟩ := hrun
      exact writtenAt_word horigin hword (.refl _) hstop

theorem spells_textNode : Spells origin stop textNode := by
  unfold textNode
  refine spells_step fun span => spells_step fun token => ?_
  split
  · exact spells_step fun _ => spells_pure trivial
  · exact spells_fail

theorem spells_moduleName : Spells origin stop moduleName := by
  unfold moduleName
  refine spells_step fun token => ?_
  split
  · exact spells_textNode
  · exact spells_plainWord

theorem spells_privateName : Spells origin stop privateName := by
  unfold privateName
  refine spells_step fun span => spells_step fun token => ?_
  split
  · exact spells_step fun _ => spells_pure trivial
  · exact spells_fail

/-- Every rule spells the names in its answer. -/
abbrev SpellsAll (origin : Source) (stop : Nat) (recur : Recur) : Prop :=
  ∀ goal, Spells origin stop (recur goal)

theorem spells_propertyName (hrecur : SpellsAll origin stop recur) {allowPrivate : Bool} :
    Spells origin stop (propertyName recur allowPrivate) := by
  unfold propertyName
  repeat' with_reducible first
    | exact spells_pure (by simp_all) | refine spells_textNode.bind fun _ _ => ?_
    | refine spells_privateName.bind fun _ _ => ?_
    | refine (spells_within (hrecur _)).bind fun _ _ => ?_
    | refine spells_plainWord.bind fun _ _ => ?_ | refine spells_pure_bind ?_
    | refine spells_step fun _ => ?_ | refine spells_ite (fun _ => ?_) fun _ => ?_ | split

/-! ## Targets and parameters -/

theorem spells_initialValue (hrecur : SpellsAll origin stop recur) :
    Spells origin stop (initialValue recur) := by
  unfold initialValue
  repeat' with_reducible first
    | exact spells_pure (by simp_all) | refine (spells_within (hrecur _)).bind fun _ _ => ?_
    | refine spells_pure_bind ?_ | refine spells_step fun _ => ?_
    | refine spells_ite (fun _ => ?_) fun _ => ?_

theorem spells_typeAfterColon (hrecur : SpellsAll origin stop recur) :
    Spells origin stop (typeAfterColon recur) := by
  unfold typeAfterColon
  repeat' with_reducible first
    | exact spells_pure (by simp_all) | refine (spells_within (hrecur _)).bind fun _ _ => ?_
    | refine spells_pure_bind ?_ | refine spells_step fun _ => ?_
    | refine spells_ite (fun _ => ?_) fun _ => ?_

theorem spells_defaultedTarget (hrecur : SpellsAll origin stop recur) :
    Spells origin stop (defaultedTarget recur) := by
  unfold defaultedTarget
  repeat' with_reducible first
    | exact spells_pure (by simp_all) | exact spells_form (by simp_all)
    | refine (hrecur _).bind fun _ _ => ?_ | refine (spells_initialValue hrecur).bind fun _ _ => ?_
    | refine spells_pure_bind ?_ | refine spells_step fun _ => ?_
    | refine spells_ite (fun _ => ?_) fun _ => ?_ | split

theorem spells_bindingProperty (hrecur : SpellsAll origin stop recur) :
    Spells origin stop (bindingProperty recur) := by
  unfold bindingProperty
  refine spells_step fun start => spells_step fun spreads => ?_
  split
  · refine spells_bindingName.bind fun target htarget => spells_step fun _ => ?_
    exact spells_step fun _ => spells_form (by simp_all)
  · refine spells_step fun following => spells_step fun brackets => ?_
    dsimp only
    split
    · refine spells_bindingName.bind fun target htarget =>
        (spells_initialValue hrecur).bind fun initial hinitial => ?_
      split
      · exact spells_pure_bind (spells_form (by simp_all))
      · exact (spells_form (by simp_all)).bind fun _ _ => spells_form (by simp_all)
    · refine (spells_propertyName hrecur).bind fun key hkey => spells_step fun _ => ?_
      exact (spells_defaultedTarget hrecur).bind fun value hvalue => spells_form (by simp_all)

theorem spells_bindingItem (hrecur : SpellsAll origin stop recur) :
    Spells origin stop (bindingItem recur) := by
  unfold bindingItem
  repeat' with_reducible first
    | exact spells_pure (by simp_all) | exact spells_form (by simp_all)
    | exact spells_defaultedTarget hrecur | refine (hrecur _).bind fun _ _ => ?_
    | refine spells_pure_bind ?_ | refine spells_step fun _ => ?_
    | refine spells_ite (fun _ => ?_) fun _ => ?_

theorem spells_bindingTarget (hrecur : SpellsAll origin stop recur) :
    Spells origin stop (bindingTarget recur) := by
  unfold bindingTarget
  refine spells_step fun start => spells_step fun braces => ?_
  split
  · exact (spells_commaList (spells_bindingProperty hrecur)).bind fun _ hparts => spells_form hparts
  · refine spells_step fun brackets => ?_
    split
    · exact (spells_commaList (spells_bindingItem hrecur)).bind fun _ hparts => spells_form hparts
    · exact spells_bindingName

theorem spells_decorators (hrecur : SpellsAll origin stop recur) :
    Spells origin stop (decorators recur) := by
  refine spells_many (spells_step fun found => ?_)
  split
  · refine spells_step fun start => spells_step fun _ => ?_
    refine (spells_within (hrecur .member)).bind fun value hvalue => ?_
    exact Spells.bind (spells_form (by simp_all)) fun _ hform => spells_pure (by simpa using hform)
  · exact spells_pure areWritten_none

theorem spells_parameter (hrecur : SpellsAll origin stop recur) :
    Spells origin stop (parameter recur) := by
  unfold parameter
  repeat' with_reducible first
    | exact spells_pure (by simp_all) | exact spells_form (by simp_all)
    | refine (spells_decorators hrecur).bind fun _ _ => ?_
    | refine (spells_typeAfterColon hrecur).bind fun _ _ => ?_
    | refine (spells_initialValue hrecur).bind fun _ _ => ?_ | refine (hrecur _).bind fun _ _ => ?_
    | refine spells_pure_bind ?_ | refine spells_step fun _ => ?_
    | refine spells_ite (fun _ => ?_) fun _ => ?_

theorem spells_parameters (hrecur : SpellsAll origin stop recur) :
    Spells origin stop (parameters recur) := by
  unfold parameters
  exact spells_step fun start => spells_step fun _ =>
    (spells_commaList (spells_parameter hrecur)).bind fun _ hitems => spells_form hitems

/-! ## Types -/

theorem spells_inBrackets {α : Type} [HasNames α] {parser : Parser α}
    (h : Spells origin stop parser) : Spells origin stop (inBrackets parser) :=
  spells_within h

theorem spells_typeArguments (hrecur : SpellsAll origin stop recur) :
    Spells origin stop (typeArguments recur) := by
  unfold typeArguments
  exact spells_step fun _ => (spells_inBrackets (spells_commaList (hrecur .type))).bind
    fun _ hitems => spells_step fun _ => spells_pure hitems

theorem spells_typeArgumentsHere (hrecur : SpellsAll origin stop recur) :
    Spells origin stop (typeArgumentsHere recur) := by
  unfold typeArgumentsHere
  repeat' with_reducible first
    | exact spells_pure (by simp_all) | exact spells_typeArguments hrecur
    | refine spells_pure_bind ?_ | refine spells_step fun _ => ?_
    | refine spells_ite (fun _ => ?_) fun _ => ?_

theorem spells_typeParameter (hrecur : SpellsAll origin stop recur) :
    Spells origin stop (typeParameter recur) := by
  unfold typeParameter
  repeat' with_reducible first
    | exact spells_pure (by simp_all) | exact spells_form (by simp_all)
    | refine spells_bindingName.bind fun _ _ => ?_ | refine (hrecur _).bind fun _ _ => ?_
    | refine spells_pure_bind ?_ | refine spells_step fun _ => ?_
    | refine spells_ite (fun _ => ?_) fun _ => ?_

theorem spells_typeParametersHere (hrecur : SpellsAll origin stop recur) :
    Spells origin stop (typeParametersHere recur) := by
  unfold typeParametersHere
  repeat' with_reducible first
    | exact spells_pure (by simp_all) | refine (spells_form (by simp_all)).bind fun _ _ => ?_
    | refine (spells_inBrackets (spells_commaList (spells_typeParameter hrecur))).bind fun _ _ => ?_
    | refine spells_step fun _ => ?_ | split

theorem spells_typeRoot : Spells origin stop typeRoot := by
  unfold typeRoot
  refine spells_plainWord.bind fun word hword => ?_
  split
  · exact spells_pure (by simp)
  · exact spells_step fun _ => spells_pure (by simpa using hword)
  · exact spells_fail

theorem areWritten_qualified {first : Node} {others : List Node} {span : Span}
    (hfirst : AreWritten origin stop first) (hothers : AreWritten origin stop others) :
    AreWritten origin stop
      (others.foldl (fun left right => .form .qualified [left, right] span) first) := by
  induction others generalizing first with
  | nil => exact hfirst
  | cons other others ih =>
      obtain ⟨hother, hothers⟩ := areWritten_cons.mp hothers
      exact ih (by simp_all) hothers

theorem spells_typeName : Spells origin stop typeName := by
  unfold typeName
  exact spells_step fun start => spells_typeRoot.bind fun _ hfirst =>
    (spells_many (spells_step fun _ => spells_when spells_plainWord)).bind fun _ hothers =>
      spells_step fun _ => spells_pure (areWritten_qualified hfirst hothers)

theorem spells_typeReference (hrecur : SpellsAll origin stop recur) :
    Spells origin stop (typeReference recur) := by
  unfold typeReference
  repeat' with_reducible first
    | exact spells_pure (by simp_all) | exact spells_form (by simp_all)
    | refine spells_typeName.bind fun _ _ => ?_
    | refine (spells_typeArgumentsHere hrecur).bind fun _ _ => ?_ | refine spells_pure_bind ?_
    | refine spells_step fun _ => ?_

theorem spells_resultType (hrecur : SpellsAll origin stop recur) :
    Spells origin stop (resultType recur) := by
  unfold resultType
  repeat' with_reducible first
    | exact spells_pure (by simp_all) | exact spells_form (by simp_all) | exact hrecur _
    | refine spells_plainWord.bind fun _ _ => ?_ | refine (hrecur _).bind fun _ _ => ?_
    | refine spells_pure_bind ?_ | refine spells_step fun _ => ?_
    | refine spells_ite (fun _ => ?_) fun _ => ?_

theorem spells_resultAfterColon (hrecur : SpellsAll origin stop recur) :
    Spells origin stop (resultAfterColon recur) := by
  unfold resultAfterColon
  repeat' with_reducible first
    | exact spells_pure (by simp_all) | refine (spells_resultType hrecur).bind fun _ _ => ?_
    | refine spells_pure_bind ?_ | refine spells_step fun _ => ?_
    | refine spells_ite (fun _ => ?_) fun _ => ?_

theorem spells_functionType (hrecur : SpellsAll origin stop recur) {kind : Form} :
    Spells origin stop (functionType recur kind) := by
  unfold functionType
  repeat' with_reducible first
    | exact spells_pure (by simp_all) | exact spells_form (by simp_all)
    | refine (spells_typeParametersHere hrecur).bind fun _ _ => ?_
    | refine (spells_inBrackets (spells_parameters hrecur)).bind fun _ _ => ?_
    | refine (spells_resultType hrecur).bind fun _ _ => ?_ | refine spells_pure_bind ?_
    | refine spells_step fun _ => ?_ | refine spells_ite (fun _ => ?_) fun _ => ?_

theorem spells_signature (hrecur : SpellsAll origin stop recur) :
    Spells origin stop (signature recur) := by
  unfold signature
  repeat' with_reducible first
    | exact spells_pure (by simp_all) | refine (spells_typeParametersHere hrecur).bind fun _ _ => ?_
    | refine (spells_parameters hrecur).bind fun _ _ => ?_
    | refine (spells_resultAfterColon hrecur).bind fun _ _ => ?_

theorem spells_indexSignature (hrecur : SpellsAll origin stop recur) :
    Spells origin stop (indexSignature recur) := by
  unfold indexSignature
  repeat' with_reducible first
    | exact spells_pure (by simp_all) | refine spells_plainWord.bind fun _ _ => ?_
    | refine (hrecur _).bind fun _ _ => ?_
    | refine (spells_typeAfterColon hrecur).bind fun _ _ => ?_ | refine spells_pure_bind ?_
    | refine spells_step fun _ => ?_

theorem spells_typeMember (hrecur : SpellsAll origin stop recur) :
    Spells origin stop (typeMember recur) := by
  unfold typeMember
  repeat' with_reducible first
    | exact spells_pure (by simp_all) | exact spells_form (by simp_all)
    | refine (spells_signature hrecur).bind fun _ _ => ?_
    | refine (spells_indexSignature hrecur).bind fun _ _ => ?_
    | refine (spells_propertyName hrecur).bind fun _ _ => ?_
    | refine (spells_typeAfterColon hrecur).bind fun _ _ => ?_ | refine spells_pure_bind ?_
    | refine spells_step fun _ => ?_ | refine spells_ite (fun _ => ?_) fun _ => ?_

theorem spells_objectType (hrecur : SpellsAll origin stop recur) :
    Spells origin stop (objectType recur) := by
  unfold objectType
  refine spells_step fun start => spells_step fun _ => Spells.bind
    (spells_inBrackets (spells_many (spells_step fun closes => ?_)))
    fun _ hmembers => spells_step fun _ => spells_form hmembers
  exact spells_unless (spells_typeMember hrecur)

theorem spells_mappedType (hrecur : SpellsAll origin stop recur) :
    Spells origin stop (mappedType recur) := by
  unfold mappedType
  repeat' with_reducible first
    | exact spells_pure (by simp_all) | exact spells_form (by simp_all)
    | refine spells_bindingName.bind fun _ _ => ?_ | refine (hrecur _).bind fun _ _ => ?_
    | refine (spells_typeAfterColon hrecur).bind fun _ _ => ?_ | refine spells_pure_bind ?_
    | refine spells_step fun _ => ?_ | refine spells_ite (fun _ => ?_) fun _ => ?_

theorem spells_templateType (hrecur : SpellsAll origin stop recur) :
    Spells origin stop (templateType recur) := by
  have hpieces : ∀ fuel done, AreWritten origin stop done →
      Spells origin stop (templateType.pieces recur fuel done) := by
    intro fuel
    induction fuel with
    | zero => exact fun _ _ => spells_fail
    | succ fuel ih =>
        intro done hdone
        unfold templateType.pieces
        repeat' with_reducible first
          | exact spells_pure (by simp_all) | exact spells_fail | refine ih _ (by simp_all)
          | refine (hrecur _).bind fun _ _ => ?_ | refine spells_step fun _ => ?_ | split
  unfold templateType
  exact spells_step fun start => spells_step fun place =>
    (hpieces _ _ areWritten_nil).bind fun _ hparts => spells_form hparts

theorem spells_tupleLabel : Spells origin stop tupleLabel := by
  unfold tupleLabel
  repeat' with_reducible first
    | exact spells_pure (by simp_all) | refine spells_plainWord.bind fun _ _ => ?_
    | refine spells_pure_bind ?_ | refine spells_step fun _ => ?_

theorem spells_tupleMember (hrecur : SpellsAll origin stop recur) :
    Spells origin stop (tupleMember recur) := by
  unfold tupleMember
  repeat' with_reducible first
    | exact spells_pure (by simp_all) | exact spells_form (by simp_all)
    | refine (spells_attempt spells_tupleLabel).bind fun _ _ => ?_
    | refine (hrecur _).bind fun _ _ => ?_ | refine spells_pure_bind ?_
    | refine spells_step fun _ => ?_ | refine spells_ite (fun _ => ?_) fun _ => ?_ | split

theorem spells_importType (hrecur : SpellsAll origin stop recur) :
    Spells origin stop (importType recur) := by
  unfold importType
  repeat' with_reducible first
    | exact spells_pure (by simp_all) | exact spells_form (by simp_all)
    | refine (hrecur _).bind fun _ _ => ?_
    | refine (spells_many (spells_step fun _ => spells_when spells_plainWord)).bind fun _ _ => ?_
    | refine (spells_typeArgumentsHere hrecur).bind fun _ _ => ?_ | refine spells_pure_bind ?_
    | refine spells_step fun _ => ?_ | refine spells_ite (fun _ => ?_) fun _ => ?_

theorem spells_primaryType (hrecur : SpellsAll origin stop recur) :
    Spells origin stop (primaryType recur) := by
  unfold primaryType
  repeat' with_reducible first
    | exact spells_pure (by simp_all) | exact spells_form (by simp_all) | exact spells_fail
    | exact spells_templateType hrecur | exact spells_objectType hrecur
    | exact spells_typeReference hrecur | exact spells_importType hrecur
    | refine (spells_attempt (spells_inBrackets (spells_mappedType hrecur))).bind fun _ _ => ?_
    | refine (spells_inBrackets (spells_commaList (spells_tupleMember hrecur))).bind fun _ _ => ?_
    | refine (spells_inBrackets (hrecur _)).bind fun _ _ => ?_
    | refine (spells_importType hrecur).bind fun _ _ => ?_
    | refine spells_typeName.bind fun _ _ => ?_
    | refine (spells_typeArgumentsHere hrecur).bind fun _ _ => ?_ | refine spells_step fun _ => ?_
    | split

theorem spells_postfixType (hrecur : SpellsAll origin stop recur) :
    Spells origin stop (postfixType recur) := by
  have hloop : ∀ start fuel type, AreWritten origin stop type →
      Spells origin stop (postfixType.loop recur start fuel type) := by
    intro start fuel
    induction fuel with
    | zero => exact fun _ htype => spells_pure htype
    | succ fuel ih =>
        intro type htype
        unfold postfixType.loop
        repeat' with_reducible first
          | exact spells_pure htype | exact ih _ (by simp_all)
          | refine (spells_form (by simp_all)).bind fun _ _ => ?_
          | refine (spells_inBrackets (hrecur _)).bind fun _ _ => ?_
          | refine spells_step fun _ => ?_ | split
  unfold postfixType
  exact spells_step fun start => (spells_primaryType hrecur).bind fun _ hfirst =>
    spells_step fun _ => hloop _ _ _ hfirst

/-- The bound of an inferred type, if it has one. -/
theorem spells_operatorType (hrecur : SpellsAll origin stop recur) :
    Spells origin stop (operatorType recur) := by
  have hbound : Spells origin stop (do
      expectKeyword "extends"
      let bound ← within (fun context => { context with allowConditional := false }) (recur .type)
      require (!(← read).allowConditional || !(← at? "?"))
      return bound) :=
    spells_step fun _ => (spells_within (hrecur .type)).bind fun _ hbound =>
      spells_step fun _ => spells_step fun _ => spells_step fun _ => spells_pure hbound
  unfold operatorType
  refine spells_step fun start => spells_step fun token => spells_step fun following => ?_
  extract_lets operand
  split
  · exact spells_step fun _ => (hrecur _).bind fun _ htype => spells_form (by simp_all)
  split
  · exact spells_step fun _ => spells_bindingName.bind fun _ hname =>
      (spells_attempt hbound).bind fun _ hbound => spells_form (by simp_all)
  · exact spells_postfixType hrecur

theorem spells_operatorList {operator : String} {kind : Form} {item : Parser Node}
    (h : Spells origin stop item) : Spells origin stop (operatorList operator kind item) := by
  unfold operatorList
  refine spells_step fun start => spells_step fun leading => h.bind fun first hfirst =>
    (spells_many (spells_step fun _ => spells_when h)).bind fun others hothers => ?_
  split
  · exact spells_pure hfirst
  · exact spells_form (by simp_all)

theorem spells_unconditionalType (hrecur : SpellsAll origin stop recur) :
    Spells origin stop (unconditionalType recur) := by
  have hitem : Spells origin stop (do
      if ← functionTypeStarts then functionType recur .functionType else operatorType recur) := by
    refine spells_step fun starts => ?_
    split
    · exact spells_functionType hrecur
    · exact spells_operatorType hrecur
  unfold unconditionalType
  repeat' with_reducible first
    | exact spells_functionType hrecur | exact spells_operatorList (spells_operatorList hitem)
    | refine spells_step fun _ => ?_ | split

theorem spells_anyType (hrecur : SpellsAll origin stop recur) :
    Spells origin stop (anyType recur) := by
  unfold anyType
  repeat' with_reducible first
    | exact spells_pure (by simp_all) | exact spells_form (by simp_all)
    | refine (spells_unconditionalType hrecur).bind fun _ _ => ?_
    | refine (spells_inBrackets (hrecur _)).bind fun _ _ => ?_
    | refine (spells_within (hrecur _)).bind fun _ _ => ?_ | refine spells_step fun _ => ?_ | split

/-! ## Functions and classes -/

theorem spells_functionRest (hrecur : SpellsAll origin stop recur)
    {isAsync isGenerator mayOmitBody : Bool} :
    Spells origin stop (functionRest recur isAsync isGenerator mayOmitBody) := by
  unfold functionRest
  repeat' with_reducible first
    | exact spells_pure (by simp_all) | refine (spells_typeParametersHere hrecur).bind fun _ _ => ?_
    | refine (spells_within (spells_parameters hrecur)).bind fun _ _ => ?_
    | refine (spells_resultAfterColon hrecur).bind fun _ _ => ?_
    | refine (spells_within (hrecur _)).bind fun _ _ => ?_ | refine spells_pure_bind ?_
    | refine spells_step fun _ => ?_ | refine spells_ite (fun _ => ?_) fun _ => ?_

theorem spells_functionForm (hrecur : SpellsAll origin stop recur) {start : Nat}
    {isAsync isStatement needsName : Bool} :
    Spells origin stop (functionForm recur start isAsync isStatement needsName) := by
  unfold functionForm
  repeat' with_reducible first
    | exact spells_pure (by simp_all) | exact spells_form (by simp_all)
    | refine spells_bindingName.bind fun _ _ => ?_
    | refine (spells_within spells_bindingName).bind fun _ _ => ?_
    | refine (spells_functionRest hrecur).bind fun _ _ => ?_ | refine spells_pure_bind ?_
    | refine spells_step fun _ => ?_ | refine spells_ite (fun _ => ?_) fun _ => ?_

theorem spells_memberRest (hrecur : SpellsAll origin stop recur)
    {isAsync isGenerator mustCall : Bool} :
    Spells origin stop (memberRest recur isAsync isGenerator mustCall) := by
  unfold memberRest
  repeat' with_reducible first
    | exact spells_pure (by simp_all) | exact spells_functionRest hrecur
    | refine (spells_typeAfterColon hrecur).bind fun _ _ => ?_
    | refine (spells_within (hrecur _)).bind fun _ _ => ?_ | refine spells_pure_bind ?_
    | refine spells_step fun _ => ?_ | refine spells_ite (fun _ => ?_) fun _ => ?_

theorem spells_classMember (hrecur : SpellsAll origin stop recur) :
    Spells origin stop (classMember recur) := by
  unfold classMember
  repeat' with_reducible first
    | exact spells_pure (by simp_all) | exact spells_form (by simp_all)
    | refine (spells_decorators hrecur).bind fun _ _ => ?_
    | refine (spells_within (hrecur _)).bind fun _ _ => ?_
    | refine (spells_indexSignature hrecur).bind fun _ _ => ?_
    | refine (spells_propertyName hrecur).bind fun _ _ => ?_
    | refine (spells_memberRest hrecur).bind fun _ _ => ?_ | refine spells_pure_bind ?_
    | refine spells_step fun _ => ?_ | refine spells_ite (fun _ => ?_) fun _ => ?_

theorem spells_classBody (hrecur : SpellsAll origin stop recur) :
    Spells origin stop (classBody recur) := by
  unfold classBody
  refine spells_step fun start => spells_step fun _ => Spells.bind (spells_many ?_)
    fun members hmembers => spells_step fun _ => spells_form hmembers
  exact spells_step fun _ => spells_step fun _ => spells_unless (spells_classMember hrecur)

theorem spells_classForm (hrecur : SpellsAll origin stop recur) {start : Nat}
    {decorators : List Node} (hdecorators : AreWritten origin stop decorators) :
    Spells origin stop (classForm recur start decorators) := by
  unfold classForm
  repeat' with_reducible first
    | exact spells_pure (by simp_all) | exact spells_form (by simp_all)
    | refine spells_bindingName.bind fun _ _ => ?_
    | refine (spells_typeParametersHere hrecur).bind fun _ _ => ?_
    | refine (hrecur _).bind fun _ _ => ?_
    | refine (spells_typeArgumentsHere hrecur).bind fun _ _ => ?_
    | refine (spells_commaSeparated (spells_typeReference hrecur)).bind fun _ _ => ?_
    | refine (spells_classBody hrecur).bind fun _ _ => ?_ | refine spells_pure_bind ?_
    | refine (spells_form (by simp_all)).bind fun _ _ => ?_ | refine spells_step fun _ => ?_
    | refine spells_ite (fun _ => ?_) fun _ => ?_

theorem spells_decoratedClass (hrecur : SpellsAll origin stop recur) :
    Spells origin stop (decoratedClass recur) := by
  unfold decoratedClass
  exact spells_step fun start => (spells_decorators hrecur).bind fun _ hdecorators =>
    spells_classForm hrecur hdecorators

end FontHosting.Script
