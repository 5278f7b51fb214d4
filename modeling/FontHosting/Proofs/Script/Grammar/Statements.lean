import FontHosting.Proofs.Script.Grammar.Expressions

/-!
# Names in statements

The rules for statements, imports and exports spell the names in their answers, and so does
the whole grammar: `spells_grammar`.
-/

namespace FontHosting.Script

open FontHosting.Script.Parser
open HasNames (AreWritten)

variable {origin : Source} {stop : Nat} {recur : Recur}

/-! ## Statements -/

theorem spells_inRoundBrackets (hrecur : SpellsAll origin stop recur) :
    Spells origin stop (inRoundBrackets recur) := by
  unfold inRoundBrackets
  repeat' with_reducible first
    | exact spells_pure (by simp_all) | refine (spells_within (hrecur _)).bind fun _ _ => ?_
    | refine spells_pure_bind ?_ | refine spells_step fun _ => ?_

theorem spells_statementsInBraces {item : Parser Node} (h : Spells origin stop item) :
    Spells origin stop (statementsInBraces item) := by
  unfold statementsInBraces
  exact spells_step fun _ => (spells_many (spells_step fun _ => spells_unless h)).bind
    fun _ hstatements => spells_step fun _ => spells_pure hstatements

theorem spells_block (hrecur : SpellsAll origin stop recur) : Spells origin stop (block recur) := by
  unfold block
  repeat' with_reducible first
    | exact spells_pure (by simp_all) | exact spells_form (by simp_all)
    | refine (spells_statementsInBraces (spells_within (hrecur _))).bind fun _ _ => ?_
    | refine spells_pure_bind ?_ | refine spells_step fun _ => ?_

theorem spells_functionBody (hrecur : SpellsAll origin stop recur) :
    Spells origin stop (functionBody recur) := by
  unfold functionBody
  repeat' with_reducible first
    | exact spells_pure (by simp_all) | exact spells_form (by simp_all)
    | refine (spells_statementsInBraces (hrecur _)).bind fun _ _ => ?_ | refine spells_pure_bind ?_
    | refine spells_step fun _ => ?_

theorem spells_declarator (hrecur : SpellsAll origin stop recur) {kind : VariableKind}
    {inHead : Bool} :
    Spells origin stop (declarator recur kind inHead) := by
  unfold declarator
  repeat' with_reducible first
    | exact spells_pure (by simp_all) | refine (spells_typeAfterColon hrecur).bind fun _ _ => ?_
    | refine (hrecur _).bind fun _ _ => ?_ | refine spells_pure_bind ?_
    | refine spells_step fun _ => ?_ | refine spells_ite (fun _ => ?_) fun _ => ?_

theorem spells_variableList (hrecur : SpellsAll origin stop recur) {kind : VariableKind}
    {inHead : Bool} :
    Spells origin stop (variableList recur kind inHead) := by
  unfold variableList
  repeat' with_reducible first
    | exact spells_pure (by simp_all) | exact spells_commaSeparated (spells_declarator hrecur)
    | refine spells_pure_bind ?_ | refine spells_step fun _ => ?_
    | refine spells_ite (fun _ => ?_) fun _ => ?_

theorem spells_variableStatement (hrecur : SpellsAll origin stop recur) {start : Nat}
    {kind : VariableKind} :
    Spells origin stop (variableStatement recur start kind) := by
  unfold variableStatement
  repeat' with_reducible first
    | exact spells_pure (by simp_all) | refine (spells_variableList hrecur).bind fun _ _ => ?_
    | refine spells_pure_bind ?_ | refine spells_step fun _ => ?_

theorem spells_countedHead (hrecur : SpellsAll origin stop recur) :
    Spells origin stop (countedHead recur) := by
  unfold countedHead
  repeat' with_reducible first
    | exact spells_pure (by simp_all) | refine (spells_within (hrecur _)).bind fun _ _ => ?_
    | refine spells_pure_bind ?_ | refine spells_step fun _ => ?_
    | refine spells_ite (fun _ => ?_) fun _ => ?_

theorem spells_headRest (hrecur : SpellsAll origin stop recur) {isAwait mayRun : Bool}
    {first : Node} (hfirst : AreWritten origin stop first) :
    Spells origin stop (headRest recur isAwait first mayRun) := by
  unfold headRest
  repeat' with_reducible first
    | exact spells_pure (by simp_all) | refine (spells_within (hrecur _)).bind fun _ _ => ?_
    | refine (spells_countedHead hrecur).bind fun _ _ => ?_ | refine spells_pure_bind ?_
    | refine spells_step fun _ => ?_ | refine spells_ite (fun _ => ?_) fun _ => ?_

theorem spells_loopHead (hrecur : SpellsAll origin stop recur) {isAwait : Bool} :
    Spells origin stop (loopHead recur isAwait) := by
  unfold loopHead
  refine spells_step fun start => spells_step fun empty => spells_ite (fun _ => ?_) fun _ => ?_
  · exact spells_step fun _ => (spells_countedHead hrecur).bind fun _ hhead =>
      spells_pure ⟨trivial, hhead⟩
  refine spells_step fun kind? => ?_
  split
  · exact (spells_within (spells_variableList hrecur)).bind fun _ hdeclarators =>
      spells_step fun span => spells_headRest hrecur (areWritten_list.mpr hdeclarators)
  · refine spells_step fun isAsync => spells_step fun following => ?_
    refine (spells_within (hrecur _)).bind fun first hfirst => ?_
    refine spells_step fun counts => spells_step fun lists => spells_ite (fun _ => ?_) fun _ => ?_
    · have htarget := areWritten_targets.1 first hfirst
      split
      · rename_i heq
        rw [heq] at htarget
        exact spells_headRest hrecur (areWritten_some.mp htarget)
      · exact spells_fail
    · exact spells_headRest hrecur hfirst

theorem spells_forLoop (hrecur : SpellsAll origin stop recur) :
    Spells origin stop (forLoop recur) := by
  unfold forLoop
  repeat' with_reducible first
    | exact spells_pure (by simp_all) | exact spells_form (by simp_all)
    | refine (spells_loopHead hrecur).bind fun _ _ => ?_ | refine (hrecur _).bind fun _ _ => ?_
    | refine spells_pure_bind ?_ | refine spells_step fun _ => ?_
    | refine spells_ite (fun _ => ?_) fun _ => ?_

theorem spells_doLoop (hrecur : SpellsAll origin stop recur) :
    Spells origin stop (doLoop recur) := by
  unfold doLoop
  repeat' with_reducible first
    | exact spells_pure (by simp_all) | exact spells_form (by simp_all)
    | refine (spells_inRoundBrackets hrecur).bind fun _ _ => ?_
    | refine (hrecur _).bind fun _ _ => ?_ | refine spells_pure_bind ?_
    | refine spells_step fun _ => ?_

theorem spells_switchCase (hrecur : SpellsAll origin stop recur) :
    Spells origin stop (switchCase recur) := by
  unfold switchCase
  repeat' with_reducible first
    | exact spells_pure (by simp_all) | exact spells_form (by simp_all)
    | refine (spells_within (hrecur _)).bind fun _ _ => ?_
    | refine (spells_many (spells_step fun _ => spells_step fun _ => spells_step fun _ =>
        spells_unless (hrecur _))).bind fun _ _ => ?_
    | refine spells_pure_bind ?_ | refine spells_step fun _ => ?_
    | refine spells_ite (fun _ => ?_) fun _ => ?_

theorem spells_switchStatement (hrecur : SpellsAll origin stop recur) :
    Spells origin stop (switchStatement recur) := by
  unfold switchStatement
  repeat' with_reducible first
    | exact spells_pure (by simp_all) | exact spells_form (by simp_all)
    | refine (spells_inRoundBrackets hrecur).bind fun _ _ => ?_
    | refine (spells_statementsInBraces (spells_switchCase hrecur)).bind fun _ _ => ?_
    | refine spells_pure_bind ?_ | refine spells_step fun _ => ?_

theorem spells_catchClause (hrecur : SpellsAll origin stop recur) :
    Spells origin stop (catchClause recur) := by
  unfold catchClause
  repeat' with_reducible first
    | exact spells_pure (by simp_all) | exact spells_form (by simp_all)
    | refine (hrecur _).bind fun _ _ => ?_
    | refine (spells_typeAfterColon hrecur).bind fun _ _ => ?_ | refine spells_pure_bind ?_
    | refine (spells_form (by simp_all)).bind fun _ _ => ?_ | refine spells_step fun _ => ?_
    | refine spells_ite (fun _ => ?_) fun _ => ?_

theorem spells_tryStatement (hrecur : SpellsAll origin stop recur) :
    Spells origin stop (tryStatement recur) := by
  unfold tryStatement
  repeat' with_reducible first
    | exact spells_pure (by simp_all) | exact spells_form (by simp_all)
    | refine (hrecur _).bind fun _ _ => ?_ | refine (spells_catchClause hrecur).bind fun _ _ => ?_
    | refine spells_pure_bind ?_ | refine spells_step fun _ => ?_
    | refine spells_ite (fun _ => ?_) fun _ => ?_

theorem spells_jump {kind : Form} : Spells origin stop (jump kind) := by
  unfold jump
  repeat' with_reducible first
    | exact spells_pure (by simp_all) | exact spells_form (by simp_all)
    | refine spells_plainWord.bind fun _ _ => ?_ | refine spells_pure_bind ?_
    | refine spells_step fun _ => ?_ | refine spells_ite (fun _ => ?_) fun _ => ?_

theorem spells_keywordStatement (hrecur : SpellsAll origin stop recur) {start : Nat}
    {word : String} :
    Spells origin stop (keywordStatement recur start word) := by
  unfold keywordStatement
  repeat' with_reducible first
    | exact spells_pure (by simp_all) | exact spells_form (by simp_all)
    | exact spells_forLoop hrecur | exact spells_doLoop hrecur
    | exact spells_switchStatement hrecur | exact spells_tryStatement hrecur | exact spells_jump
    | exact spells_fail | refine (spells_inRoundBrackets hrecur).bind fun _ _ => ?_
    | refine (hrecur _).bind fun _ _ => ?_ | refine (spells_within (hrecur _)).bind fun _ _ => ?_
    | refine spells_pure_bind ?_ | refine spells_step fun _ => ?_
    | refine spells_ite (fun _ => ?_) fun _ => ?_ | split

theorem spells_expressionStatement (hrecur : SpellsAll origin stop recur) :
    Spells origin stop (expressionStatement recur) := by
  unfold expressionStatement
  repeat' with_reducible first
    | exact spells_pure (by simp_all) | exact spells_form (by simp_all)
    | refine spells_plainWord.bind fun _ _ => ?_ | refine (hrecur _).bind fun _ _ => ?_
    | refine (spells_within (hrecur _)).bind fun _ _ => ?_ | refine spells_pure_bind ?_
    | refine spells_step fun _ => ?_ | refine spells_ite (fun _ => ?_) fun _ => ?_

theorem spells_subStatement (hrecur : SpellsAll origin stop recur) :
    Spells origin stop (subStatement recur) := by
  unfold subStatement
  repeat' with_reducible first
    | exact spells_pure (by simp_all) | exact spells_form (by simp_all) | exact hrecur _
    | exact spells_variableStatement hrecur | exact spells_expressionStatement hrecur
    | exact spells_keywordStatement hrecur
    | refine (spells_functionForm hrecur).bind fun _ _ => ?_ | refine spells_pure_bind ?_
    | refine spells_step fun _ => ?_ | refine spells_ite (fun _ => ?_) fun _ => ?_ | split

/-! ## Typed declarations -/

theorem spells_enumMember (hrecur : SpellsAll origin stop recur) :
    Spells origin stop (enumMember recur) := by
  unfold enumMember
  repeat' with_reducible first
    | exact spells_pure (by simp_all) | exact spells_form (by simp_all)
    | refine (spells_propertyName hrecur).bind fun _ _ => ?_
    | refine (spells_initialValue hrecur).bind fun _ _ => ?_ | refine spells_pure_bind ?_
    | refine spells_step fun _ => ?_

theorem spells_enumeration (hrecur : SpellsAll origin stop recur) {start : Nat} {isConst : Bool} :
    Spells origin stop (enumeration recur start isConst) := by
  unfold enumeration
  repeat' with_reducible first
    | exact spells_pure (by simp_all) | exact spells_form (by simp_all)
    | refine spells_bindingName.bind fun _ _ => ?_
    | refine (spells_commaList (spells_enumMember hrecur)).bind fun _ _ => ?_
    | refine spells_pure_bind ?_ | refine spells_step fun _ => ?_

theorem spells_typeAlias (hrecur : SpellsAll origin stop recur) {start : Nat} :
    Spells origin stop (typeAlias recur start) := by
  unfold typeAlias
  repeat' with_reducible first
    | exact spells_pure (by simp_all) | exact spells_form (by simp_all)
    | refine spells_bindingName.bind fun _ _ => ?_
    | refine (spells_typeParametersHere hrecur).bind fun _ _ => ?_
    | refine (hrecur _).bind fun _ _ => ?_ | refine spells_pure_bind ?_
    | refine spells_step fun _ => ?_

theorem spells_interfaceParent (hrecur : SpellsAll origin stop recur) :
    Spells origin stop (interfaceParent recur) := by
  unfold interfaceParent
  repeat' with_reducible first
    | exact spells_pure (by simp_all) | exact spells_form (by simp_all)
    | refine (hrecur _).bind fun _ _ => ?_
    | refine (spells_typeArgumentsHere hrecur).bind fun _ _ => ?_

theorem spells_interface (hrecur : SpellsAll origin stop recur) {start : Nat} :
    Spells origin stop (interface recur start) := by
  unfold interface
  repeat' with_reducible first
    | exact spells_pure (by simp_all) | exact spells_form (by simp_all)
    | refine spells_bindingName.bind fun _ _ => ?_
    | refine (spells_typeParametersHere hrecur).bind fun _ _ => ?_
    | refine (spells_commaSeparated (spells_interfaceParent hrecur)).bind fun _ _ => ?_
    | refine (spells_objectType hrecur).bind fun _ _ => ?_ | refine spells_pure_bind ?_
    | refine spells_step fun _ => ?_ | refine spells_ite (fun _ => ?_) fun _ => ?_

theorem spells_namespaceBody (hrecur : SpellsAll origin stop recur) :
    Spells origin stop (namespaceBody recur) := by
  unfold namespaceBody
  repeat' with_reducible first
    | exact spells_pure (by simp_all) | exact spells_form (by simp_all)
    | refine (spells_statementsInBraces (spells_within (hrecur _))).bind fun _ _ => ?_
    | refine spells_pure_bind ?_ | refine spells_step fun _ => ?_

theorem spells_namespaceForm (hrecur : SpellsAll origin stop recur) {start : Nat}
    {keyword : String} :
    Spells origin stop (namespaceForm recur start keyword) := by
  unfold namespaceForm
  repeat' with_reducible first
    | exact spells_pure (by simp_all) | exact spells_form (by simp_all)
    | refine spells_textNode.bind fun _ _ => ?_ | refine spells_bindingName.bind fun _ _ => ?_
    | refine (spells_many (spells_step fun _ => spells_when spells_bindingName)).bind fun _ _ => ?_
    | refine (spells_namespaceBody hrecur).bind fun _ _ => ?_ | refine spells_pure_bind ?_
    | refine spells_step fun _ => ?_ | refine spells_ite (fun _ => ?_) fun _ => ?_ | split

theorem spells_typedDeclaration (hrecur : SpellsAll origin stop recur) {start : Nat}
    {kind : TypedStart} : Spells origin stop (typedDeclaration recur start kind) := by
  unfold typedDeclaration
  split
  · exact spells_typeAlias hrecur
  · exact spells_interface hrecur
  · exact spells_namespaceForm hrecur
  · exact spells_plainWord.bind fun _ hname => (spells_namespaceBody hrecur).bind fun _ hbody =>
      spells_form (by simp_all)
  · exact spells_enumeration hrecur
  · exact spells_step fun _ => spells_enumeration hrecur
  · exact spells_step fun _ => spells_classForm hrecur areWritten_nil
  · refine spells_step fun _ => (spells_within (hrecur _)).bind fun inner hinner => ?_
    split
    · exact spells_pure hinner
    · exact spells_form (by simp_all)

theorem spells_statement (hrecur : SpellsAll origin stop recur) :
    Spells origin stop (statement recur) := by
  unfold statement
  repeat' with_reducible first
    | exact spells_pure (by simp_all) | exact spells_typedDeclaration hrecur
    | exact spells_variableStatement hrecur | exact spells_classForm hrecur (by simp_all)
    | exact spells_functionForm hrecur | exact hrecur _
    | refine (spells_decorators hrecur).bind fun _ _ => ?_ | refine spells_pure_bind ?_
    | refine spells_step fun _ => ?_ | refine spells_ite (fun _ => ?_) fun _ => ?_ | split

/-! ## Imports and exports -/

theorem spells_importAttribute : Spells origin stop importAttribute := by
  unfold importAttribute
  repeat' with_reducible first
    | exact spells_pure (by simp_all) | exact spells_form (by simp_all)
    | refine spells_moduleName.bind fun _ _ => ?_ | refine spells_textNode.bind fun _ _ => ?_
    | refine spells_pure_bind ?_ | refine spells_step fun _ => ?_

theorem spells_importAttributes : Spells origin stop importAttributes := by
  unfold importAttributes
  repeat' with_reducible first
    | exact spells_pure (by simp_all) | exact spells_commaList spells_importAttribute
    | refine spells_pure_bind ?_ | refine spells_step fun _ => ?_
    | refine spells_ite (fun _ => ?_) fun _ => ?_

theorem spells_importedAs {imported : Node} (himported : AreWritten origin stop imported) :
    Spells origin stop (importedAs imported) := by
  unfold importedAs
  repeat' with_reducible first
    | exact spells_pure (by simp_all) | exact spells_bindingName | exact spells_fail
    | refine spells_pure_bind ?_ | refine spells_step fun _ => ?_
    | refine spells_ite (fun _ => ?_) fun _ => ?_ | split

theorem spells_importSpecifier : Spells origin stop importSpecifier := by
  unfold importSpecifier
  repeat' with_reducible first
    | exact spells_pure (by simp_all) | refine spells_moduleName.bind fun _ _ => ?_
    | refine (spells_importedAs (by assumption)).bind fun _ _ => ?_ | refine spells_pure_bind ?_
    | refine spells_step fun _ => ?_ | refine spells_ite (fun _ => ?_) fun _ => ?_

theorem spells_importEverything : Spells origin stop importEverything := by
  unfold importEverything
  repeat' with_reducible first
    | exact spells_pure (by simp_all) | refine spells_bindingName.bind fun _ _ => ?_
    | refine spells_pure_bind ?_ | refine spells_step fun _ => ?_

theorem spells_importClause : Spells origin stop importClause := by
  unfold importClause
  repeat' with_reducible first
    | exact spells_pure (by simp_all) | exact spells_commaList spells_importSpecifier
    | refine spells_importEverything.bind fun _ _ => ?_
    | refine spells_bindingName.bind fun _ _ => ?_
    | refine (spells_commaList spells_importSpecifier).bind fun _ _ => ?_
    | refine spells_pure_bind ?_ | refine spells_step fun _ => ?_
    | refine spells_ite (fun _ => ?_) fun _ => ?_

theorem spells_importTarget : Spells origin stop importTarget := by
  unfold importTarget
  repeat' with_reducible first
    | exact spells_pure (by simp_all) | exact spells_form (by simp_all) | exact spells_typeName
    | refine spells_textNode.bind fun _ _ => ?_ | refine spells_pure_bind ?_
    | refine spells_step fun _ => ?_ | refine spells_ite (fun _ => ?_) fun _ => ?_

theorem spells_importDeclaration {start : Nat} {isExported : Bool} :
    Spells origin stop (importDeclaration start isExported) := by
  unfold importDeclaration
  repeat' with_reducible first
    | exact spells_pure (by simp_all) | exact spells_form (by simp_all)
    | refine spells_importAttributes.bind fun _ _ => ?_
    | refine spells_bindingName.bind fun _ _ => ?_ | refine spells_importTarget.bind fun _ _ => ?_
    | refine spells_importClause.bind fun _ _ => ?_ | refine spells_pure_bind ?_
    | refine spells_step fun _ => ?_ | refine spells_ite (fun _ => ?_) fun _ => ?_

theorem spells_exportSpecifier : Spells origin stop exportSpecifier := by
  unfold exportSpecifier
  repeat' with_reducible first
    | exact spells_pure (by simp_all) | exact spells_form (by simp_all)
    | refine spells_moduleName.bind fun _ _ => ?_ | refine spells_pure_bind ?_
    | refine spells_step fun _ => ?_ | refine spells_ite (fun _ => ?_) fun _ => ?_

theorem areWritten_localName? {node : Node} (h : node.IsWritten origin stop) :
    AreWritten origin stop (localName? node) := by
  unfold localName?
  split
  · split
    · exact areWritten_none
    · exact areWritten_some.mpr (by simpa using h)
  · exact areWritten_none

theorem areWritten_localNames {names : List Node} (h : AreWritten origin stop names) :
    AreWritten origin stop (names.mapM localName?) := by
  induction names with
  | nil => exact areWritten_some.mpr areWritten_nil
  | cons name names ih =>
      obtain ⟨hname, hnames⟩ := areWritten_cons.mp h
      rw [List.mapM_cons]
      exact areWritten_bind (areWritten_localName? hname) fun _ hfirst =>
        areWritten_bind (ih hnames) fun _ hothers =>
          areWritten_some.mpr (areWritten_cons.mpr ⟨hfirst, hothers⟩)

theorem spells_exportNames {start : Nat} {typeOnly : Bool} :
    Spells origin stop (exportNames start typeOnly) := by
  unfold exportNames
  refine spells_step fun _ => (spells_commaList spells_exportSpecifier).bind fun names hnames => ?_
  refine spells_step fun foreign => spells_ite (fun _ => ?_) fun _ => ?_
  · exact spells_textNode.bind fun _ hsource => spells_importAttributes.bind fun _ hattributes =>
      spells_step fun _ => spells_form (by simp_all)
  · have hlocals := areWritten_localNames hnames
    split
    · exact spells_fail
    · rename_i heq
      rw [heq] at hlocals
      exact spells_step fun _ => spells_form (areWritten_some.mp hlocals)

theorem spells_exportAll {start : Nat} {typeOnly : Bool} :
    Spells origin stop (exportAll start typeOnly) := by
  unfold exportAll
  repeat' with_reducible first
    | exact spells_pure (by simp_all) | exact spells_form (by simp_all)
    | refine spells_moduleName.bind fun _ _ => ?_ | refine spells_textNode.bind fun _ _ => ?_
    | refine spells_importAttributes.bind fun _ _ => ?_ | refine spells_pure_bind ?_
    | refine spells_step fun _ => ?_ | refine spells_ite (fun _ => ?_) fun _ => ?_

theorem spells_exportDefault (hrecur : SpellsAll origin stop recur) {start : Nat} :
    Spells origin stop (exportDefault recur start) := by
  unfold exportDefault
  repeat' with_reducible first
    | exact spells_pure (by simp_all) | exact spells_form (by simp_all)
    | refine (spells_functionForm hrecur).bind fun _ _ => ?_ | refine (hrecur _).bind fun _ _ => ?_
    | refine (spells_classForm hrecur areWritten_nil).bind fun _ _ => ?_
    | refine (spells_interface hrecur).bind fun _ _ => ?_
    | refine (spells_within (hrecur _)).bind fun _ _ => ?_ | refine spells_pure_bind ?_
    | refine spells_step fun _ => ?_ | refine spells_ite (fun _ => ?_) fun _ => ?_

theorem spells_exportDeclaration (hrecur : SpellsAll origin stop recur) :
    Spells origin stop (exportDeclaration recur) := by
  unfold exportDeclaration
  repeat' with_reducible first
    | exact spells_pure (by simp_all) | exact spells_form (by simp_all) | exact spells_exportAll
    | exact spells_exportNames | exact spells_exportDefault hrecur
    | exact spells_importDeclaration | refine spells_plainWord.bind fun _ _ => ?_
    | refine (spells_within (hrecur _)).bind fun _ _ => ?_ | refine (hrecur _).bind fun _ _ => ?_
    | refine spells_pure_bind ?_ | refine spells_step fun _ => ?_
    | refine spells_ite (fun _ => ?_) fun _ => ?_

theorem spells_decoratedExport (hrecur : SpellsAll origin stop recur) :
    Spells origin stop (decoratedExport recur) := by
  unfold decoratedExport
  refine spells_step fun start => (spells_decorators hrecur).bind fun decorators hdecorators => ?_
  refine spells_step fun _ => spells_step fun _ => ?_
  refine (spells_exportDeclaration hrecur).bind fun node hnode => ?_
  split
  · exact spells_pure (by simp_all)
  · exact spells_pure (by simp_all)
  · exact spells_fail

theorem spells_item (hrecur : SpellsAll origin stop recur) : Spells origin stop (item recur) := by
  unfold item
  refine spells_step fun imports => spells_ite (fun _ => ?_) fun _ => ?_
  · exact spells_step fun start => spells_importDeclaration
  refine spells_step fun exports => spells_ite (fun _ => ?_) fun _ => ?_
  · exact spells_exportDeclaration hrecur
  refine spells_step fun decorated => ?_
  extract_lets next
  have hnext : ∀ node?, AreWritten origin stop node? → Spells origin stop (next node?) := by
    intro node? hnode
    cases node? with
    | none => exact hrecur _
    | some node => exact spells_pure (areWritten_some.mp hnode)
  refine spells_ite (fun _ => ?_) fun _ => ?_
  · exact (spells_attempt (spells_decoratedExport hrecur)).bind hnext
  · exact spells_pure_bind (hnext _ areWritten_none)

/-! ## The grammar -/

theorem spells_rule (hrecur : SpellsAll origin stop recur) {goal : Goal} :
    Spells origin stop (rule recur goal) := by
  cases goal with
  | expression => exact spells_expression hrecur
  | assignment => exact spells_assignment hrecur
  | binary minimum => exact spells_binary hrecur
  | unary => exact spells_unary hrecur
  | member => exact spells_callChain hrecur
  | bindingTarget => exact spells_bindingTarget hrecur
  | statement => exact spells_statement hrecur
  | subStatement => exact spells_subStatement hrecur
  | item => exact spells_item hrecur
  | block => exact spells_block hrecur
  | functionBody => exact spells_functionBody hrecur
  | classDefinition => exact spells_decoratedClass hrecur
  | type => exact spells_anyType hrecur
  | postfixType => exact spells_operatorType hrecur
  | markup => exact spells_markupElement hrecur

/-- **Trees tell where their names stand.**  Whatever the grammar answers, the names in it are
written where the tree says. -/
theorem spells_grammar (depth : Nat) : SpellsAll origin stop (grammar depth) := by
  induction depth with
  | zero => exact fun goal => spells_fail
  | succ depth ih => exact fun goal => spells_rule ih

end FontHosting.Script
