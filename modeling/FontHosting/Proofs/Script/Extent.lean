import FontHosting.Proofs.Script.Place
import FontHosting.Proofs.Script.Run
import FontHosting.Script.Rules

/-!
# What an item covers

An item covers the text from the token it starts with to the last token passed
(`covers_itemAt`).  The tree of every rule for items is put together in its last step,
from the place where the rule started, so nothing has to be known about the steps before.
-/

namespace FontHosting.Script

open FontHosting.Script.Parser

/-- Whether a name may be bound where it is written. -/
def MayBind (context : Context) (name : String) : Prop :=
  isName name.toList ∧ mayName context name

/-- The name that the first of several variables binds, if that is a name. -/
def firstName? : List Node → Option String
  | .declarator (.binding name _) _ _ _ :: _ => some name
  | _ => none

/-- Whether an import specifier binds a name, and one that may be bound. -/
def Node.SpecifiesName (context : Context) : Node → Prop
  | .importSpecifier _ (.binding name _) _ => MayBind context name
  | _ => False

/-- Whether the first name that a declaration binds may be bound, and all that an import does. -/
def Node.BindsName (context : Context) : Node → Prop
  | .variables _ declarators _ => ∀ name, firstName? declarators = some name → MayBind context name
  | .importFrom _ specifiers _ _ _ => ∀ specifier ∈ specifiers, specifier.SpecifiesName context
  | .exported declaration _ => declaration.BindsName context
  | _ => True

/-- Whether an item covers the text from a start to the last token passed. -/
def Covers (context : Context) (start : Nat) (node : Node) (after : State) : Prop :=
  node.span = ⟨start, after.previous.offset⟩ ∧ node.BindsName context

/-- What is promised of the answer to a goal. -/
def Promise (context : Context) (before : State) : Goal → Node → State → Prop
  | .item, node, after | .statement, node, after | .subStatement, node, after
  | .block, node, after | .classDefinition, node, after =>
      Covers context before.token.start node after
  | .bindingTarget, node, _ => ∀ name span, node = .binding name span → MayBind context name
  | _, _, _ => True

/-- Whether rules keep what is promised of their goals. -/
def Keeps (recur : Recur) : Prop :=
  ∀ goal context state, (recur goal).Post context state (Promise context state goal)

variable {context : Context} {state : State} {start : Nat} {recur : Recur}

theorem post_form {kind : Form} {parts : List Node} :
    (form start kind parts).Post context state (Covers context start) := by
  rintro _ _ ⟨⟩
  exact ⟨rfl, trivial⟩

theorem post_spanFrom {build : Span → Node} (hspan : ∀ span, (build span).span = span)
    (hbinds : ∀ span, (build span).BindsName context) :
    (do return build (← spanFrom start) : Parser Node).Post context state
      (Covers context start) := by
  rintro _ _ ⟨⟩
  exact ⟨hspan _, hbinds _⟩

/-! ## Names that are bound -/

theorem post_bindingName : bindingName.Post context state fun node _ =>
    ∃ name span, node = .binding name span ∧ MayBind context name := by
  intro node after hrun
  cases hword : state.token.word? with
  | none => simp [bindingName, hword] at hrun
  | some word =>
      have hname := state.reading.named hword
      by_cases hmay : mayName context word
      · simp [bindingName, hword, hmay] at hrun
        obtain ⟨rfl, -⟩ := hrun
        exact ⟨word, _, rfl, hname, hmay⟩
      · simp [bindingName, hword, hmay] at hrun

theorem post_bindingTarget : (bindingTarget recur).Post context state
    fun node _ => ∀ name span, node = .binding name span → MayBind context name := by
  unfold bindingTarget
  refine post_bind fun start _ => post_bind fun opens _ => ?_
  split
  · refine post_bind fun parts _ => ?_
    rintro _ _ ⟨⟩
    nofun
  · refine post_bind fun opens _ => ?_
    split
    · refine post_bind fun parts _ => ?_
      rintro _ _ ⟨⟩
      nofun
    · rintro node after hrun
      obtain ⟨name, span, rfl, hmay⟩ := post_bindingName node after hrun
      rintro _ _ ⟨⟩
      exact hmay

/-- The first of the variables of a declaration binds a name that may be bound. -/
theorem post_declarator (hrecur : Keeps recur) {kind : VariableKind} {inHead : Bool} :
    (declarator recur kind inHead).Post context state fun node _ =>
      ∀ others name, firstName? (node :: others) = some name → MayBind context name := by
  unfold declarator
  refine post_bind fun start before => ?_
  refine Post.bind (hrecur .bindingTarget context before) fun target after htarget => ?_
  have hend : ∀ {before type initial}, (do
      return .declarator target type initial (← spanFrom start) : Parser Node).Post context before
        fun node _ =>
          ∀ others name, firstName? (node :: others) = some name → MayBind context name := by
    rintro before type initial _ _ ⟨⟩ others name hname
    cases target with
    | binding bound place =>
        cases hname
        exact htarget _ place rfl
    | _ => cases hname
  repeat' with_reducible first | exact hend | refine post_bind fun _ _ => ?_ | split

/-! ## Items -/

theorem post_block : (block recur).Post context state (Covers context state.token.start) := by
  unfold block
  exact post_startHere (post_bind fun _ _ => post_form)

theorem post_forLoop : (forLoop recur).Post context state (Covers context state.token.start) := by
  unfold forLoop
  refine post_startHere ?_
  repeat' with_reducible first | exact post_form | refine post_bind fun _ _ => ?_ | split

theorem post_doLoop : (doLoop recur).Post context state (Covers context state.token.start) := by
  unfold doLoop
  refine post_startHere ?_
  repeat' with_reducible first | exact post_form | refine post_bind fun _ _ => ?_

theorem post_switchStatement :
    (switchStatement recur).Post context state (Covers context state.token.start) := by
  unfold switchStatement
  refine post_startHere ?_
  repeat' with_reducible first | exact post_form | refine post_bind fun _ _ => ?_

theorem post_tryStatement :
    (tryStatement recur).Post context state (Covers context state.token.start) := by
  unfold tryStatement
  refine post_startHere ?_
  repeat' with_reducible first | exact post_form | refine post_bind fun _ _ => ?_ | split

theorem post_jump {kind : Form} :
    (jump kind).Post context state (Covers context state.token.start) := by
  unfold jump
  refine post_startHere ?_
  repeat' with_reducible first | exact post_form | refine post_bind fun _ _ => ?_ | split

theorem post_classForm {decorators : List Node} :
    (classForm recur start decorators).Post context state (Covers context start) := by
  unfold classForm
  repeat' with_reducible first
    | exact post_form | refine post_bind fun _ _ => ?_ | split | dsimp only

theorem post_keywordStatement {word : String} :
    (keywordStatement recur state.token.start word).Post context state
      (Covers context state.token.start) := by
  unfold keywordStatement
  split
  case h_2 => exact post_forLoop
  case h_4 => exact post_doLoop
  case h_5 => exact post_switchStatement
  case h_6 => exact post_tryStatement
  case h_7 | h_8 => exact post_jump
  all_goals
    repeat' with_reducible first
      | exact post_form | exact post_fail | refine post_bind fun _ _ => ?_ | split

theorem post_expressionStatement :
    (expressionStatement recur).Post context state (Covers context state.token.start) := by
  unfold expressionStatement
  refine post_startHere ?_
  repeat' with_reducible first | exact post_form | refine post_bind fun _ _ => ?_ | split

theorem post_functionForm {isAsync isStatement needsName : Bool} :
    (functionForm recur start isAsync isStatement needsName).Post context state
      (Covers context start) := by
  unfold functionForm
  repeat' with_reducible first | exact post_form | refine post_bind fun _ _ => ?_ | split

theorem post_enumeration {isConst : Bool} :
    (enumeration recur start isConst).Post context state (Covers context start) := by
  unfold enumeration
  repeat' with_reducible first | exact post_form | refine post_bind fun _ _ => ?_

theorem post_typeAlias : (typeAlias recur start).Post context state (Covers context start) := by
  unfold typeAlias
  repeat' with_reducible first | exact post_form | refine post_bind fun _ _ => ?_

theorem post_interface : (interface recur start).Post context state (Covers context start) := by
  unfold interface
  repeat' with_reducible first | exact post_form | refine post_bind fun _ _ => ?_ | split

theorem post_namespaceForm {keyword : String} :
    (namespaceForm recur start keyword).Post context state (Covers context start) := by
  unfold namespaceForm
  repeat' with_reducible first | exact post_form | refine post_bind fun _ _ => ?_ | split

/-- A list with commas starts with an item. -/
theorem post_commaSeparated {α : Type} {item : Parser α} {holds : α → Prop}
    (hitem : item.Post context state fun value _ => holds value) :
    (commaSeparated item).Post context state fun items _ =>
      ∃ first others, items = first :: others ∧ holds first := by
  unfold commaSeparated
  refine Post.bind hitem fun first after hfirst => post_bind fun others _ => ?_
  exact post_pure ⟨first, others, rfl, hfirst⟩

theorem post_variableList (hrecur : Keeps recur) {kind : VariableKind} {inHead : Bool} :
    (variableList recur kind inHead).Post context state fun declarators _ =>
      ∀ name, firstName? declarators = some name → MayBind context name := by
  have hlist : ∀ before, (commaSeparated (declarator recur kind inHead)).Post context before
      fun declarators _ => ∀ name, firstName? declarators = some name → MayBind context name := by
    intro before declarators after hrun
    obtain ⟨first, others, rfl, hfirst⟩ :=
      post_commaSeparated (post_declarator hrecur) declarators after hrun
    exact hfirst others
  unfold variableList
  split
  · exact post_bind fun _ _ => post_bind fun _ _ => hlist _
  · exact post_bind fun _ _ => hlist _

theorem post_variableStatement (hrecur : Keeps recur) {kind : VariableKind} :
    (variableStatement recur start kind).Post context state (Covers context start) := by
  unfold variableStatement
  refine Post.bind (post_variableList hrecur) fun declarators _ hbinds => post_bind fun _ _ => ?_
  exact post_spanFrom (fun _ => rfl) fun _ => hbinds

theorem still_variableKind? : variableKind?.Still := by
  unfold variableKind?
  refine still_token.bind fun token => still_peek.bind fun following =>
    still_read.bind fun context => ?_
  repeat' with_reducible first | exact still_pure _ | refine (still_fits _).bind fun _ => ?_ | split

theorem still_typedStart? : typedStart?.Still := by
  unfold typedStart?
  refine still_token.bind fun token => still_peek.bind fun following =>
    still_read.bind fun context => ?_
  repeat' with_reducible first | exact still_pure _ | split

theorem still_asyncFunctionStarts : asyncFunctionStarts.Still := by
  unfold asyncFunctionStarts
  exact still_peek.bind fun following => (still_atKeyword _).bind fun _ => still_pure _

theorem post_subStatement (hrecur : Keeps recur) :
    (subStatement recur).Post context state (Covers context state.token.start) := by
  unfold subStatement
  refine post_startHere
    (still_token.post_bind fun token => still_variableKind?.post_bind fun kind => ?_)
  split
  · exact hrecur .block context state
  split
  · exact post_bind fun _ _ => post_form
  split
  · exact post_variableStatement hrecur
  refine (still_require _).post_bind fun _ => ?_
  split
  · split
    · exact post_expressionStatement
    split
    · exact post_keywordStatement
    split
    · refine Post.bind post_functionForm fun function after hfunction => ?_
      exact (still_require _).post_bind fun _ => post_pure hfunction
    · refine still_asyncFunctionStarts.post_bind fun _ => (still_require _).post_bind fun _ => ?_
      exact post_expressionStatement
  · exact post_expressionStatement

theorem post_typedDeclaration (hrecur : Keeps recur) {kind : TypedStart} :
    (typedDeclaration recur start kind).Post context state (Covers context start) := by
  unfold typedDeclaration
  split
  case h_1 => exact post_typeAlias
  case h_2 => exact post_interface
  case h_3 => exact post_namespaceForm
  case h_4 => repeat' with_reducible first | exact post_form | refine post_bind fun _ _ => ?_
  case h_5 => exact post_enumeration
  case h_6 => exact post_bind fun _ _ => post_enumeration
  case h_7 => exact post_bind fun _ _ => post_classForm
  case h_8 =>
    refine post_bind fun _ before => Post.bind (hrecur .item _ before) fun inner after hinner => ?_
    split
    · -- a declared variable takes the place of the whole declaration
      obtain ⟨hspan, hbinds⟩ := hinner
      cases hspan
      exact post_pure ⟨rfl, hbinds⟩
    · exact post_form

theorem post_statement (hrecur : Keeps recur) :
    (statement recur).Post context state (Covers context state.token.start) := by
  unfold statement
  refine post_startHere (still_typedStart?.post_bind fun kind => ?_)
  split
  · exact post_typedDeclaration hrecur
  refine still_variableKind?.post_bind fun kind => ?_
  split
  · exact post_variableStatement hrecur
  refine (still_atKeyword _).post_bind fun _ => ?_
  split
  · exact post_classForm
  refine (still_at? _).post_bind fun _ => ?_
  split
  · exact post_bind fun _ _ => post_bind fun _ _ => post_classForm
  refine (still_atKeyword _).post_bind fun _ => ?_
  split
  · exact post_functionForm
  refine still_asyncFunctionStarts.post_bind fun _ => ?_
  split
  · exact post_bind fun _ _ => post_functionForm
  · exact hrecur .subStatement context state

/-! ## Imports and exports -/

theorem post_plainWord : plainWord.Post context state fun node _ =>
    ∀ name span, node = .word name span → isName name.toList := by
  intro node after hrun
  cases hword : state.token.word? with
  | none => simp [plainWord, hword] at hrun
  | some word =>
      simp [plainWord, hword] at hrun
      obtain ⟨rfl, -⟩ := hrun
      rintro _ _ ⟨⟩
      exact state.reading.named hword

theorem post_textNode : textNode.Post context state fun node _ => ∃ text span,
    node = .text text span := by
  unfold textNode
  refine post_bind fun span _ => post_bind fun token _ => ?_
  split
  · exact post_bind fun _ _ => post_pure ⟨_, _, rfl⟩
  · exact post_fail

theorem post_moduleName : moduleName.Post context state fun node _ =>
    ∀ name span, node = .word name span → isName name.toList := by
  unfold moduleName
  refine post_bind fun token between => ?_
  split
  · rintro node after hrun name span rfl
    obtain ⟨text, place, ⟨⟩⟩ := post_textNode _ after hrun
  · exact post_plainWord

theorem post_importedAs {imported : Node}
    (himported : ∀ name span, imported = .word name span → isName name.toList) :
    (importedAs imported).Post context state fun node _ =>
      ∃ name span, node = .binding name span ∧ MayBind context name := by
  unfold importedAs
  refine post_bind fun renamed between => ?_
  split
  · exact post_bindingName
  · split
    · rename_i name span
      intro node after hrun
      by_cases hmay : mayName context name <;> simp [hmay] at hrun
      exact ⟨name, span, hrun.1.symm, himported name span rfl, hmay⟩
    · exact post_fail

theorem post_importSpecifier : importSpecifier.Post context state fun node _ =>
    node.SpecifiesName context := by
  unfold importSpecifier
  refine post_bind fun start _ => post_bind fun marked _ => ?_
  have hrest : ∀ before, (do
      let imported ← moduleName
      let target ← importedAs imported
      return .importSpecifier (importedOf imported) target (← spanFrom start) :
        Parser Node).Post context before fun node _ => node.SpecifiesName context := by
    intro before
    refine Post.bind post_moduleName fun imported _ himported => ?_
    refine Post.bind (post_importedAs himported) fun target _ htarget => post_bind fun _ _ => ?_
    obtain ⟨name, span, rfl, hmay⟩ := htarget
    exact post_pure hmay
  split
  · exact post_bind fun _ _ => hrest _
  · exact hrest _

theorem post_importEverything : importEverything.Post context state fun node _ =>
    node.SpecifiesName context := by
  unfold importEverything
  refine post_bind fun start _ => post_bind fun _ _ => post_bind fun _ _ => ?_
  refine Post.bind post_bindingName fun target _ htarget => post_bind fun _ _ => ?_
  obtain ⟨name, span, rfl, hmay⟩ := htarget
  exact post_pure hmay

theorem post_collect {α : Type} {step : Parser (Option α)} {holds : α → Prop}
    (hstep : ∀ before, step.Post context before fun value? _ => ∀ value ∈ value?, holds value)
    {fuel : Nat} {done : List α} (hdone : ∀ value ∈ done, holds value) :
    (Parser.collect step fuel done).Post context state fun values _ =>
      ∀ value ∈ values, holds value := by
  induction fuel generalizing done state with
  | zero => exact post_pure fun value hvalue => hdone value (List.mem_reverse.mp hvalue)
  | succ fuel ih =>
      refine Post.bind (hstep state) fun value? between hvalue => ?_
      split
      · exact post_pure fun value hvalue => hdone value (List.mem_reverse.mp hvalue)
      · exact ih (List.forall_mem_cons.mpr ⟨hvalue _ rfl, hdone⟩)

theorem post_many {α : Type} {step : Parser (Option α)} {holds : α → Prop}
    (hstep : ∀ before, step.Post context before fun value? _ => ∀ value ∈ value?, holds value) :
    step.many.Post context state fun values _ => ∀ value ∈ values, holds value :=
  post_bind fun _ _ => post_collect hstep nofun

theorem post_commaList {α : Type} {close : String} {item : Parser α} {holds : α → Prop}
    (hitem : ∀ before, item.Post context before fun value _ => holds value) :
    (commaList close item).Post context state fun items _ => ∀ value ∈ items, holds value := by
  unfold commaList
  refine Post.bind (post_many fun before => ?_) fun items _ hitems =>
    post_bind fun _ _ => post_pure hitems
  refine post_bind fun closes _ => ?_
  split
  · exact post_pure nofun
  · refine Post.bind (hitem _) fun value _ hvalue => post_bind fun _ _ => ?_
    have hsome : ∀ other ∈ some value, holds other := by
      rintro _ ⟨⟩
      exact hvalue
    split
    · exact post_bind fun _ _ => post_pure hsome
    · exact post_pure hsome

theorem post_importClause : importClause.Post context state fun specifiers _ =>
    ∀ specifier ∈ specifiers, specifier.SpecifiesName context := by
  unfold importClause
  refine post_bind fun starred _ => ?_
  split
  · refine Post.bind post_importEverything fun node _ hnode => post_pure ?_
    exact List.forall_mem_singleton.mpr hnode
  refine post_bind fun braced _ => ?_
  split
  · exact post_commaList fun _ => post_importSpecifier
  refine post_bind fun start _ => Post.bind post_bindingName fun target _ htarget => ?_
  obtain ⟨name, span, rfl, hmay⟩ := htarget
  refine post_bind fun span _ => post_bind fun continued _ => ?_
  split
  · refine post_bind fun starred _ => ?_
    split
    · refine Post.bind post_importEverything fun node _ hnode => post_pure ?_
      exact List.forall_mem_cons.mpr ⟨hmay, List.forall_mem_singleton.mpr hnode⟩
    · refine post_bind fun _ _ => ?_
      refine Post.bind (post_commaList fun _ => post_importSpecifier) fun others _ hothers => ?_
      exact post_pure (List.forall_mem_cons.mpr ⟨hmay, hothers⟩)
  · exact post_pure (List.forall_mem_singleton.mpr hmay)

theorem post_importDeclaration {isExported : Bool} :
    (importDeclaration start isExported).Post context state (Covers context start) := by
  have hclause : ∀ before typeOnly, (do
      let specifiers ← importClause
      expectKeyword "from"
      let source ← moduleSource
      let attributes ← importAttributes
      semicolon
      return .importFrom typeOnly specifiers source attributes (← spanFrom start) :
        Parser Node).Post context before (Covers context start) := by
    intro before typeOnly
    refine Post.bind post_importClause fun specifiers _ hspecifiers => post_bind fun _ _ => ?_
    refine post_bind fun _ _ => post_bind fun _ _ => post_bind fun _ _ => ?_
    exact post_spanFrom (fun _ => rfl) fun _ => hspecifiers
  have hempty : ∀ before source attributes, (do
      return .importFrom false [] source attributes (← spanFrom start) :
        Parser Node).Post context before (Covers context start) :=
    fun _ _ _ => post_spanFrom (fun _ => rfl) fun _ => nofun
  unfold importDeclaration
  repeat' with_reducible first
    | exact hclause _ _ | exact post_form | exact hempty _ _ _
    | refine post_bind fun _ _ => ?_ | split

theorem post_exportAll {typeOnly : Bool} :
    (exportAll start typeOnly).Post context state (Covers context start) := by
  unfold exportAll
  repeat' with_reducible first | exact post_form | refine post_bind fun _ _ => ?_ | split

theorem post_exportNames {typeOnly : Bool} :
    (exportNames start typeOnly).Post context state (Covers context start) := by
  unfold exportNames
  repeat' with_reducible first
    | exact post_form | exact post_fail | refine post_bind fun _ _ => ?_ | split

theorem post_exportDefault :
    (exportDefault recur start).Post context state (Covers context start) := by
  unfold exportDefault
  repeat' with_reducible first | exact post_form | refine post_bind fun _ _ => ?_ | split

theorem post_exportDeclaration (hrecur : Keeps recur) :
    (exportDeclaration recur).Post context state (Covers context state.token.start) := by
  unfold exportDeclaration
  refine post_startHere ?_
  generalize state.token.start = start
  have hexported : ∀ before, (do
      let declaration ← recur .statement
      require (isDeclaration declaration)
      return .exported declaration (← spanFrom start) : Parser Node).Post context before
        (Covers context start) := by
    intro before
    refine Post.bind (hrecur .statement context before) fun declaration after hinner => ?_
    exact post_bind fun _ _ => post_spanFrom (fun _ => rfl) fun _ => hinner.2
  repeat' with_reducible first
    | exact post_form | exact post_exportAll | exact post_exportNames | exact post_exportDefault
    | exact post_importDeclaration | exact hexported _ | refine post_bind fun _ _ => ?_ | split

theorem post_decoratedExport (hrecur : Keeps recur) :
    (decoratedExport recur).Post context state (Covers context state.token.start) := by
  unfold decoratedExport
  refine post_startHere (post_bind fun decorators _ => post_bind fun _ _ => ?_)
  refine post_bind fun _ before => ?_
  refine Post.bind (post_exportDeclaration hrecur) fun inner after hinner => ?_
  split
  · obtain ⟨hspan, -⟩ := hinner
    cases hspan
    exact post_pure ⟨rfl, trivial⟩
  · obtain ⟨hspan, -⟩ := hinner
    cases hspan
    exact post_pure ⟨rfl, trivial⟩
  · exact post_fail

theorem still_importStarts : importStarts.Still := by
  unfold importStarts
  exact still_peek.bind fun following => (still_atKeyword _).bind fun _ => still_pure _

theorem post_item (hrecur : Keeps recur) :
    (item recur).Post context state (Covers context state.token.start) := by
  unfold item
  refine still_importStarts.post_bind fun _ => ?_
  split
  · exact post_startHere post_importDeclaration
  refine (still_atKeyword _).post_bind fun _ => ?_
  split
  · exact post_exportDeclaration hrecur
  refine (still_at? _).post_bind fun _ => ?_
  dsimp only
  split
  · refine Post.bind (post_attempt (post_decoratedExport hrecur)) fun decorated after h => ?_
    rcases h with ⟨node, rfl, hnode⟩ | ⟨rfl, rfl⟩
    · exact post_pure hnode
    · exact hrecur .statement context after
  · exact post_pure_bind (hrecur .statement context state)

theorem post_decoratedClass :
    (decoratedClass recur).Post context state (Covers context state.token.start) := by
  unfold decoratedClass
  exact post_startHere (post_bind fun _ _ => post_classForm)

/-! ## The grammar -/

theorem keeps_rule (hrecur : Keeps recur) : Keeps (rule recur) := by
  intro goal context state
  cases goal with
  | statement => exact post_statement hrecur
  | subStatement => exact post_subStatement hrecur
  | item => exact post_item hrecur
  | block => exact post_block
  | classDefinition => exact post_decoratedClass
  | bindingTarget => exact post_bindingTarget
  | _ => exact fun _ _ _ => trivial

theorem keeps_grammar (depth : Nat) : Keeps (grammar depth) := by
  induction depth with
  | zero => exact fun _ _ _ => post_fail
  | succ depth ih => exact keeps_rule ih

/-- **An item covers the text from its first token to the place behind its last one.** -/
theorem covers_itemAt {language : Language} {depth : Nat} {state : State} {node : Node}
    {next : Source} (h : itemAt? language depth state = some (node, next)) :
    state.token.kind ≠ .invalid ∧ node.span = ⟨state.here.offset, next.offset⟩ ∧
      node.BindsName (topLevel language) ∧ state.here.Leads next ∧
      next.rest.length < state.here.rest.length := by
  unfold itemAt? at h
  split at h
  · cases h
  · rename_i hkind
    obtain ⟨reply, hreply, h⟩ := Option.bind_eq_some_iff.mp h
    dsimp only at h
    split at h
    · rename_i hpassed
      cases h
      have hrun : (grammar depth .item).run (topLevel language) state =
          some (reply.value, reply.after) := by rw [Parser.run, hreply]; rfl
      obtain ⟨hspan, hbinds⟩ := keeps_grammar depth .item _ state _ _ hrun
      refine ⟨hkind, by rw [hspan]; exact congrArg (Span.mk · _) state.reading.start_eq, hbinds,
        ?_, hpassed⟩
      rcases reply.reaches with ⟨-, hprevious⟩ | hleads
      · -- a place in front of the item has more of the text behind it
        obtain ⟨passed, hrest, -⟩ := Source.leads_iff.mp state.leads
        rw [hprevious, hrest, List.length_append] at hpassed
        omega
      · exact hleads
    · cases h

end FontHosting.Script
