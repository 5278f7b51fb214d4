import FontHosting.Proofs.FontCall.Collecting

/-!
# The second pass of an analysis

The second pass through the statements of a script takes up the declarations that start with a
call of a font function.  What it makes of one of them depends on the names alone, not on the
declarations in front of it, so `replaceCalls` ends with `replaced` unless one of them is misused.
-/

namespace FontHosting.FontCall

open Script (Node Occurrence Program VariableKind)

variable {settings : Settings} {module : String} {program : Program}

/-! ## Calls of font functions -/

/-- A declaration that starts with a call of a name. -/
structure Declaration where
  /-- Where the statement starts. -/
  statement : Nat
  /-- Where the declaration starts in it, behind `export`. -/
  start : Nat
  kind : VariableKind
  declarators : List Node
  callee : Occurrence
  arguments : List Node
  isExported : Bool

/-- The name that the first of several variables gets its value from by a call. -/
def called? : List Node → Option (Occurrence × List Node)
  | .declarator _ _ [.call false (.reference name span) _ arguments _] _ :: _ =>
      some (⟨name, span.start⟩, arguments)
  | _ => none

/-- The declaration that a statement is, if it starts with a call of a name. -/
def declaration? : Node → Option Declaration
  | .variables kind declarators span => (called? declarators).map fun (callee, arguments) =>
      ⟨span.start, span.start, kind, declarators, callee, arguments, false⟩
  | .exported (.variables kind declarators inner) span =>
      (called? declarators).map fun (callee, arguments) =>
        ⟨span.start, inner.start, kind, declarators, callee, arguments, true⟩
  | _ => none

/-- The import that takes the place of a declaration. -/
def Declaration.replacement (settings : Settings) (module : String) (source : Source)
    (declaration : Declaration) : Except Fault Import := do
  let arguments ← argumentValues declaration.arguments
  if declaration.kind = .constant then
    let name ← boundName declaration.declarators
    return ⟨name, specifierOf settings module source arguments name⟩
  else .error ⟨.notConstant, declaration.start⟩

/-- The call of a font function that a statement starts with. -/
def fontCall? (functions : Table Source) (statement : Node) : Option (Declaration × Source) := do
  let declaration ← declaration? statement
  let source ← functions.get? declaration.callee.name
  return (declaration, source)

/-- An analysis with one more declaration replaced by an import. -/
def Analysis.replace (analysis : Analysis) (made : Declaration × Import) : Analysis :=
  { analysis with
    removable := made.1.statement :: analysis.removable
    allowed := made.1.callee.start :: analysis.allowed
    imports := pushImport analysis.imports made.2
    exports :=
      if made.1.isExported then analysis.exports ++ [made.2.name] else analysis.exports }

/-- What becomes of a statement, given the font functions. -/
def replacement? (settings : Settings) (module : String) (functions : Table Source)
    (statement : Node) : Option (Declaration × Import) := do
  let (declaration, source) ← fontCall? functions statement
  let stated ← (declaration.replacement settings module source).toOption
  return (declaration, stated)

theorem replacement?_eq_some_iff {functions : Table Source} {statement : Node}
    {one : Declaration × Import} :
    replacement? settings module functions statement = some one ↔
      ∃ source, fontCall? functions statement = some (one.1, source) ∧
        one.1.replacement settings module source = .ok one.2 := by
  unfold replacement?
  constructor
  · intro h
    obtain ⟨⟨declaration, source⟩, hcall, h⟩ := Option.bind_eq_some_iff.mp h
    obtain ⟨stated, hstated, h⟩ := Option.bind_eq_some_iff.mp h
    cases h
    refine ⟨source, hcall, ?_⟩
    cases hmade : declaration.replacement settings module source with
    | error fault => rw [hmade] at hstated; cases hstated
    | ok other => rw [hmade] at hstated; cases hstated; rfl
  · rintro ⟨source, hcall, hmade⟩
    simp [hcall, hmade, Except.toOption]

/-- What becomes of the statements of a script. -/
def replacements (settings : Settings) (module : String) (program : Program) :
    List (Declaration × Import) :=
  program.statements.filterMap
    (replacement? settings module (collected settings program).functions)

/-- What is known after the second pass. -/
def replaced (settings : Settings) (module : String) (program : Program) : Analysis :=
  (replacements settings module program).foldl Analysis.replace (collected settings program)

/-- The first variable of a declaration is bound by a name, not by a pattern. -/
theorem boundName_eq_ok {declarators : List Node} {name : String}
    (h : boundName declarators = .ok name) :
    ∃ place type initial span rest,
      declarators = .declarator (.binding name place) type initial span :: rest := by
  unfold boundName at h
  split at h
  · cases h
    exact ⟨_, _, _, _, _, rfl⟩
  all_goals cases h

/-- What a declaration that is replaced is made of, and the import that takes its place. -/
theorem exists_call_of_mem_replacements {declaration : Declaration} {stated : Import}
    (h : (declaration, stated) ∈ replacements settings module program) :
    ∃ statement ∈ program.statements, ∃ source arguments,
      declaration? statement = some declaration ∧
      source? settings program declaration.callee.name = some source ∧
      argumentValues declaration.arguments = .ok arguments ∧
      boundName declaration.declarators = .ok stated.name ∧
      stated.specifier = specifierOf settings module source arguments stated.name := by
  obtain ⟨statement, hstatement, hmade⟩ := List.mem_filterMap.mp h
  obtain ⟨source, hcall, hmade⟩ := replacement?_eq_some_iff.mp hmade
  obtain ⟨_, hdeclaration, hcall⟩ := Option.bind_eq_some_iff.mp hcall
  obtain ⟨_, hsource, ⟨⟩⟩ := Option.bind_eq_some_iff.mp hcall
  rw [get?_functions] at hsource
  obtain ⟨arguments, harguments, h⟩ := bind_eq_ok hmade
  split at h
  · obtain ⟨name, hname, h⟩ := bind_eq_ok h
    cases h
    exact ⟨statement, hstatement, source, arguments, hdeclaration, hsource, harguments, hname, rfl⟩
  · cases h

theorem callOf?_eq (functions : Table Source) (declarators : List Node) :
    callOf? functions declarators = (called? declarators).bind fun (callee, arguments) =>
      (functions.get? callee.name).map fun source => ⟨source, callee.start, arguments⟩ := by
  unfold callOf?
  split
  · rfl
  · rename_i hnot
    have hnone : called? declarators = none := by
      unfold called?
      split
      · exact (hnot _ _ _ _ _ _ _ _ _ rfl).elim
      · rfl
    rw [hnone]
    rfl

theorem replaceInDeclaration_eq {analysis : Analysis} {declaration : Declaration}
    (hcalled : called? declaration.declarators = some (declaration.callee, declaration.arguments)) :
    replaceInDeclaration settings module analysis declaration.kind declaration.declarators
        declaration.start =
      match analysis.functions.get? declaration.callee.name with
      | some source => (declaration.replacement settings module source).map fun stated =>
          ({ analysis with
            allowed := declaration.callee.start :: analysis.allowed
            imports := pushImport analysis.imports stated }, some stated.name)
      | none => .ok (analysis, none) := by
  simp only [replaceInDeclaration, callOf?_eq, hcalled, Option.bind_some]
  cases analysis.functions.get? declaration.callee.name with
  | none => rfl
  | some source =>
      simp only [Option.map_some, Declaration.replacement]
      cases argumentValues declaration.arguments with
      | error fault => rfl
      | ok arguments =>
          by_cases hkind : declaration.kind = .constant
          · simp only [hkind, if_true]
            cases boundName declaration.declarators <;> rfl
          · simp only [hkind, if_false]
            rfl

theorem replaceInDeclaration_eq_none {analysis : Analysis} {kind : VariableKind}
    {declarators : List Node} {start : Nat} (hcalled : called? declarators = none) :
    replaceInDeclaration settings module analysis kind declarators start = .ok (analysis, none) := by
  rw [replaceInDeclaration, callOf?_eq, hcalled]
  rfl

/-- A statement of either form takes up its declaration, and goes on in the same way. -/
theorem replaceInDeclaration_bind {analysis : Analysis} {statement : Node}
    {declaration : Declaration} {change : Analysis × Option String → Except Fault Analysis}
    (hdeclaration : declaration? statement = some declaration)
    (hcalled : called? declaration.declarators = some (declaration.callee, declaration.arguments))
    (hmade : ∀ stated : Import, change ({ analysis with
        allowed := declaration.callee.start :: analysis.allowed
        imports := pushImport analysis.imports stated }, some stated.name) =
      .ok (analysis.replace (declaration, stated)))
    (hsame : change (analysis, none) = .ok analysis) :
    (replaceInDeclaration settings module analysis declaration.kind declaration.declarators
        declaration.start >>= change) =
      match fontCall? analysis.functions statement with
      | some (declaration, source) =>
          (declaration.replacement settings module source).map fun stated =>
            analysis.replace (declaration, stated)
      | none => .ok analysis := by
  rw [replaceInDeclaration_eq hcalled, fontCall?, hdeclaration]
  simp only [Option.bind_eq_bind, Option.bind_some]
  cases analysis.functions.get? declaration.callee.name with
  | none => exact hsame
  | some source =>
      simp only [Option.bind_some, pure]
      cases declaration.replacement settings module source with
      | error fault => rfl
      | ok stated => exact hmade stated

/-- A statement is taken up if it starts with a call of a font function. -/
theorem replaceInStatement_eq {analysis : Analysis} {statement : Node} :
    replaceInStatement settings module analysis statement =
      match fontCall? analysis.functions statement with
      | some (declaration, source) =>
          (declaration.replacement settings module source).map fun stated =>
            analysis.replace (declaration, stated)
      | none => .ok analysis := by
  unfold replaceInStatement
  split
  · rename_i kind declarators span
    cases hcalled : called? declarators with
    | none =>
        rw [replaceInDeclaration_eq_none hcalled, fontCall?, declaration?, hcalled]
        rfl
    | some found =>
        obtain ⟨callee, arguments⟩ := found
        exact @replaceInDeclaration_bind settings module analysis _
          ⟨span.start, span.start, kind, declarators, callee, arguments, false⟩ _
          (by rw [declaration?, hcalled]; rfl) hcalled (fun _ => rfl) rfl
  · rename_i kind declarators inner span
    cases hcalled : called? declarators with
    | none =>
        rw [replaceInDeclaration_eq_none hcalled, fontCall?, declaration?, hcalled]
        rfl
    | some found =>
        obtain ⟨callee, arguments⟩ := found
        exact @replaceInDeclaration_bind settings module analysis _
          ⟨span.start, inner.start, kind, declarators, callee, arguments, true⟩ _
          (by rw [declaration?, hcalled]; rfl) hcalled (fun _ => rfl) rfl
  · rename_i hvariables hexported
    have hnone : declaration? statement = none := by
      unfold declaration?
      split
      · exact (hvariables _ _ _ rfl).elim
      · exact (hexported _ _ _ _ rfl).elim
      · rfl
    rw [fontCall?, hnone]
    rfl

/-! ## The second pass -/

/-- What is known after declarations were replaced by imports. -/
structure Replaced (before : Analysis) (made : List (Declaration × Import)) (after : Analysis) :
    Prop where
  removable : ∀ start, start ∈ after.removable ↔
    start ∈ before.removable ∨ ∃ one ∈ made, one.1.statement = start
  allowed : ∀ start, start ∈ after.allowed ↔
    start ∈ before.allowed ∨ ∃ one ∈ made, one.1.callee.start = start
  functions : after.functions = before.functions
  imports : after.imports = (made.map Prod.snd).foldl pushImport before.imports
  exports : after.exports =
    before.exports ++ (made.filter (·.1.isExported)).map (·.2.name)

theorem Replaced.replace {before after : Analysis} {made : List (Declaration × Import)}
    (h : Replaced before made after) (one : Declaration × Import) :
    Replaced before (made ++ [one]) (after.replace one) := by
  refine ⟨fun start => ?_, fun start => ?_, h.functions, ?_, ?_⟩
  · simp only [Analysis.replace, List.mem_cons, h.removable, List.mem_append, List.not_mem_nil,
      or_false, or_and_right, exists_or, exists_eq_left, @eq_comm _ start]
    rw [or_comm, or_assoc]
  · simp only [Analysis.replace, List.mem_cons, h.allowed, List.mem_append, List.not_mem_nil,
      or_false, or_and_right, exists_or, exists_eq_left, @eq_comm _ start]
    rw [or_comm, or_assoc]
  · simp [Analysis.replace, h.imports]
  · cases hexported : one.1.isExported <;> simp [Analysis.replace, h.exports, hexported]

theorem replaced_foldl (before : Analysis) (made : List (Declaration × Import)) :
    Replaced before made (made.foldl Analysis.replace before) := by
  induction made using List.reverseRecOn with
  | nil => exact ⟨fun _ => by simp, fun _ => by simp, rfl, rfl, by simp⟩
  | append_singleton made one ih =>
      rw [List.foldl_append]
      exact ih.replace one

/-- **The second pass replaces the calls of font functions.** -/
theorem replaced_replacements (settings : Settings) (module : String) (program : Program) :
    Replaced (collected settings program) (replacements settings module program)
      (replaced settings module program) :=
  replaced_foldl _ _

/-- The calls of font functions in a script. -/
def fontCalls (settings : Settings) (program : Program) : List (Declaration × Source) :=
  program.statements.filterMap (fontCall? (collected settings program).functions)

theorem replaceCalls_eq_ok
    (h : ∀ call ∈ fontCalls settings program,
      ∃ stated, call.1.replacement settings module call.2 = .ok stated) :
    replaceCalls settings module (collected settings program) program =
      .ok (replaced settings module program) := by
  unfold replaced replacements
  rw [List.foldl_filterMap]
  refine foldlM_eq_ok (fun analysis => analysis.functions = (collected settings program).functions)
    _ (fun before hbefore statement hstatement => ?_) rfl
  rw [replaceInStatement_eq, hbefore]
  cases hcall : fontCall? (collected settings program).functions statement with
  | none =>
      rw [replacement?, hcall]
      exact ⟨rfl, hbefore⟩
  | some call =>
      obtain ⟨stated, hstated⟩ := h call (List.mem_filterMap.mpr ⟨statement, hstatement, hcall⟩)
      obtain ⟨declaration, source⟩ := call
      have hmade : replacement? settings module (collected settings program).functions statement =
          some (declaration, stated) := replacement?_eq_some_iff.mpr ⟨source, hcall, hstated⟩
      rw [hmade]
      simp only [hstated]
      exact ⟨rfl, hbefore⟩

theorem replaceCalls_eq_error {call : Declaration × Source}
    (hcall : call ∈ fontCalls settings program)
    (h : ∃ fault, call.1.replacement settings module call.2 = .error fault) :
    ∃ fault, replaceCalls settings module (collected settings program) program = .error fault := by
  obtain ⟨statement, hstatement, hcall⟩ := List.mem_filterMap.mp hcall
  obtain ⟨fault, hfault⟩ := h
  refine foldlM_eq_error
    (fun analysis => analysis.functions = (collected settings program).functions) _ ?_ hstatement
    (fun before hbefore => ⟨fault, ?_⟩) rfl
  · intro before hbefore statement _ after hstep
    rw [replaceInStatement_eq] at hstep
    split at hstep
    · rename_i declaration source _
      cases hmade : declaration.replacement settings module source with
      | error fault => rw [hmade] at hstep; cases hstep
      | ok stated =>
          rw [hmade] at hstep
          cases hstep
          exact hbefore
    · cases hstep
      exact hbefore
  · rw [replaceInStatement_eq, hbefore, hcall]
    simp only [hfault]
    rfl

/-! ## Imports and exports that are added -/

theorem mem_foldl_pushImport {made before : List Import} {stated : Import} :
    stated ∈ made.foldl pushImport before ↔ stated ∈ before ∨ stated ∈ made := by
  induction made generalizing before with
  | nil => simp
  | cons first rest ih =>
      rw [List.foldl_cons, ih, List.mem_cons]
      unfold pushImport
      split
      · rename_i hcontains
        have hmem := List.contains_iff_mem.mp hcontains
        constructor
        · exact Or.imp_right .inr
        · rintro (hbefore | rfl | hrest)
          · exact .inl hbefore
          · exact .inl hmem
          · exact .inr hrest
      · rw [List.mem_append, List.mem_singleton, or_assoc]

/-- The imports that are added are those of the declarations that are replaced. -/
theorem mem_imports_iff {stated : Import} :
    stated ∈ (replaced settings module program).imports ↔
      ∃ declaration, (declaration, stated) ∈ replacements settings module program := by
  rw [(replaced_replacements settings module program).imports,
    (collected_statements settings program).imports, mem_foldl_pushImport, List.mem_map]
  simp

/-- The exports that are added are those of the exported declarations that are replaced. -/
theorem mem_exports_iff {name : String} :
    name ∈ (replaced settings module program).exports ↔
      ∃ one ∈ replacements settings module program, one.1.isExported ∧ one.2.name = name := by
  rw [(replaced_replacements settings module program).exports,
    (collected_statements settings program).exports, List.nil_append, List.mem_map]
  simp only [List.mem_filter, and_assoc]

end FontHosting.FontCall
