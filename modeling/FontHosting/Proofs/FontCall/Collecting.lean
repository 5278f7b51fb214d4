import FontHosting.FontCall.Transform
import FontHosting.Proofs.Except
import FontHosting.Proofs.Table

/-!
# The first pass of an analysis

The first pass through the statements of a script takes up the names that imports of loader
modules bind.  So `collect` ends with `collected` unless a module is imported as a whole, and a
name stands for the function that the last import of it takes (`get?_functions`).
-/

namespace FontHosting.FontCall

open Script (Node Occurrence Program)

/-! ## Imports of loader modules -/

/-- The module and the specifiers of a statement that imports a loader module, and not only its
types. -/
def loaderImport? (settings : Settings) : Node → Option (String × List Node)
  | .importFrom false specifiers source _ _ =>
      if settings.isLoader source then some (source, specifiers) else none
  | _ => none

/-- What a statement imports from a loader module. -/
def loaderSpecifiersOf (settings : Settings) (statement : Node) : List Node :=
  match loaderImport? settings statement with
  | some (_, specifiers) => specifiers
  | none => []

/-- What a script imports from loader modules. -/
def loaderSpecifiers (settings : Settings) (program : Program) : List Node :=
  program.statements.flatMap (loaderSpecifiersOf settings)

/-- Whether an import specifier takes a module as a whole. -/
def takesEverything : Node → Bool
  | .importSpecifier .everything _ _ => true
  | _ => false

/-- A font function with the name that a script gives to it. -/
structure Binding where
  occurrence : Occurrence
  source : Source

/-- The font function that a specifier takes from a loader module. -/
def bindingOf? (loader : String) : Node → Option Binding
  | .importSpecifier .default (.binding name span) _ => some ⟨⟨name, span.start⟩, loader, none⟩
  | .importSpecifier (.named function) (.binding name span) _ =>
      some ⟨⟨name, span.start⟩, loader, some function⟩
  | _ => none

/-- The font functions that a statement imports. -/
def bindingsOf (settings : Settings) (statement : Node) : List Binding :=
  match loaderImport? settings statement with
  | some (loader, specifiers) => specifiers.filterMap (bindingOf? loader)
  | none => []

/-- The font functions that a script imports. -/
def bindings (settings : Settings) (program : Program) : List Binding :=
  program.statements.flatMap (bindingsOf settings)

/-- An analysis with one more font function. -/
def Analysis.bind (analysis : Analysis) (binding : Binding) : Analysis :=
  { analysis with
    allowed := binding.occurrence.start :: analysis.allowed
    functions := analysis.functions.insert binding.occurrence.name binding.source }

/-- An analysis with what a statement imports from a loader module. -/
def Analysis.import (settings : Settings) (analysis : Analysis) (statement : Node) : Analysis :=
  match loaderImport? settings statement with
  | some _ => (bindingsOf settings statement).foldl Analysis.bind
      { analysis with removable := statement.span.start :: analysis.removable }
  | none => analysis

/-- What is known after the first pass. -/
def collected (settings : Settings) (program : Program) : Analysis :=
  program.statements.foldl (Analysis.import settings) Analysis.empty

variable {settings : Settings} {module : String} {program : Program}

theorem loaderImport?_eq_some_iff {statement : Node} {loader : String} {specifiers : List Node} :
    loaderImport? settings statement = some (loader, specifiers) ↔
      settings.isLoader loader = true ∧
        ∃ attributes span, statement = .importFrom false specifiers loader attributes span := by
  unfold loaderImport?
  split
  · rename_i found source attributes span
    cases hloader : settings.isLoader source with
    | false =>
        refine iff_of_false nofun ?_
        rintro ⟨htrue, _, _, ⟨⟩⟩
        exact Bool.false_ne_true (hloader.symm.trans htrue)
    | true =>
        constructor
        · rintro ⟨⟩
          exact ⟨hloader, _, _, rfl⟩
        · rintro ⟨-, _, _, ⟨⟩⟩
          rfl
  · rename_i hnot
    refine iff_of_false nofun ?_
    rintro ⟨-, attributes, span, rfl⟩
    exact hnot _ _ _ _ rfl

theorem mem_loaderSpecifiersOf_iff {statement specifier : Node} :
    specifier ∈ loaderSpecifiersOf settings statement ↔ ∃ loader specifiers,
      loaderImport? settings statement = some (loader, specifiers) ∧ specifier ∈ specifiers := by
  unfold loaderSpecifiersOf
  cases loaderImport? settings statement with
  | none => simp
  | some found =>
      obtain ⟨loader, specifiers⟩ := found
      simp

theorem collectSpecifier_eq_ok {loader : String} {analysis : Analysis} {specifier : Node}
    (h : takesEverything specifier = false) :
    collectSpecifier loader analysis specifier =
      .ok (match bindingOf? loader specifier with
        | some binding => analysis.bind binding
        | none => analysis) := by
  cases specifier with
  | importSpecifier imported target span =>
      cases imported with
      | everything => cases h
      | _ => cases target <;> rfl
  | _ => rfl

theorem collectSpecifier_eq_error {loader : String} {analysis : Analysis} {specifier : Node}
    (h : takesEverything specifier = true) :
    ∃ fault, collectSpecifier loader analysis specifier = .error fault := by
  unfold takesEverything at h
  split at h
  · exact ⟨_, rfl⟩
  · cases h

/-- A statement is taken up if it imports a loader module. -/
theorem collectStatement_eq {analysis : Analysis} {statement : Node} :
    collectStatement settings analysis statement =
      match loaderImport? settings statement with
      | some (loader, specifiers) => specifiers.foldlM (collectSpecifier loader)
          { analysis with removable := statement.span.start :: analysis.removable }
      | none => .ok analysis := by
  cases statement with
  | importFrom typeOnly specifiers source attributes span =>
      cases typeOnly with
      | true => rfl
      | false =>
          unfold collectStatement loaderImport?
          dsimp only
          split
          · rfl
          · rfl
  | _ => rfl

theorem collectStatement_eq_ok {analysis : Analysis} {statement : Node}
    (h : ∀ specifier ∈ loaderSpecifiersOf settings statement, takesEverything specifier = false) :
    collectStatement settings analysis statement = .ok (analysis.import settings statement) := by
  rw [collectStatement_eq, Analysis.import, bindingsOf]
  unfold loaderSpecifiersOf at h
  cases himport : loaderImport? settings statement with
  | none => rfl
  | some found =>
      obtain ⟨loader, specifiers⟩ := found
      simp only [himport] at h
      simp only [List.foldl_filterMap]
      refine foldlM_eq_ok (fun _ => True) specifiers ?_ trivial
      intro before _ specifier hspecifier
      rw [collectSpecifier_eq_ok (h specifier hspecifier)]
      cases bindingOf? loader specifier <;> exact ⟨rfl, trivial⟩

theorem collectStatement_eq_error {analysis : Analysis} {statement specifier : Node}
    (hmem : specifier ∈ loaderSpecifiersOf settings statement)
    (h : takesEverything specifier = true) :
    ∃ fault, collectStatement settings analysis statement = .error fault := by
  rw [collectStatement_eq]
  unfold loaderSpecifiersOf at hmem
  cases himport : loaderImport? settings statement with
  | none =>
      rw [himport] at hmem
      cases hmem
  | some found =>
      rw [himport] at hmem
      exact foldlM_eq_error (fun _ => True) _ (fun _ _ _ _ _ _ => trivial) hmem
        (fun _ _ => collectSpecifier_eq_error h) trivial

theorem collect_eq_ok
    (h : ∀ specifier ∈ loaderSpecifiers settings program, takesEverything specifier = false) :
    collect settings program = .ok (collected settings program) :=
  foldlM_eq_ok (fun _ => True) _ (fun _ _ statement hstatement =>
    ⟨collectStatement_eq_ok fun specifier hspecifier =>
      h specifier (List.mem_flatMap.mpr ⟨statement, hstatement, hspecifier⟩), trivial⟩) trivial

theorem collect_eq_error {specifier : Node} (hmem : specifier ∈ loaderSpecifiers settings program)
    (h : takesEverything specifier = true) :
    ∃ fault, collect settings program = .error fault := by
  obtain ⟨statement, hstatement, hspecifier⟩ := List.mem_flatMap.mp hmem
  exact foldlM_eq_error (fun _ => True) _ (fun _ _ _ _ _ _ => trivial) hstatement
    (fun _ _ => collectStatement_eq_error hspecifier h) trivial

/-- What is known after the first pass through some statements. -/
structure Collected (settings : Settings) (statements : List Node) (analysis : Analysis) :
    Prop where
  removable : ∀ start, start ∈ analysis.removable ↔
    ∃ statement ∈ statements, (loaderImport? settings statement).isSome ∧
      statement.span.start = start
  allowed : ∀ start, start ∈ analysis.allowed ↔
    ∃ binding ∈ statements.flatMap (bindingsOf settings), binding.occurrence.start = start
  functions : analysis.functions = Table.ofList
    ((statements.flatMap (bindingsOf settings)).map fun binding =>
      (binding.occurrence.name, binding.source))
  imports : analysis.imports = []
  exports : analysis.exports = []

theorem collected_empty : Collected settings [] Analysis.empty :=
  ⟨fun _ => by simp [Analysis.empty], fun _ => by simp [Analysis.empty], rfl, rfl, rfl⟩

theorem foldl_bind (found : List Binding) (analysis : Analysis) :
    found.foldl Analysis.bind analysis =
      { analysis with
        allowed := (found.map (·.occurrence.start)).reverse ++ analysis.allowed
        functions := (found.map fun binding => (binding.occurrence.name, binding.source)).foldl
          (fun table entry => table.insert entry.1 entry.2) analysis.functions } := by
  induction found generalizing analysis with
  | nil => rfl
  | cons binding rest ih => simp [ih, Analysis.bind]

theorem Collected.import {statements : List Node} {analysis : Analysis}
    (h : Collected settings statements analysis) (statement : Node) :
    Collected settings (statements ++ [statement]) (analysis.import settings statement) := by
  unfold Analysis.import
  cases himport : loaderImport? settings statement with
  | none =>
      have hnone : bindingsOf settings statement = [] := by rw [bindingsOf, himport]
      refine ⟨fun start => ?_, fun start => ?_, ?_, h.imports, h.exports⟩
      · simp [h.removable, himport, or_and_right, exists_or]
      · simp [h.allowed, hnone]
      · simp [h.functions, hnone]
  | some found =>
      simp only [foldl_bind]
      refine ⟨fun start => ?_, fun start => ?_, ?_, h.imports, h.exports⟩
      · simp only [List.mem_cons, h.removable, List.mem_append, List.not_mem_nil, or_false]
        constructor
        · rintro (rfl | ⟨other, hother, hfound⟩)
          · exact ⟨statement, .inr rfl, by simp [himport], rfl⟩
          · exact ⟨other, .inl hother, hfound⟩
        · rintro ⟨other, hother | rfl, hfound, rfl⟩
          · exact .inr ⟨other, hother, hfound, rfl⟩
          · exact .inl rfl
      · simp [h.allowed, or_and_right, exists_or, or_comm]
      · simp [h.functions, Table.ofList]

/-- **The first pass finds the imports of loader modules and what they bind.** -/
theorem collected_statements (settings : Settings) (program : Program) :
    Collected settings program.statements (collected settings program) := by
  unfold collected
  generalize program.statements = statements
  induction statements using List.reverseRecOn with
  | nil => exact collected_empty
  | append_singleton statements statement ih =>
      rw [List.foldl_append]
      exact ih.import statement

/-! ## Functions behind names -/

/-- The font function that a name of a script stands for: what the last import of that name
takes. -/
def source? (settings : Settings) (program : Program) (name : String) : Option Source :=
  ((bindings settings program).reverse.find? fun binding => name == binding.occurrence.name).map
    Binding.source

theorem get?_functions (name : String) :
    (collected settings program).functions.get? name = source? settings program name := by
  rw [(collected_statements settings program).functions, Table.get?_ofList, ← List.map_reverse,
    List.find?_map, Option.map_map]
  rfl

/-- A font function comes from a loader module. -/
theorem isLoader_of_source? {name : String} {source : Source}
    (h : source? settings program name = some source) :
    settings.isLoader source.loader = true := by
  obtain ⟨binding, hfound, rfl⟩ := Option.map_eq_some_iff.mp h
  have hmem := List.mem_reverse.mp (List.mem_of_find?_eq_some hfound)
  obtain ⟨statement, -, hbinding⟩ := List.mem_flatMap.mp hmem
  unfold bindingsOf at hbinding
  split at hbinding
  · rename_i loader specifiers himport
    obtain ⟨hloader, -⟩ := loaderImport?_eq_some_iff.mp himport
    obtain ⟨specifier, -, hspecifier⟩ := List.mem_filterMap.mp hbinding
    unfold bindingOf? at hspecifier
    split at hspecifier <;> cases hspecifier <;> exact hloader
  · cases hbinding

end FontHosting.FontCall
