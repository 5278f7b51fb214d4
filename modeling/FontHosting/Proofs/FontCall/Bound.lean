import FontHosting.Proofs.FontCall.Finding
import FontHosting.Proofs.Script.Extent

/-!
# What an analysis takes from its script

Some statement of a script that is accepted is to be deleted, and the names that are imported and
exported in its place are bound there (`bound_analyze`).
-/

namespace FontHosting.FontCall

open Script (Language Node Program MayBind firstName? topLevel)

/-- Some statement of a script is to be deleted, and every name that is imported or exported may
be bound in its language. -/
structure Bound (language : Language) (program : Program) (analysis : Analysis) : Prop where
  removable : ∃ statement ∈ program.statements, statement.span.start ∈ analysis.removable
  imports : ∀ stated ∈ analysis.imports, MayBind (topLevel language) stated.name
  exports : ∀ name ∈ analysis.exports, MayBind (topLevel language) name

variable {settings : Settings} {module : String} {language : Language} {program : Program}

/-- A declaration in a script binds its first name. -/
theorem mayBind_of_declaration? {statement : Node} {declaration : Declaration} {name : String}
    (hbinds : statement.BindsName (topLevel language))
    (h : declaration? statement = some declaration)
    (hname : firstName? declaration.declarators = some name) :
    MayBind (topLevel language) name := by
  unfold declaration? at h
  split at h
  all_goals
    first
    | obtain ⟨called, -, rfl⟩ := Option.map_eq_some_iff.mp h
      exact hbinds name hname
    | cases h

theorem mayBind_of_mem_replacements {declaration : Declaration} {stated : Import}
    (hnames : ∀ statement ∈ program.statements, statement.BindsName (topLevel language))
    (h : (declaration, stated) ∈ replacements settings module program) :
    MayBind (topLevel language) stated.name := by
  obtain ⟨statement, hstatement, -, -, hdeclaration, -, -, hname, -⟩ :=
    exists_call_of_mem_replacements h
  obtain ⟨place, type, initial, span, rest, hdeclarators⟩ := boundName_eq_ok hname
  exact mayBind_of_declaration? (hnames statement hstatement) hdeclaration
    (by rw [hdeclarators]; rfl)

/-- **What an analysis takes from a script is bound there, and it has something deleted.** -/
theorem bound_analyze {analysis : Analysis}
    (hnames : ∀ statement ∈ program.statements, statement.BindsName (topLevel language))
    (h : analyze settings module program = .ok (some analysis)) :
    Bound language program analysis := by
  obtain ⟨-, -, rfl, -, statement, hstatement, himport⟩ := accepted_of_analyze h
  refine ⟨⟨statement, hstatement, ?_⟩, fun stated hstated => ?_, fun name hexported => ?_⟩
  · rw [(replaced_replacements settings module program).removable,
      (collected_statements settings program).removable]
    exact .inl ⟨statement, hstatement, himport, rfl⟩
  · obtain ⟨declaration, hmem⟩ := mem_imports_iff.mp hstated
    exact mayBind_of_mem_replacements hnames hmem
  · obtain ⟨one, hmem, -, rfl⟩ := mem_exports_iff.mp hexported
    exact mayBind_of_mem_replacements hnames hmem

end FontHosting.FontCall
