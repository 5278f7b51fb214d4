import FontHosting.Proofs.FontCall.Finding

/-!
# What a transformed module imports

Every import that replaces a font call is a rendered name: its loader is one of the
loader modules of the settings, and its query has the path of the module that contains
the call.
-/

namespace FontHosting.FontCall

open Script (Program)
open Stylesheet (Id)

/-- A name that a call in a module is given. -/
def IsName (settings : Settings) (module specifier : String) : Prop :=
  ∃ id : Id, specifier = String.ofList id.render ∧ id.query.path = module ∧
    id.loader ∈ settings.loaders

variable {settings : Settings} {module : String} {program : Program}

theorem isName_of_analyze {analysis : Analysis}
    (h : analyze settings module program = .ok (some analysis)) :
    ∀ stated ∈ analysis.imports, IsName settings module stated.specifier := by
  obtain rfl := (accepted_of_analyze h).eq
  intro stated hstated
  obtain ⟨declaration, hmem⟩ := mem_imports_iff.mp hstated
  obtain ⟨-, -, source, arguments, -, hsource, -, -, hspecifier⟩ :=
    exists_call_of_mem_replacements hmem
  have hloader : settings.remap source.loader ∈ settings.loaders :=
    List.contains_iff_mem.mp (isLoader_of_source? hsource)
  exact ⟨_, hspecifier, rfl, hloader⟩

/-- The imports of a transformed module are those of the analysis of its script. -/
theorem analysis_of_transform {path source : String} {transformed : Transformed}
    (h : transform settings module path source = .ok (some transformed)) :
    ∃ program analysis, analyze settings module program = .ok (some analysis) ∧
      transformed.imports = analysis.imports.map Import.specifier := by
  unfold transform at h
  split at h
  · cases h
  · rename_i program _
    split at h
    · cases h
    · cases h
    · rename_i analysis hanalysis
      obtain rfl := Option.some_inj.mp (Except.ok.inj h)
      exact ⟨program, analysis, hanalysis, rfl⟩

/-- **Every import of a transformed module is a name of one of its calls.** -/
theorem isName_of_transform {path source : String} {transformed : Transformed}
    (h : transform settings module path source = .ok (some transformed)) :
    ∀ specifier ∈ transformed.imports, IsName settings module specifier := by
  obtain ⟨program, analysis, hanalysis, himports⟩ := analysis_of_transform h
  intro specifier hspecifier
  rw [himports] at hspecifier
  obtain ⟨stated, hstated, rfl⟩ := List.mem_map.mp hspecifier
  exact isName_of_analyze hanalysis stated hstated

end FontHosting.FontCall
