import FontHosting.Proofs.FontCall.Usage

/-!
# The names of deleted statements

A statement that is deleted no longer binds its names.  Those that it imported from a loader
module are not used any more, and the name that a font call gives to its font is bound again by
an import.  A declaration is replaced for its first variable, whatever it declares behind it, so
a deletion loses no binding and no export but those of further variables:
`deleted_names_are_kept`.
-/

namespace FontHosting.Script

/-! ## Names that statements bind -/

mutual

/-- The names that a target binds. -/
def Node.targetNames : Node → List String
  | .binding name _ => [name]
  | .form .objectTarget parts _ | .form .arrayTarget parts _ | .form .rest parts _ =>
      targetNamesIn parts
  | .form (.targetProperty _) [_, target] _ => target.targetNames
  | .form .defaulted (target :: _) _ => target.targetNames
  | _ => []

/-- The names that several targets bind. -/
def targetNamesIn : List Node → List String
  | [] => []
  | target :: rest => target.targetNames ++ targetNamesIn rest

end

/-- The names that one variable of a declaration binds; there are several in a pattern. -/
def Node.declaredNames : Node → List String
  | .declarator target _ _ _ => target.targetNames
  | _ => []

/-- The names that an import specifier binds. -/
def Node.specifiedNames : Node → List String
  | .importSpecifier _ target _ => target.targetNames
  | _ => []

/-- The names that a statement binds.  Of the forms that are not looked into, only those that they
might bind are known: all names in them. -/
def Node.boundNames : Node → List String
  | .variables _ declarators _ => declarators.flatMap declaredNames
  | .importFrom _ specifiers _ _ _ => specifiers.flatMap specifiedNames
  | .exported declaration _ => declaration.boundNames
  | .form _ parts _ => (occurrencesIn parts).map Occurrence.name
  | _ => []

/-- The name that is shown by one of several exported names. -/
def Node.shownNames : Node → List String
  | .form (.exportName _) [_, .word name _] _ | .form (.exportName _) [_, .text name _] _ => [name]
  | _ => []

/-- The names that a statement exports. -/
def Node.exportedNames : Node → List String
  | .exported declaration _ => declaration.boundNames
  | .form (.exportNames _) names _ => names.flatMap shownNames
  | .form (.exportAll _) (.word name _ :: _) _ => [name]
  | .form (.importEquals true _) (.binding name _ :: _) _ => [name]
  | .form .exportDefault _ _ => ["default"]
  | _ => []

end FontHosting.Script

namespace FontHosting.FontCall

open Script (Language Node Program)

variable {settings : Settings} {module : String} {program : Program}

/-! ## Declarations that are replaced -/

theorem names_of_declaration? {statement : Node} {declaration : Declaration}
    (h : declaration? statement = some declaration) :
    statement.boundNames = declaration.declarators.flatMap Node.declaredNames ∧
      statement.exportedNames = if declaration.isExported then statement.boundNames else [] := by
  unfold declaration? at h
  split at h
  all_goals
    first
    | obtain ⟨called, -, rfl⟩ := Option.map_eq_some_iff.mp h
      exact ⟨rfl, rfl⟩
    | cases h

/-! ## What a deletion loses -/

/-- The names that a declaration of a font call binds behind the first one. -/
def furtherNames (statement : Node) : List String :=
  match declaration? statement with
  | some declaration => declaration.declarators.tail.flatMap Node.declaredNames
  | none => []

/-- What a loader import binds is the name of a font function. -/
theorem isLoaderName_of_mem_boundNames {context : Script.Context} {statement : Node}
    (hstatement : statement ∈ program.statements) (hbinds : statement.BindsName context)
    (himport : (loaderImport? settings statement).isSome) {name : String}
    (hname : name ∈ statement.boundNames) : IsLoaderName settings program name := by
  obtain ⟨⟨loader, specifiers⟩, himport⟩ := Option.isSome_iff_exists.mp himport
  obtain ⟨-, attributes, span, rfl⟩ := loaderImport?_eq_some_iff.mp himport
  obtain ⟨specifier, hspecifier, hname⟩ := List.mem_flatMap.mp hname
  have hmem : specifier ∈ loaderSpecifiers settings program :=
    List.mem_flatMap.mpr ⟨_, hstatement,
      mem_loaderSpecifiersOf_iff.mpr ⟨loader, specifiers, himport, hspecifier⟩⟩
  have hspecifies := hbinds specifier hspecifier
  unfold Node.SpecifiesName at hspecifies
  split at hspecifies
  · rename_i imported target place span
    obtain rfl := List.mem_singleton.mp hname
    exact ⟨⟨name, place.start⟩,
      Script.mem_occurrencesIn.mpr ⟨_, hmem, List.mem_singleton.mpr rfl⟩, rfl⟩
  · exact hspecifies.elim

/-- A font call binds the name of the import that takes its place, and its further names. -/
theorem boundNames_of_replacement {statement : Node} {declaration : Declaration} {stated : Import}
    (hdeclaration : declaration? statement = some declaration)
    (hmem : (declaration, stated) ∈ replacements settings module program) :
    statement.boundNames = stated.name :: furtherNames statement := by
  obtain ⟨-, -, -, -, -, -, -, hname, -⟩ := exists_call_of_mem_replacements hmem
  obtain ⟨place, type, initial, span, rest, hdeclarators⟩ := boundName_eq_ok hname
  simp only [(names_of_declaration? hdeclaration).1, furtherNames, hdeclaration, hdeclarators]
  rfl

/-- **Deleting statements loses no binding and no export**, but those of the variables that a
deleted declaration has behind the first one. -/
theorem deleted_names_are_kept {language : Language} {text : String} {analysis : Analysis}
    (hread : Program.read? language text = some program)
    (h : analyze settings module program = .ok (some analysis)) :
    ∀ deletion ∈ (Edit.ofAnalysis analysis program).deletions, ∀ statement,
      program.statements[deletion.index]? = some statement → ∀ name,
        (name ∈ statement.boundNames → IsLoaderName settings program name ∨
          (∃ stated ∈ analysis.imports, stated.name = name) ∨ name ∈ furtherNames statement) ∧
        (name ∈ statement.exportedNames →
          renderExport name ∈ (Edit.ofAnalysis analysis program).exports ∨
            name ∈ furtherNames statement) := by
  obtain ⟨origin, hlaid⟩ := Program.exists_laid hread
  obtain ⟨hparts, hstated, rfl, -⟩ := accepted_of_analyze h
  have hcalls := (calls_iff hlaid hparts).mp hstated
  intro deletion hdeletion statement hindex name
  have hstatement := List.mem_of_getElem? hindex
  obtain ⟨_, hfound, -, hremoved⟩ := mem_deletions_iff.mp hdeletion
  obtain rfl := Option.some_inj.mp (hindex.symm.trans hfound)
  obtain himport | ⟨declaration, hfont, hdeclaration⟩ :=
    removed_cases hlaid hparts hcalls hstatement hremoved
  · refine ⟨fun hname => .inl ?_, fun hname => ?_⟩
    · exact isLoaderName_of_mem_boundNames hstatement (hlaid.binds statement hstatement) himport hname
    · obtain ⟨⟨loader, specifiers⟩, himport⟩ := Option.isSome_iff_exists.mp himport
      obtain ⟨-, attributes, span, rfl⟩ := loaderImport?_eq_some_iff.mp himport
      cases hname
  · obtain ⟨stated, hmem⟩ := (mem_replacements_iff hlaid hparts module).mpr
      ⟨hfont, hcalls declaration hfont⟩
    have hnames := boundNames_of_replacement hdeclaration hmem
    refine ⟨fun hname => .inr ?_, fun hname => ?_⟩
    · rw [hnames] at hname
      rcases List.mem_cons.mp hname with rfl | hfurther
      · exact .inl ⟨stated, mem_imports_iff.mpr ⟨declaration, hmem⟩, rfl⟩
      · exact .inr hfurther
    · rw [(names_of_declaration? hdeclaration).2] at hname
      split at hname
      · rename_i hexported
        rw [hnames] at hname
        rcases List.mem_cons.mp hname with rfl | hfurther
        · exact .inl (List.mem_map.mpr
            ⟨_, mem_exports_iff.mpr ⟨_, hmem, hexported, rfl⟩, rfl⟩)
        · exact .inr hfurther
      · cases hname

/-- A script that exports two variables, the first of which is a font. -/
def twoVariablesSource : String :=
  "import { A } from \"next/font/google\";\nexport const a = A(), b = 1;\n"

/-- One statement of the script is deleted, and its second variable is not bound again. -/
theorem twoVariablesSource_runs :
    ∃ program ∈ Program.read? .typedMarkup twoVariablesSource,
      ∃ analysis ∈ (analyze ⟨defaultLoaders, defaultRemapped⟩ "a.tsx" program).toOption.join,
        (∃ deletion ∈ (Edit.ofAnalysis analysis program).deletions,
          ∃ statement ∈ program.statements[deletion.index]?,
            "b" ∈ statement.boundNames ∧ "b" ∈ statement.exportedNames) ∧
        ¬ IsLoaderName ⟨defaultLoaders, defaultRemapped⟩ program "b" ∧
        (∀ stated ∈ analysis.imports, stated.name ≠ "b") ∧
        renderExport "b" ∉ (Edit.ofAnalysis analysis program).exports := by
  -- The kernel is slow to take a text apart, so it is given the characters.
  have hcharacters : twoVariablesSource.toList = _ := String.toList_ofList
  unfold Program.read? IsLoaderName
  rw [hcharacters]
  decide +kernel

/-- The script that is read from it. -/
def twoVariablesScript : Program :=
  (Program.read? .typedMarkup twoVariablesSource).get (isSome_of_exists twoVariablesSource_runs)

/-- What is known about its font calls. -/
def twoVariablesAnalysis : Analysis :=
  (analyze ⟨defaultLoaders, defaultRemapped⟩ "a.tsx" twoVariablesScript).toOption.join.get
    (isSome_of_exists (get_of_exists twoVariablesSource_runs))

theorem read_twoVariablesSource :
    Program.read? .typedMarkup twoVariablesSource = some twoVariablesScript :=
  (Option.some_get _).symm

theorem analyze_twoVariablesScript :
    analyze ⟨defaultLoaders, defaultRemapped⟩ "a.tsx" twoVariablesScript =
      .ok (some twoVariablesAnalysis) :=
  ok_some_of_toOption (Option.some_get _).symm

/-- The font of the script is exported again. -/
theorem twoVariablesScript_exports_font :
    Program.read? .typedMarkup twoVariablesSource = some twoVariablesScript ∧
    analyze ⟨defaultLoaders, defaultRemapped⟩ "a.tsx" twoVariablesScript =
      .ok (some twoVariablesAnalysis) ∧
    ∀ deletion ∈ (Edit.ofAnalysis twoVariablesAnalysis twoVariablesScript).deletions,
      ∀ statement, twoVariablesScript.statements[deletion.index]? = some statement →
        "a" ∈ statement.exportedNames →
        renderExport "a" ∈ (Edit.ofAnalysis twoVariablesAnalysis twoVariablesScript).exports ∨
          "a" ∈ furtherNames statement :=
  ⟨read_twoVariablesSource, analyze_twoVariablesScript, fun deletion hdeletion statement hindex =>
    (deleted_names_are_kept read_twoVariablesSource analyze_twoVariablesScript deletion hdeletion
      statement hindex "a").2⟩

/-- **A further variable is lost**, and its export with it: no import binds its name again. -/
theorem further_variable_is_lost :
    Program.read? .typedMarkup twoVariablesSource = some twoVariablesScript ∧
    analyze ⟨defaultLoaders, defaultRemapped⟩ "a.tsx" twoVariablesScript =
      .ok (some twoVariablesAnalysis) ∧
    (∃ deletion ∈ (Edit.ofAnalysis twoVariablesAnalysis twoVariablesScript).deletions,
      ∃ statement ∈ twoVariablesScript.statements[deletion.index]?,
        "b" ∈ statement.boundNames ∧ "b" ∈ statement.exportedNames) ∧
    ¬ IsLoaderName ⟨defaultLoaders, defaultRemapped⟩ twoVariablesScript "b" ∧
    (∀ stated ∈ twoVariablesAnalysis.imports, stated.name ≠ "b") ∧
    renderExport "b" ∉ (Edit.ofAnalysis twoVariablesAnalysis twoVariablesScript).exports :=
  ⟨read_twoVariablesSource, analyze_twoVariablesScript,
    get_of_exists (get_of_exists twoVariablesSource_runs)⟩

end FontHosting.FontCall
