import FontHosting.Proofs.FontCall.Arguments
import FontHosting.Proofs.FontCall.Names
import FontHosting.Proofs.FontCall.Specifier
import FontHosting.Proofs.Stylesheet.Key
import Mathlib.Data.List.Nodup

/-!
# Names of stylesheets tell their calls

Whoever loads a stylesheet has nothing but its name.  The name that a call is given is its own
key, and it tells the module, the function, the variable and the arguments of the call.  Since it
tells the variable, no two imports of a module have the same name.

`names_tell_calls` puts this together for the loader modules that are known by default; what
other names they have does not matter.
-/

namespace FontHosting.FontCall

open Script (Language Node Program)
open Stylesheet (Id Query key? pathPart queryPart)
open Stylesheet.Collection (readArguments?)

variable {settings : Settings} {module : String} {program : Program}

/-! ## Names of calls -/

/-- The name of a stylesheet, before it is written. -/
def idOf (settings : Settings) (module : String) (source : Source)
    (arguments : List Json.Value) (name : String) : Id where
  loader := settings.remap source.loader
  query := {
    path := module
    function := source.function?.getD ""
    arguments := (Json.Value.list arguments).toText
    variableName := name }

theorem specifierOf_eq (source : Source) (arguments : List Json.Value) (name : String) :
    specifierOf settings module source arguments name =
      String.ofList (idOf settings module source arguments name).render :=
  rfl

/-- The name of a call tells what it was made of. -/
theorem read?_specifierOf {source : Source} (hsource : '?' ∉ (settings.remap source.loader).toList)
    (arguments : List Json.Value) (name : String) :
    Query.read? (queryPart (specifierOf settings module source arguments name).toList) =
      some (idOf settings module source arguments name).query := by
  rw [specifierOf_eq, String.toList_ofList,
    @Stylesheet.queryPart_render (idOf settings module source arguments name) hsource,
    Stylesheet.read?_render]

theorem nodup_foldl_pushImport {made before : List Import} (hbefore : before.Nodup) :
    (made.foldl pushImport before).Nodup := by
  induction made generalizing before with
  | nil => exact hbefore
  | cons first rest ih =>
      rw [List.foldl_cons]
      refine ih ?_
      unfold pushImport
      split
      · exact hbefore
      · rename_i hcontains
        refine List.nodup_append.mpr ⟨hbefore, List.nodup_singleton first, ?_⟩
        rintro stated hstated _ hmem rfl
        obtain rfl := List.mem_singleton.mp hmem
        exact hcontains (List.contains_iff_mem.mpr hstated)

/-- No import is added twice. -/
theorem nodup_imports : (replaced settings module program).imports.Nodup := by
  rw [(replaced_replacements settings module program).imports]
  refine nodup_foldl_pushImport ?_
  rw [(collected_statements settings program).imports]
  exact List.nodup_nil

/-! ## Imports of a script -/

theorem exists_kind_of_isLoader {remapped : Table String} {loader : String}
    (h : Settings.isLoader ⟨defaultLoaders, remapped⟩ loader = true) :
    ∃ kind : LoaderKind, kind.module = Settings.remap ⟨defaultLoaders, remapped⟩ loader := by
  obtain ⟨kind, -, hkind⟩ := List.mem_map.mp (List.contains_iff_mem.mp h)
  exact ⟨kind, hkind⟩

/-- **No two imports that are added have the same name of a stylesheet**: the name tells the
variable, so they would be the same import. -/
theorem nodup_specifiers (remapped : Table String) (module : String) (program : Program) :
    ((replaced ⟨defaultLoaders, remapped⟩ module program).imports.map Import.specifier).Nodup := by
  have hquery : ∀ stated ∈ (replaced ⟨defaultLoaders, remapped⟩ module program).imports,
      (Query.read? (queryPart stated.specifier.toList)).map Query.variableName =
        some stated.name := by
    intro stated hmem
    obtain ⟨declaration, hmem⟩ := mem_imports_iff.mp hmem
    obtain ⟨-, -, source, arguments, -, hsource, -, -, hspecifier⟩ :=
      exists_call_of_mem_replacements hmem
    obtain ⟨kind, hkind⟩ := exists_kind_of_isLoader (isLoader_of_source? hsource)
    rw [hspecifier, read?_specifierOf (hkind ▸ Stylesheet.notMem_module kind)]
    rfl
  refine nodup_imports.map_on fun first hfirst second hsecond hsame => ?_
  have hname := hquery first hfirst
  rw [hsame, hquery second hsecond] at hname
  obtain ⟨name, specifier⟩ := first
  obtain rfl := Option.some_inj.mp hname
  obtain rfl : specifier = second.specifier := hsame
  rfl

/-- A transformed module imports nothing twice. -/
theorem nodup_imports_of_transform {remapped : Table String} {path source : String}
    {transformed : Transformed}
    (h : transform ⟨defaultLoaders, remapped⟩ module path source = .ok (some transformed)) :
    transformed.imports.Nodup := by
  obtain ⟨program, analysis, hanalysis, himports⟩ := analysis_of_transform h
  obtain rfl := (accepted_of_analyze hanalysis).eq
  rw [himports]
  exact nodup_specifiers remapped module program

/-- What the name of a stylesheet tells about the call that it stands for. -/
structure TellsCall (settings : Settings) (module : String) (declaration : Declaration)
    (source : Source) (arguments : List Json.Value) (name specifier : String) : Prop where
  /-- The name is its own key, one of the loader that the function comes from. -/
  key : ∃ kind : LoaderKind, kind.module = settings.remap source.loader ∧
    pathPart specifier.toList = kind.targetPath.toList ∧
    LoaderKind.ofTargetPath? (pathPart specifier.toList) = some kind ∧
    key? specifier = some specifier
  /-- The query of the name is that of the call, and tells its arguments if they are plain. -/
  query : ∃ query, Query.read? (queryPart specifier.toList) = some query ∧
    query.path = module ∧ query.function = source.function?.getD "" ∧
    query.variableName = name ∧
    ((∀ argument ∈ declaration.arguments, IsPlain argument) →
      readArguments? query.arguments = some arguments)

theorem tellsCall_specifierOf {declaration : Declaration} {source : Source}
    {arguments : List Json.Value} {kind : LoaderKind}
    (hkind : kind.module = settings.remap source.loader)
    (harguments : argumentValues declaration.arguments = .ok arguments) (name : String) :
    TellsCall settings module declaration source arguments name
      (specifierOf settings module source arguments name) := by
  have hsource : '?' ∉ (settings.remap source.loader).toList :=
    hkind ▸ Stylesheet.notMem_module kind
  have hpath : pathPart (specifierOf settings module source arguments name).toList =
      kind.targetPath.toList := by
    rw [specifierOf_eq, String.toList_ofList,
      @Stylesheet.pathPart_render (idOf settings module source arguments name) hsource,
      Stylesheet.targetPath_eq hkind]
  refine ⟨⟨kind, hkind, hpath, ?_, Stylesheet.key?_render hkind⟩,
    _, read?_specifierOf hsource arguments name, rfl, rfl, rfl,
    readArguments?_of_argumentValues harguments⟩
  rw [hpath, Stylesheet.ofTargetPath?_targetPath]

/-- **The name of a stylesheet tells its call.**  Exactly one import takes the place of each font
call that is deleted, and its name tells the loader, the module, the function, the variable and
the arguments; and no two imports have the same name. -/
theorem names_tell_calls {remapped : Table String} {language : Language} {text : String}
    {analysis : Analysis} (hread : Program.read? language text = some program)
    (h : analyze ⟨defaultLoaders, remapped⟩ module program = .ok (some analysis)) :
    (analysis.imports.map Import.specifier).Nodup ∧
    ∀ deletion ∈ (Edit.ofAnalysis analysis program).deletions, ∀ statement declaration,
      program.statements[deletion.index]? = some statement →
      declaration? statement = some declaration →
      ∃ source arguments name,
        source? ⟨defaultLoaders, remapped⟩ program declaration.callee.name = some source ∧
        argumentValues declaration.arguments = .ok arguments ∧
        boundName declaration.declarators = .ok name ∧
        analysis.imports.count
          ⟨name, specifierOf ⟨defaultLoaders, remapped⟩ module source arguments name⟩ = 1 ∧
        TellsCall ⟨defaultLoaders, remapped⟩ module declaration source arguments name
          (specifierOf ⟨defaultLoaders, remapped⟩ module source arguments name) := by
  obtain ⟨origin, hlaid⟩ := Program.exists_laid hread
  obtain ⟨hparts, hstated, rfl, -⟩ := accepted_of_analyze h
  have hcalls := (calls_iff hlaid hparts).mp hstated
  refine ⟨nodup_specifiers remapped module program, ?_⟩
  intro deletion hdeletion statement declaration hindex hdeclaration
  obtain ⟨_, hfound, -, hremoved⟩ := mem_deletions_iff.mp hdeletion
  obtain rfl := Option.some_inj.mp (hindex.symm.trans hfound)
  have hstatement := List.mem_of_getElem? hindex
  obtain himport | ⟨other, hfont, hother⟩ :=
    removed_cases hlaid hparts hcalls hstatement hremoved
  · obtain ⟨⟨loader, specifiers⟩, himport⟩ := Option.isSome_iff_exists.mp himport
    obtain ⟨-, attributes, span, rfl⟩ := loaderImport?_eq_some_iff.mp himport
    cases hdeclaration
  obtain rfl := Option.some_inj.mp (hother.symm.trans hdeclaration)
  obtain ⟨stated, hmem⟩ :=
    (mem_replacements_iff hlaid hparts module).mpr ⟨hfont, hcalls other hfont⟩
  obtain ⟨-, -, source, arguments, -, hsource, harguments, hname, hspecifier⟩ :=
    exists_call_of_mem_replacements hmem
  obtain ⟨kind, hkind⟩ := exists_kind_of_isLoader (isLoader_of_source? hsource)
  refine ⟨source, arguments, stated.name, hsource, harguments, hname, ?_,
    tellsCall_specifierOf hkind harguments stated.name⟩
  rw [← hspecifier]
  exact List.count_eq_one_of_mem nodup_imports (mem_imports_iff.mpr ⟨other, hmem⟩)

/-- A script with a font call. -/
def callingSource : String :=
  "import \x7b Inter \x7d from \"next/font/google\";\n" ++
    "export const body = Inter(\x7b subsets: [\"latin\"], display: \"swap\" \x7d);\n"

/-- Its call has a plain argument without numbers. -/
theorem callingSource_runs :
    ∃ program ∈ Program.read? .typedMarkup callingSource,
      ∃ analysis ∈ (analyze ⟨defaultLoaders, defaultRemapped⟩ "a.tsx" program).toOption.join,
        ∃ deletion ∈ (Edit.ofAnalysis analysis program).deletions,
          ∃ statement ∈ program.statements[deletion.index]?,
            ∃ declaration ∈ declaration? statement, ∀ argument ∈ declaration.arguments,
              argument.numbers.isEmpty = true ∧ argument.nesting ≤ 126 := by
  -- The kernel is slow to take a text apart, so it is given the characters.
  have hcharacters : callingSource.toList = _ :=
    String.toList_append.trans (congrArg₂ (· ++ ·) String.toList_ofList String.toList_ofList)
  unfold Program.read?
  rw [hcharacters]
  decide +kernel

/-- The script that is read from it. -/
def callingScript : Program :=
  (Program.read? .typedMarkup callingSource).get (isSome_of_exists callingSource_runs)

/-- What is known about its font call. -/
def callingAnalysis : Analysis :=
  (analyze ⟨defaultLoaders, defaultRemapped⟩ "a.tsx" callingScript).toOption.join.get
    (isSome_of_exists (get_of_exists callingSource_runs))

theorem read_callingSource :
    Program.read? .typedMarkup callingSource = some callingScript :=
  (Option.some_get _).symm

theorem analyze_callingScript :
    analyze ⟨defaultLoaders, defaultRemapped⟩ "a.tsx" callingScript =
      .ok (some callingAnalysis) :=
  ok_some_of_toOption (Option.some_get _).symm

/-- The call has a plain argument without numbers. -/
theorem exists_call_of_callingScript :
    ∃ deletion ∈ (Edit.ofAnalysis callingAnalysis callingScript).deletions,
      ∃ statement ∈ callingScript.statements[deletion.index]?,
        ∃ declaration ∈ declaration? statement, ∀ argument ∈ declaration.arguments,
          argument.numbers.isEmpty = true ∧ argument.nesting ≤ 126 :=
  get_of_exists (get_of_exists callingSource_runs)

/-- The name of its stylesheet tells the arguments of the call. -/
theorem callingScript_tells_arguments :
    Program.read? .typedMarkup callingSource = some callingScript ∧
    analyze ⟨defaultLoaders, defaultRemapped⟩ "a.tsx" callingScript = .ok (some callingAnalysis) ∧
    ∃ stated ∈ callingAnalysis.imports, ∃ query arguments,
      Query.read? (queryPart stated.specifier.toList) = some query ∧
        readArguments? query.arguments = some arguments := by
  obtain ⟨deletion, hdeletion, statement, hindex, declaration, hdeclaration, hplain⟩ :=
    exists_call_of_callingScript
  obtain ⟨source, arguments, name, -, -, -, hcount, htells⟩ :=
    (names_tell_calls read_callingSource analyze_callingScript).2 deletion hdeletion statement
      declaration hindex hdeclaration
  have hmem := List.count_pos_iff.mp (Nat.lt_of_lt_of_eq Nat.one_pos hcount.symm)
  obtain ⟨query, hquery, -, -, -, harguments⟩ := htells.query
  have hread := harguments fun argument hmem => by
    obtain ⟨hnone, hnesting⟩ := hplain argument hmem
    rw [List.isEmpty_iff] at hnone
    exact ⟨by rw [hnone]; exact nofun, hnesting⟩
  exact ⟨read_callingSource, analyze_callingScript, _, hmem, query, arguments, hquery, hread⟩

end FontHosting.FontCall
