import FontHosting.Proofs.FontCall.Finding
import FontHosting.Proofs.Script.Occurrence

/-!
# How font functions may be used

A script that imports a loader module is rejected exactly if it uses what it imports in another
way than to call it for a constant: `rejected_iff_misuses`.

What is misused is said of the syntax tree alone.  An argument must be a literal (`IsLiteral`), a
declaration must bind a name to a constant (`Declaration.IsMisused`), and a name of a font
function must stand nowhere but in its import and in front of the arguments (`IsStray`).  The
analysis tells names by the byte where they start, which is enough because no two names start at
the same byte.
-/

namespace FontHosting.FontCall

open Script (Language Node Occurrence Program MayBind firstName? isName occurrencesIn topLevel)

/-! ## Literals -/

mutual

/-- Whether a value is written out. -/
def IsLiteral : Node → Prop
  | .text .. | .number .. | .boolean .. | .null .. => True
  | .parenthesized inner _ => IsLiteral inner
  | .array items _ => AreLiterals items
  | .object properties _ => AreLiteralProperties properties
  | _ => False

/-- Whether several values are written out. -/
def AreLiterals : List Node → Prop
  | [] => True
  | value :: rest => IsLiteral value ∧ AreLiterals rest

/-- Whether the properties of an object have plain names and values that are written out. -/
def AreLiteralProperties : List Node → Prop
  | [] => True
  | .property .plain false (.word _ _) value _ :: rest =>
      IsLiteral value ∧ AreLiteralProperties rest
  | _ :: _ => False

end

section
variable {α β γ : Type} {first : Except Fault α} {second : Except Fault β}

theorem exists_map_ok {build : α → γ} :
    (∃ answer, (do return build (← first)) = Except.ok answer) ↔ ∃ value, first = .ok value := by
  cases first with
  | error fault => exact iff_of_false (by rintro ⟨_, ⟨⟩⟩) (by rintro ⟨_, ⟨⟩⟩)
  | ok value => exact iff_of_true ⟨_, rfl⟩ ⟨value, rfl⟩

theorem exists_both_ok {build : α → β → γ} :
    (∃ answer, (do
        let value ← first
        return build value (← second)) = Except.ok answer) ↔
      (∃ value, first = .ok value) ∧ ∃ value, second = .ok value := by
  cases first with
  | error fault => exact iff_of_false (by rintro ⟨_, ⟨⟩⟩) (by rintro ⟨⟨_, ⟨⟩⟩, -⟩)
  | ok value => exact exists_map_ok.trans ⟨fun h => ⟨⟨value, rfl⟩, h⟩, And.right⟩

end

mutual

/-- **What can be read as JSON are the values that are written out.** -/
theorem literal_isOk_iff : ∀ node : Node, (∃ value, literal node = .ok value) ↔ IsLiteral node
  | .text .. | .number .. | .boolean .. | .null .. => iff_of_true ⟨_, rfl⟩ trivial
  | .parenthesized inner _ => literal_isOk_iff inner
  | .array items _ => exists_map_ok.trans (literalItems_isOk_iff items)
  | .object properties _ => exists_map_ok.trans (literalFields_isOk_iff properties)
  | .reference .. | .binding .. | .word .. | .hole .. | .spread .. | .property .. | .call ..
  | .declarator .. | .variables .. | .importSpecifier .. | .importFrom .. | .exported ..
  | .form .. => iff_of_false (by rintro ⟨_, ⟨⟩⟩) id

theorem literalItems_isOk_iff : ∀ items : List Node,
    (∃ values, literalItems items = .ok values) ↔ AreLiterals items
  | [] => iff_of_true ⟨_, rfl⟩ trivial
  | item :: rest => by
      have hitem := literal_isOk_iff item
      have hrest := literalItems_isOk_iff rest
      unfold literalItems
      split
      · contradiction
      · rename_i heq
        cases heq
        exact iff_of_false (by rintro ⟨_, ⟨⟩⟩) And.left
      · rename_i heq
        cases heq
        exact iff_of_false (by rintro ⟨_, ⟨⟩⟩) And.left
      · rename_i heq
        cases heq
        exact exists_both_ok.trans (and_congr hitem hrest)

theorem literalFields_isOk_iff : ∀ properties : List Node,
    (∃ fields, literalFields properties = .ok fields) ↔ AreLiteralProperties properties
  | [] => iff_of_true ⟨_, rfl⟩ trivial
  | .property kind computed key value span :: rest => by
      have hvalue := literal_isOk_iff value
      have hrest := literalFields_isOk_iff rest
      rcases kind with _ | _ | _ | _
      · rcases computed with _ | _
        · cases key with
          | word name place => exact exists_both_ok.trans (and_congr hvalue hrest)
          | _ => exact iff_of_false (by rintro ⟨_, ⟨⟩⟩) id
        · exact iff_of_false (by rintro ⟨_, ⟨⟩⟩) id
      all_goals exact iff_of_false (by rintro ⟨_, ⟨⟩⟩) id
  | .reference .. :: _ | .binding .. :: _ | .word .. :: _ | .text .. :: _ | .number .. :: _
  | .boolean .. :: _ | .null .. :: _ | .parenthesized .. :: _ | .hole .. :: _ | .spread .. :: _
  | .array .. :: _ | .object .. :: _ | .call .. :: _ | .declarator .. :: _ | .variables .. :: _
  | .importSpecifier .. :: _ | .importFrom .. :: _ | .exported .. :: _ | .form .. :: _ =>
      iff_of_false (by rintro ⟨_, ⟨⟩⟩) id

end

/-- The values of the arguments of a call are known if all of them are literals. -/
theorem argumentValues_isOk_iff {arguments : List Node} :
    (∃ values, argumentValues arguments = .ok values) ↔
      ∀ argument ∈ arguments, IsLiteral argument := by
  induction arguments with
  | nil => exact iff_of_true ⟨_, rfl⟩ nofun
  | cons argument rest ih =>
      rw [List.forall_mem_cons, ← ih]
      cases argument with
      | spread inner span => exact iff_of_false (by rintro ⟨_, ⟨⟩⟩) And.left
      | _ => exact exists_both_ok.trans (and_congr_left' (literal_isOk_iff _))

/-! ## What may be misused -/

/-- The names that a script gives to what it imports from loader modules. -/
def loaderBindings (settings : Settings) (program : Program) : List Occurrence :=
  occurrencesIn (loaderSpecifiers settings program)

/-- Whether a name is given to something that is imported from a loader module. -/
def IsLoaderName (settings : Settings) (program : Program) (name : String) : Prop :=
  ∃ occurrence ∈ loaderBindings settings program, occurrence.name = name

/-- Whether a declaration of a script, exported or not, starts with a call of such a name. -/
def IsFontDeclaration (settings : Settings) (program : Program) (declaration : Declaration) :
    Prop :=
  (∃ statement ∈ program.statements, declaration? statement = some declaration) ∧
    IsLoaderName settings program declaration.callee.name

/-- Whether a declaration has an argument that is spread or no literal, declares no constant, or
binds no name. -/
def Declaration.IsMisused (declaration : Declaration) : Prop :=
  (∃ inner span, .spread inner span ∈ declaration.arguments) ∨
    (∃ argument ∈ declaration.arguments, ¬ IsLiteral argument) ∨
    declaration.kind ≠ .constant ∨ firstName? declaration.declarators = none

/-- Whether a reference or a binding has the name of something that is imported from a loader
module, and is neither the binding in the import nor what a declaration calls. -/
def IsStray (settings : Settings) (program : Program) (occurrence : Occurrence) : Prop :=
  IsLoaderName settings program occurrence.name ∧
    occurrence ∉ loaderBindings settings program ∧
    ∀ declaration, IsFontDeclaration settings program declaration →
      occurrence ≠ declaration.callee

/-- Whether a script imports a loader module as a whole, has a declaration that calls a font
function but cannot be replaced by an import, or names a font function anywhere else, at whatever
depth and in whatever form. -/
def Misuses (settings : Settings) (program : Program) : Prop :=
  (∃ specifier ∈ loaderSpecifiers settings program, takesEverything specifier = true) ∨
    (∃ declaration, IsFontDeclaration settings program declaration ∧ declaration.IsMisused) ∨
    ∃ statement ∈ program.statements, ∃ node : Node, node.Within statement ∧
      ∃ occurrence, node.occurrence? = some occurrence ∧ IsStray settings program occurrence

variable {settings : Settings} {module : String} {program : Program}

theorem boundName_isOk_iff {declarators : List Node} :
    (∃ name, boundName declarators = .ok name) ↔ firstName? declarators ≠ none := by
  rcases declarators with _ | ⟨node, rest⟩
  · exact iff_of_false (by rintro ⟨_, ⟨⟩⟩) (fun h => h rfl)
  cases node with
  | declarator target type initial span =>
      cases target with
      | binding name place => exact iff_of_true ⟨name, rfl⟩ nofun
      | _ => exact iff_of_false (by rintro ⟨_, ⟨⟩⟩) (fun h => h rfl)
  | _ => exact iff_of_false (by rintro ⟨_, ⟨⟩⟩) (fun h => h rfl)

theorem Declaration.isMisused_iff {declaration : Declaration} :
    declaration.IsMisused ↔ ¬ ((∀ argument ∈ declaration.arguments, IsLiteral argument) ∧
      declaration.kind = .constant ∧ firstName? declaration.declarators ≠ none) := by
  constructor
  · rintro hmisused ⟨hall, hconstant, hbound⟩
    rcases hmisused with ⟨inner, span, hspread⟩ | ⟨argument, hmem, hargument⟩ | hkind | hname
    · exact hall _ hspread
    · exact hargument (hall argument hmem)
    · exact hkind hconstant
    · exact hbound hname
  · intro h
    by_contra hnot
    simp only [IsMisused, not_or, not_exists, not_and, not_not] at hnot
    exact h ⟨hnot.2.1, hnot.2.2.1, hnot.2.2.2⟩

/-- **A declaration is replaced by an import unless it is misused.** -/
theorem replacement_isOk_iff {source : Source} {declaration : Declaration} :
    (∃ stated, declaration.replacement settings module source = .ok stated) ↔
      ¬ declaration.IsMisused := by
  rw [Declaration.isMisused_iff, not_not, ← argumentValues_isOk_iff, ← boundName_isOk_iff,
    Declaration.replacement]
  cases argumentValues declaration.arguments with
  | error fault => exact iff_of_false (by rintro ⟨_, ⟨⟩⟩) (by rintro ⟨⟨_, ⟨⟩⟩, -⟩)
  | ok values =>
      by_cases hkind : declaration.kind = .constant
      · simp only [hkind, if_true]
        exact exists_map_ok.trans ⟨fun h => ⟨⟨values, rfl⟩, trivial, h⟩, fun h => h.2.2⟩
      · simp only [hkind, if_false]
        exact iff_of_false (by rintro ⟨_, ⟨⟩⟩) (by rintro ⟨-, ⟨⟩, -⟩)

/-! ## What the analysis knows of the names -/

theorem statement_eq_of_declaration? {statement : Node} {declaration : Declaration}
    (h : declaration? statement = some declaration) :
    declaration.statement = statement.span.start := by
  unfold declaration? at h
  split at h
  · obtain ⟨called, -, rfl⟩ := Option.map_eq_some_iff.mp h
    rfl
  · obtain ⟨called, -, rfl⟩ := Option.map_eq_some_iff.mp h
    rfl
  · cases h

theorem callee_mem_of_called? {declarators : List Node} {called : Occurrence × List Node}
    (h : called? declarators = some called) : called.1 ∈ occurrencesIn declarators := by
  unfold called? at h
  split at h
  · cases h
    simp [occurrencesIn, Node.occurrences]
  · cases h

/-- What a declaration calls is a name in it. -/
theorem callee_mem_of_declaration? {statement : Node} {declaration : Declaration}
    (h : declaration? statement = some declaration) :
    declaration.callee ∈ statement.occurrences := by
  unfold declaration? at h
  split at h
  · obtain ⟨called, hcalled, rfl⟩ := Option.map_eq_some_iff.mp h
    exact callee_mem_of_called? hcalled
  · obtain ⟨called, hcalled, rfl⟩ := Option.map_eq_some_iff.mp h
    exact callee_mem_of_called? hcalled
  · cases h

/-- The names that a loader import binds are those of its functions. -/
theorem occurrencesIn_specifiers {context : Script.Context} {loader : String}
    {specifiers : List Node} (hnames : ∀ specifier ∈ specifiers, specifier.SpecifiesName context)
    (hparts : ∀ specifier ∈ specifiers, takesEverything specifier = false) :
    occurrencesIn specifiers = (specifiers.filterMap (bindingOf? loader)).map (·.occurrence) := by
  induction specifiers with
  | nil => rfl
  | cons specifier rest ih =>
      obtain ⟨hname, hnames⟩ := List.forall_mem_cons.mp hnames
      obtain ⟨hpart, hparts⟩ := List.forall_mem_cons.mp hparts
      rw [occurrencesIn, ih hnames hparts]
      unfold Node.SpecifiesName at hname
      split at hname
      · rename_i imported name span place
        cases imported with
        | everything => cases hpart
        | default => rfl
        | named function => rfl
      · exact hname.elim

section
variable {language : Language} {origin : Script.Source}
  (hlaid : program.Laid language origin)
  (hparts : ∀ specifier ∈ loaderSpecifiers settings program, takesEverything specifier = false)
include hlaid

/-- What a loader import binds stands in it, and is a name. -/
theorem exists_import_of_mem_loaderBindings {occurrence : Occurrence}
    (h : occurrence ∈ loaderBindings settings program) :
    isName occurrence.name.toList ∧ ∃ statement ∈ program.statements,
      (loaderImport? settings statement).isSome ∧ occurrence ∈ statement.occurrences := by
  obtain ⟨specifier, hspecifier, hoccurs⟩ := Script.mem_occurrencesIn.mp h
  obtain ⟨statement, hstatement, hspecifier⟩ := List.mem_flatMap.mp hspecifier
  obtain ⟨loader, specifiers, himport, hmem⟩ := mem_loaderSpecifiersOf_iff.mp hspecifier
  obtain ⟨-, attributes, span, rfl⟩ := loaderImport?_eq_some_iff.mp himport
  refine ⟨?_, _, hstatement, Option.isSome_of_eq_some himport, ?_⟩
  · have hname := hlaid.binds _ hstatement specifier hmem
    unfold Node.SpecifiesName at hname
    split at hname
    · obtain rfl := List.mem_singleton.mp hoccurs
      exact hname.1
    · exact hname.elim
  · exact List.mem_append_left _ (Script.mem_occurrencesIn.mpr ⟨specifier, hmem, hoccurs⟩)

theorem isName_of_isLoaderName {name : String} (h : IsLoaderName settings program name) :
    isName name.toList := by
  obtain ⟨occurrence, hmem, rfl⟩ := h
  exact (exists_import_of_mem_loaderBindings hlaid hmem).1

include hparts

theorem loaderBindings_eq :
    loaderBindings settings program = (bindings settings program).map (·.occurrence) := by
  have hof : ∀ statement ∈ program.statements,
      occurrencesIn (loaderSpecifiersOf settings statement) =
        (bindingsOf settings statement).map (·.occurrence) := by
    intro statement hstatement
    cases himport : loaderImport? settings statement with
    | none =>
        rw [loaderSpecifiersOf, bindingsOf, himport]
        rfl
    | some found =>
        obtain ⟨loader, specifiers⟩ := found
        obtain ⟨-, attributes, span, rfl⟩ := loaderImport?_eq_some_iff.mp himport
        rw [loaderSpecifiersOf, bindingsOf, himport]
        refine occurrencesIn_specifiers (hlaid.binds _ hstatement) fun specifier hspecifier => ?_
        exact hparts specifier (List.mem_flatMap.mpr ⟨_, hstatement,
          mem_loaderSpecifiersOf_iff.mpr ⟨loader, specifiers, himport, hspecifier⟩⟩)
  rw [loaderBindings, loaderSpecifiers, Script.occurrencesIn_flatMap, bindings, List.map_flatMap]
  exact List.flatMap_congr hof

/-- The names that are looked for are those of the font functions. -/
theorem contains_functions_iff {name : String} :
    (collected settings program).functions.contains name = true ↔
      IsLoaderName settings program name := by
  rw [(collected_statements settings program).functions, Table.contains_ofList, IsLoaderName,
    loaderBindings_eq hlaid hparts]
  simp [bindings]

/-- The calls that are taken up are those that declarations start with. -/
theorem mem_fontCalls_iff {declaration : Declaration} :
    (∃ source, (declaration, source) ∈ fontCalls settings program) ↔
      IsFontDeclaration settings program declaration := by
  rw [IsFontDeclaration, ← contains_functions_iff hlaid hparts, Table.contains_iff]
  constructor
  · rintro ⟨source, hcall⟩
    obtain ⟨statement, hstatement, hcall⟩ := List.mem_filterMap.mp hcall
    obtain ⟨_, hdeclaration, hcall⟩ := Option.bind_eq_some_iff.mp hcall
    obtain ⟨_, hsource, ⟨⟩⟩ := Option.bind_eq_some_iff.mp hcall
    exact ⟨⟨statement, hstatement, hdeclaration⟩, source, hsource⟩
  · rintro ⟨⟨statement, hstatement, hdeclaration⟩, source, hsource⟩
    refine ⟨source, List.mem_filterMap.mpr ⟨statement, hstatement, ?_⟩⟩
    rw [fontCall?, hdeclaration]
    simp [hsource]

/-- The declarations that are replaced are those that call a font function and are not misused. -/
theorem mem_replacements_iff (module : String) {declaration : Declaration} :
    (∃ stated, (declaration, stated) ∈ replacements settings module program) ↔
      IsFontDeclaration settings program declaration ∧ ¬ declaration.IsMisused := by
  rw [← mem_fontCalls_iff hlaid hparts]
  constructor
  · rintro ⟨stated, hmem⟩
    obtain ⟨statement, hstatement, hmade⟩ := List.mem_filterMap.mp hmem
    obtain ⟨source, hcall, hmade⟩ := replacement?_eq_some_iff.mp hmade
    exact ⟨⟨source, List.mem_filterMap.mpr ⟨statement, hstatement, hcall⟩⟩,
      replacement_isOk_iff.mp ⟨stated, hmade⟩⟩
  · rintro ⟨⟨source, hcall⟩, hright⟩
    obtain ⟨stated, hmade⟩ :=
      (@replacement_isOk_iff settings module source declaration).mpr hright
    obtain ⟨statement, hstatement, hcall⟩ := List.mem_filterMap.mp hcall
    exact ⟨stated, List.mem_filterMap.mpr ⟨statement, hstatement,
      replacement?_eq_some_iff.mpr ⟨source, hcall, hmade⟩⟩⟩

theorem exists_fault_iff :
    (∃ call ∈ fontCalls settings program,
        ∃ fault, call.1.replacement settings module call.2 = .error fault) ↔
      ∃ declaration, IsFontDeclaration settings program declaration ∧ declaration.IsMisused := by
  constructor
  · rintro ⟨⟨declaration, source⟩, hcall, fault, hfault⟩
    refine ⟨declaration, (mem_fontCalls_iff hlaid hparts).mp ⟨source, hcall⟩, ?_⟩
    by_contra hright
    obtain ⟨stated, hstated⟩ := replacement_isOk_iff.mpr hright
    cases hfault.symm.trans hstated
  · rintro ⟨declaration, hfont, hmisused⟩
    obtain ⟨source, hcall⟩ := (mem_fontCalls_iff hlaid hparts).mpr hfont
    cases hmade : declaration.replacement settings module source with
    | error fault => exact ⟨(declaration, source), hcall, fault, hmade⟩
    | ok stated => exact (replacement_isOk_iff.mp ⟨stated, hmade⟩ hmisused).elim

theorem calls_iff :
    (∀ call ∈ fontCalls settings program,
        ∃ stated, call.1.replacement settings module call.2 = .ok stated) ↔
      ∀ declaration, IsFontDeclaration settings program declaration → ¬ declaration.IsMisused := by
  constructor
  · intro hstated declaration hfont
    obtain ⟨source, hcall⟩ := (mem_fontCalls_iff hlaid hparts).mpr hfont
    exact replacement_isOk_iff.mp (hstated _ hcall)
  · rintro hcalls ⟨declaration, source⟩ hcall
    exact replacement_isOk_iff.mpr
      (hcalls declaration ((mem_fontCalls_iff hlaid hparts).mp ⟨source, hcall⟩))

variable
  (hcalls : ∀ declaration, IsFontDeclaration settings program declaration →
    ¬ declaration.IsMisused)
include hcalls

theorem mem_allowed_iff {start : Nat} :
    start ∈ (replaced settings module program).allowed ↔
      (∃ occurrence ∈ loaderBindings settings program, occurrence.start = start) ∨
        ∃ declaration, IsFontDeclaration settings program declaration ∧
          declaration.callee.start = start := by
  rw [(replaced_replacements settings module program).allowed,
    (collected_statements settings program).allowed, loaderBindings_eq hlaid hparts]
  refine or_congr (by simp [bindings]) ?_
  constructor
  · rintro ⟨⟨declaration, stated⟩, hmem, hstart⟩
    exact ⟨declaration, ((mem_replacements_iff hlaid hparts module).mp ⟨stated, hmem⟩).1, hstart⟩
  · rintro ⟨declaration, hfont, hstart⟩
    obtain ⟨stated, hmem⟩ := (mem_replacements_iff hlaid hparts module).mpr ⟨hfont, hcalls _ hfont⟩
    exact ⟨_, hmem, hstart⟩

theorem mem_removable_iff {start : Nat} :
    start ∈ (replaced settings module program).removable ↔
      (∃ statement ∈ program.statements, (loaderImport? settings statement).isSome ∧
        statement.span.start = start) ∨
      ∃ declaration, IsFontDeclaration settings program declaration ∧
        declaration.statement = start := by
  rw [(replaced_replacements settings module program).removable,
    (collected_statements settings program).removable]
  refine or_congr_right ?_
  constructor
  · rintro ⟨⟨declaration, stated⟩, hmem, hstart⟩
    exact ⟨declaration, ((mem_replacements_iff hlaid hparts module).mp ⟨stated, hmem⟩).1, hstart⟩
  · rintro ⟨declaration, hfont, hstart⟩
    obtain ⟨stated, hmem⟩ := (mem_replacements_iff hlaid hparts module).mpr ⟨hfont, hcalls _ hfont⟩
    exact ⟨_, hmem, hstart⟩

/-- **A name is forbidden where it is stray.** -/
theorem forbids_iff_isStray {occurrence : Occurrence} (hoccurs : occurrence ∈ program.occurrences) :
    (replaced settings module program).forbids occurrence = true ↔
      IsStray settings program occurrence := by
  rw [Analysis.forbids, Bool.and_eq_true, Bool.not_eq_true', ← Bool.not_eq_true,
    List.contains_iff_mem, (replaced_replacements settings module program).functions,
    contains_functions_iff hlaid hparts, mem_allowed_iff hlaid hparts hcalls, IsStray, not_or]
  refine and_congr_right fun hname => ?_
  -- a name at the same place is the same name
  have hsame : ∀ other ∈ program.occurrences, IsLoaderName settings program other.name →
      other.start = occurrence.start → other = occurrence := by
    intro other hother hothername hstart
    exact hlaid.eq_of_start_eq hother hoccurs (isName_of_isLoaderName hlaid hothername)
      (isName_of_isLoaderName hlaid hname) hstart
  refine and_congr (not_congr ⟨?_, fun hmem => ⟨occurrence, hmem, rfl⟩⟩) ⟨?_, ?_⟩
  · rintro ⟨other, hmem, hstart⟩
    obtain ⟨-, statement, hstatement, -, hother⟩ := exists_import_of_mem_loaderBindings hlaid hmem
    exact hsame other (Program.mem_occurrences.mpr ⟨statement, hstatement, hother⟩)
      ⟨other, hmem, rfl⟩ hstart ▸ hmem
  · rintro hnone declaration hfont rfl
    exact hnone ⟨declaration, hfont, rfl⟩
  · rintro hnone ⟨declaration, hfont, hstart⟩
    have ⟨⟨statement, hstatement, hdeclaration⟩, hcallee⟩ := hfont
    have hother := callee_mem_of_declaration? hdeclaration
    exact hnone declaration hfont (hsame _
      (Program.mem_occurrences.mpr ⟨statement, hstatement, hother⟩) hcallee hstart).symm

/-- A statement that names a font function where it may is removed. -/
theorem start_mem_removable {statement : Node} (hstatement : statement ∈ program.statements)
    {occurrence : Occurrence} (hoccurs : occurrence ∈ statement.occurrences)
    (hname : IsLoaderName settings program occurrence.name)
    (hright : ¬ IsStray settings program occurrence) :
    statement.span.start ∈ (replaced settings module program).removable := by
  rw [mem_removable_iff hlaid hparts hcalls]
  by_cases hmem : occurrence ∈ loaderBindings settings program
  · obtain ⟨-, imported, himported, himport, hother⟩ :=
      exists_import_of_mem_loaderBindings hlaid hmem
    obtain rfl := hlaid.eq_of_occurs himported hstatement hother hoccurs rfl
    exact .inl ⟨imported, himported, himport, rfl⟩
  · obtain ⟨declaration, hfont, rfl⟩ : ∃ declaration,
        IsFontDeclaration settings program declaration ∧ occurrence = declaration.callee := by
      by_contra hnone
      exact hright ⟨hname, hmem, fun declaration hfont heq => hnone ⟨declaration, hfont, heq⟩⟩
    have ⟨⟨declared, hdeclared, hdeclaration⟩, _⟩ := hfont
    have hother := callee_mem_of_declaration? hdeclaration
    obtain rfl := hlaid.eq_of_occurs hdeclared hstatement hother hoccurs rfl
    exact .inr ⟨declaration, hfont, statement_eq_of_declaration? hdeclaration⟩

/-- A statement that is removed imports a loader module or starts with a font call. -/
theorem removed_cases {statement : Node} (hstatement : statement ∈ program.statements)
    (hremoved : statement.span.start ∈ (replaced settings module program).removable) :
    (loaderImport? settings statement).isSome ∨
      ∃ declaration, IsFontDeclaration settings program declaration ∧
        declaration? statement = some declaration := by
  obtain ⟨other, hother, himport, hstart⟩ | ⟨declaration, hfont, hstart⟩ :=
    (mem_removable_iff hlaid hparts hcalls).mp hremoved
  · obtain rfl := hlaid.eq_of_start hother hstatement hstart
    exact .inl himport
  · have ⟨⟨other, hother, hdeclaration⟩, _⟩ := hfont
    rw [statement_eq_of_declaration? hdeclaration] at hstart
    obtain rfl := hlaid.eq_of_start hother hstatement hstart
    exact .inr ⟨declaration, hfont, hdeclaration⟩

end

/-! ## Scripts that are rejected -/

theorem fails_of_isOk {α : Type} {run : Except Fault α} (h : run.isOk = false) :
    ∃ fault, run = .error fault := by
  cases run with
  | error fault => exact ⟨fault, rfl⟩
  | ok value => cases h

/-- What is deleted are the statements that start where a statement is to be removed. -/
theorem mem_deletions_iff {analysis : Analysis} {deletion : Deletion} :
    deletion ∈ (Edit.ofAnalysis analysis program).deletions ↔
      ∃ statement, program.statements[deletion.index]? = some statement ∧
        deletion.span = statement.span ∧ statement.span.start ∈ analysis.removable := by
  obtain ⟨index, span⟩ := deletion
  simp only [Edit.ofAnalysis, List.mem_filter, List.mem_map, List.contains_iff_mem,
    Prod.exists, List.mem_zipIdx_iff_getElem?, Deletion.mk.injEq]
  constructor
  · rintro ⟨⟨statement, _, hstatement, rfl, rfl⟩, hremovable⟩
    exact ⟨statement, hstatement, rfl, hremovable⟩
  · rintro ⟨statement, hstatement, rfl, hremovable⟩
    exact ⟨⟨statement, index, hstatement, rfl, rfl⟩, hremovable⟩

theorem exists_stray_iff :
    (∃ statement ∈ program.statements, ∃ node : Node, node.Within statement ∧
        ∃ occurrence, node.occurrence? = some occurrence ∧ IsStray settings program occurrence) ↔
      ∃ occurrence ∈ program.occurrences, IsStray settings program occurrence := by
  simp only [Program.mem_occurrences, Node.mem_occurrences]
  constructor
  · rintro ⟨statement, hstatement, node, hwithin, occurrence, hnames, hstray⟩
    exact ⟨occurrence, ⟨statement, hstatement, node, hwithin, hnames⟩, hstray⟩
  · rintro ⟨occurrence, ⟨statement, hstatement, node, hwithin, hnames⟩, hstray⟩
    exact ⟨statement, hstatement, node, hwithin, occurrence, hnames, hstray⟩

/-- **The analysis fails exactly if something is misused.** -/
theorem exists_error_iff_misuses {language : Language} {origin : Script.Source}
    (hlaid : program.Laid language origin)
    (himport : ∃ statement ∈ program.statements, (loaderImport? settings statement).isSome) :
    (∃ fault, analyze settings module program = .error fault) ↔ Misuses settings program := by
  rw [exists_error_iff himport, Misuses, exists_stray_iff]
  by_cases heverything : ∃ specifier ∈ loaderSpecifiers settings program,
      takesEverything specifier = true
  · exact iff_of_true (.inl heverything) (.inl heverything)
  have hparts : ∀ specifier ∈ loaderSpecifiers settings program,
      takesEverything specifier = false := fun specifier hmem =>
    Bool.eq_false_iff.mpr fun htakes => heverything ⟨specifier, hmem, htakes⟩
  rw [exists_fault_iff hlaid hparts]
  by_cases hmisused : ∃ declaration, IsFontDeclaration settings program declaration ∧
      declaration.IsMisused
  · exact iff_of_true (.inr (.inl hmisused)) (.inr (.inl hmisused))
  have hcalls : ∀ declaration, IsFontDeclaration settings program declaration →
      ¬ declaration.IsMisused := fun declaration hfont hwrong => hmisused ⟨declaration, hfont, hwrong⟩
  refine or_congr_right (or_congr_right (exists_congr fun occurrence => ?_))
  exact and_congr_right (forbids_iff_isStray hlaid hparts hcalls)

/-- **A script that imports a loader module is rejected exactly if it misuses what it imports.**
If it does not, every reference and every binding with the name of a font function stands in a
statement that is deleted. -/
theorem rejected_iff_misuses {language : Language} {text : String}
    (hread : Program.read? language text = some program)
    (himport : ∃ statement ∈ program.statements, (loaderImport? settings statement).isSome) :
    ((∃ fault, analyze settings module program = .error fault) ↔ Misuses settings program) ∧
      (¬ Misuses settings program → ∃ analysis,
        analyze settings module program = .ok (some analysis) ∧
          ∀ (index : Nat) (statement node : Node) (occurrence : Occurrence),
            program.statements[index]? = some statement → node.Within statement →
            node.occurrence? = some occurrence → IsLoaderName settings program occurrence.name →
            ⟨index, statement.span⟩ ∈ (Edit.ofAnalysis analysis program).deletions) := by
  obtain ⟨origin, hlaid⟩ := Program.exists_laid hread
  refine ⟨exists_error_iff_misuses hlaid himport, fun hright => ?_⟩
  have hparts : ∀ specifier ∈ loaderSpecifiers settings program,
      takesEverything specifier = false := fun specifier hmem =>
    Bool.eq_false_iff.mpr fun htakes => hright (.inl ⟨specifier, hmem, htakes⟩)
  have hcalls : ∀ declaration, IsFontDeclaration settings program declaration →
      ¬ declaration.IsMisused :=
    fun declaration hfont hwrong => hright (.inr (.inl ⟨declaration, hfont, hwrong⟩))
  cases hanalyze : analyze settings module program with
  | error fault =>
      exact (hright ((exists_error_iff_misuses hlaid himport).mp ⟨fault, hanalyze⟩)).elim
  | ok answer =>
      rw [analyze_eq himport hparts ((calls_iff hlaid hparts).mpr hcalls)] at hanalyze
      obtain ⟨-, -, hanswer⟩ := bind_eq_ok hanalyze
      cases hanswer
      refine ⟨_, rfl, fun index statement node occurrence hindex hwithin hnames hname => ?_⟩
      have hstatement := List.mem_of_getElem? hindex
      have hoccurs := Node.mem_occurrences.mpr ⟨node, hwithin, hnames⟩
      refine mem_deletions_iff.mpr ⟨statement, hindex, rfl, ?_⟩
      refine start_mem_removable hlaid hparts hcalls hstatement hoccurs hname fun hstray => ?_
      exact hright (.inr (.inr ⟨statement, hstatement, node, hwithin, occurrence, hnames, hstray⟩))

/-- A script in which a font function is also an element of a nested function. -/
def mentioningSource : String :=
  "import { A } from \"next/font/google\";\nconst a = A();\nconst b = () => <A />;\n"

/-- The script imports a loader, and is refused. -/
theorem mentioningSource_runs :
    ∃ program ∈ Program.read? .typedMarkup mentioningSource,
      (program.statements.any fun statement =>
        (loaderImport? ⟨defaultLoaders, defaultRemapped⟩ statement).isSome) = true ∧
      (analyze ⟨defaultLoaders, defaultRemapped⟩ "a.tsx" program).isOk = false := by
  -- The kernel is slow to take a text apart, so it is given the characters.
  have hcharacters : mentioningSource.toList = _ := String.toList_ofList
  unfold Program.read?
  rw [hcharacters]
  decide +kernel

/-- The script that is read from it. -/
def mentioningScript : Program :=
  (Program.read? .typedMarkup mentioningSource).get (isSome_of_exists mentioningSource_runs)

/-- A font function that is named once more is misused. -/
theorem mentioningScript_misuses :
    Program.read? .typedMarkup mentioningSource = some mentioningScript ∧
    (∃ statement ∈ mentioningScript.statements,
      (loaderImport? ⟨defaultLoaders, defaultRemapped⟩ statement).isSome) ∧
    Misuses ⟨defaultLoaders, defaultRemapped⟩ mentioningScript := by
  have hread : Program.read? .typedMarkup mentioningSource = some mentioningScript :=
    (Option.some_get _).symm
  obtain ⟨himport, hrefused⟩ := get_of_exists mentioningSource_runs
  have himport : ∃ statement ∈ mentioningScript.statements,
      (loaderImport? ⟨defaultLoaders, defaultRemapped⟩ statement).isSome :=
    List.any_eq_true.mp himport
  refine ⟨hread, himport, (@rejected_iff_misuses _ "a.tsx" _ _ _ hread himport).1.mp ?_⟩
  exact fails_of_isOk hrefused

end FontHosting.FontCall
