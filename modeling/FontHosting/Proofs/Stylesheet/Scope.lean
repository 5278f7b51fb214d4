import FontHosting.Proofs.Table
import FontHosting.Stylesheet.Module

/-!
# What the name of a class tells

The names of the classes of a stylesheet are made of a hash of its rules, as its families are,
so two stylesheets with a class of the same name have the same rules.  But a class also has what
its call says beside the rules: the families that the author names, whether there is a stand-in,
a weight, a style, or a custom property.  These are not in the hash, so a class of one name may
have other declarations in another module (`className_is_declared_twice`).  What
`shared_class_iff` says is that nothing else can differ.
-/

namespace FontHosting.Stylesheet

open Loader (Output)

/-! ## The classes of a module -/

/-- The declarations of the classes of a font, under the names that they are exported with: the
class that applies the font, and the one that gives its families to a custom property. -/
def classDeclarations (families : String) (output : Output) :
    List (String × List (String × String)) :=
  ("className", ("font-family", families) ::
      (declared "font-weight" (single output.weight) ++
        declared "font-style" (single output.style))) ::
    output.variableName.toList.map fun property => ("variable", [(property, families)])

/-- A class as a rule. -/
def renderClass (scope : List Char) (entry : String × List (String × String)) : String :=
  renderRule ("." ++ scopedClass entry.1 scope) entry.2

/-- The module of an output exports a class under a name, and the rule that was generated for it
is in its code. -/
structure HasClass (output : Output) (module : Module) (name className : String)
    (declarations : List (String × String)) : Prop where
  exported : module.classNames.get? name = some className
  declared : (name, declarations) ∈ classDeclarations module.style.fontFamily output
  rendered : ∃ front back,
    module.code = front ++ renderRule ("." ++ className) declarations ++ back

variable {path : String} {output : Output} {module : Module}

/-- Rules with a family make a module. -/
theorem exists_generate {rules family : List Char}
    (h : Css.renameFamilies (scopedFamily (scopeOf output.css)) output.css.toList =
      some (rules, family)) (path : String) :
    ∃ module, Module.generate false path output = .ok module := by
  unfold Module.generate
  dsimp only
  rw [h]
  exact ⟨_, rfl⟩

/-- What a module is made of, as far as its classes go. -/
theorem parts_of_generate (h : Module.generate false path output = .ok module) :
    (∃ rules family, Css.renameFamilies (scopedFamily (scopeOf output.css)) output.css.toList =
        some (rules, family) ∧
      module.style.fontFamily = familyList (scopedFamily (scopeOf output.css) family)
        (output.fallback.map fun _ =>
          scopedFamily (scopeOf output.css) (family ++ " Fallback".toList))
        output.fallbackFonts) ∧
    module.classNames = Table.ofList ((classDeclarations module.style.fontFamily output).map
      fun entry => (entry.1, scopedClass entry.1 (scopeOf output.css))) ∧
    ∃ front, module.code = front ++ String.join
      ((classDeclarations module.style.fontFamily output).map (renderClass (scopeOf output.css))) := by
  unfold Module.generate at h
  dsimp only at h
  split at h
  · cases h
  · rename_i rules family hrename
    cases h
    refine ⟨⟨rules, family, hrename, ?_⟩, ?_, ?_⟩
    · cases output.fallback <;> rfl
    · cases hvariable : output.variableName <;> simp [classDeclarations, hvariable, variableRule]
    · let standIn := output.fallback.map fun fallback =>
        fallbackRule (scopedFamily (scopeOf output.css) (family ++ " Fallback".toList)) fallback
      refine ⟨String.ofList rules ++ standIn.getD "", ?_⟩
      cases hvariable : output.variableName <;>
        simp [standIn, classDeclarations, hvariable, variableRule, classRule, renderClass,
          Option.map_map, Function.comp_def, String.append_assoc]

theorem exists_append_join {text : String} {texts : List String} (h : text ∈ texts) :
    ∃ front back, String.join texts = front ++ text ++ back := by
  obtain ⟨before, after, rfl⟩ := List.append_of_mem h
  exact ⟨String.join before, String.join after, by simp [String.append_assoc]⟩

/-- **Every class that a module exports has a rule**, and its name is made of the hash of the
rules of the loader. -/
theorem hasClass_of_generate (h : Module.generate false path output = .ok module)
    {name className : String} (hname : module.classNames.get? name = some className) :
    className = scopedClass name (scopeOf output.css) ∧
      ∃ declarations, HasClass output module name className declarations := by
  obtain ⟨-, hnames, front, hcode⟩ := parts_of_generate h
  have hentry := hname
  rw [hnames, Table.get?_ofList] at hentry
  obtain ⟨entry, hfound, hclass⟩ := Option.map_eq_some_iff.mp hentry
  have hkey : name = entry.1 := by simpa using List.find?_some hfound
  obtain ⟨⟨name, declarations⟩, hmem, rfl⟩ :=
    List.mem_map.mp (List.mem_reverse.mp (List.mem_of_find?_eq_some hfound))
  dsimp only at hkey hclass
  subst hkey hclass
  refine ⟨rfl, declarations, hname, hmem, ?_⟩
  obtain ⟨before, after, hjoin⟩ := exists_append_join
    (List.mem_map_of_mem (f := renderClass (scopeOf output.css)) hmem)
  exact ⟨front ++ before, after, by rw [hcode, hjoin]; simp [renderClass, String.append_assoc]⟩

/-! ## Two modules with a class of one name -/

/-- A class of one export name has the same beside its families in two outputs: the class that
applies the font has a weight and a style, and the other one a property. -/
def AgreeBeside (name : String) (first second : Output) : Prop :=
  (name = "className" →
    single first.weight = single second.weight ∧ single first.style = single second.style) ∧
  (name = "variable" → first.variableName = second.variableName)

theorem mem_classDeclarations_iff {families name : String} {output : Output}
    {declarations : List (String × String)} :
    (name, declarations) ∈ classDeclarations families output ↔
      (name = "className" ∧ declarations = ("font-family", families) ::
        (declared "font-weight" (single output.weight) ++
          declared "font-style" (single output.style))) ∨
      (name = "variable" ∧ ∃ property,
        output.variableName = some property ∧ declarations = [(property, families)]) := by
  simp only [classDeclarations, List.mem_cons, List.mem_map, Option.mem_toList, Prod.mk.injEq]
  grind

/-- The weight and the style of a class can be told apart, as they have properties of their
own. -/
theorem declared_append_inj {weight weight' style style' : Option String} :
    declared "font-weight" weight ++ declared "font-style" style =
        declared "font-weight" weight' ++ declared "font-style" style' ↔
      weight = weight' ∧ style = style' := by
  cases weight <;> cases weight' <;> cases style <;> cases style' <;> simp [declared]

variable {first second : Output} {firstPath secondPath : String}
  {firstModule secondModule : Module}

/-- **Two classes of one export name have the same declarations** when they have the same
families, and the same beside them. -/
theorem declarations_eq_iff {families families' name : String}
    {declarations declarations' : List (String × String)}
    (hfirst : (name, declarations) ∈ classDeclarations families first)
    (hsecond : (name, declarations') ∈ classDeclarations families' second) :
    declarations = declarations' ↔ families = families' ∧ AgreeBeside name first second := by
  rw [mem_classDeclarations_iff] at hfirst hsecond
  rcases hfirst with ⟨rfl, rfl⟩ | ⟨rfl, property, hproperty, rfl⟩
  · obtain ⟨-, rfl⟩ := hsecond.resolve_right fun h => absurd h.1 (by decide)
    simp [AgreeBeside, declared_append_inj]
  · obtain ⟨-, property', hproperty', rfl⟩ :=
      hsecond.resolve_left fun h => absurd h.1 (by decide)
    simp [AgreeBeside, hproperty, hproperty', and_comm]

/-- The families come from the rules, the stand-in and the families that the author names. -/
theorem fontFamily_eq_of_css (hfirst : Module.generate false firstPath first = .ok firstModule)
    (hsecond : Module.generate false secondPath second = .ok secondModule)
    (hcss : first.css = second.css) (hfonts : first.fallbackFonts = second.fallbackFonts)
    (hstandIn : first.fallback.isSome = second.fallback.isSome) :
    firstModule.style.fontFamily = secondModule.style.fontFamily := by
  obtain ⟨⟨rules, family, hrename, hfamily⟩, -⟩ := parts_of_generate hfirst
  obtain ⟨⟨rules', family', hrename', hfamily'⟩, -⟩ := parts_of_generate hsecond
  rw [hcss, hrename'] at hrename
  cases hrename
  rw [hfamily, hfamily', hcss, hfonts]
  congr 1
  cases hone : first.fallback <;> cases hother : second.fallback <;> simp_all

theorem scopedClass_inj {name : String} {scope scope' : List Char}
    (h : scopedClass name scope = scopedClass name scope') : scope = scope' :=
  String.ofList_injective ((String.append_right_inj _).mp h)

/-- Only two export names are in use, and they differ in their first letter. -/
theorem exportName_eq_of_scopedClass {name other : String} {scope scope' : List Char}
    (hname : name = "className" ∨ name = "variable")
    (hother : other = "className" ∨ other = "variable")
    (h : scopedClass name scope = scopedClass other scope') : name = other := by
  have hletter := congrArg (fun text => text.toList[2]?) h
  rcases hname with rfl | rfl <;> rcases hother with rfl | rfl <;>
    simp [scopedClass] at hletter ⊢

theorem HasClass.exportName_eq {name className : String}
    {declarations : List (String × String)}
    (h : HasClass output module name className declarations) :
    name = "className" ∨ name = "variable" :=
  (mem_classDeclarations_iff.mp h.declared).imp And.left And.left

/-- **What a shared class name tells.**  Let two stylesheets export a class of the same name, and
assume that the hash does not confuse their rules.  Then the class is exported under the same
name by both, and both have the same rules and a rule for the class.  The two rules have the same
declarations exactly when the lists of families read the same, and so do the weight and the style
or the custom property; and the lists of families read the same if the author names the same
families and both or neither have a stand-in. -/
theorem shared_class_iff (hfirst : Module.generate false firstPath first = .ok firstModule)
    (hsecond : Module.generate false secondPath second = .ok secondModule)
    (hscope : scopeOf first.css = scopeOf second.css → first.css = second.css)
    {name other className : String}
    (hname : firstModule.classNames.get? name = some className)
    (hother : secondModule.classNames.get? other = some className) :
    name = other ∧ first.css = second.css ∧
    (∃ declarations, HasClass first firstModule name className declarations) ∧
    (∃ declarations, HasClass second secondModule name className declarations) ∧
    (∀ declarations declarations', HasClass first firstModule name className declarations →
      HasClass second secondModule name className declarations' →
      (declarations = declarations' ↔
        firstModule.style.fontFamily = secondModule.style.fontFamily ∧
          AgreeBeside name first second)) ∧
    (first.fallbackFonts = second.fallbackFonts →
      first.fallback.isSome = second.fallback.isSome →
      firstModule.style.fontFamily = secondModule.style.fontFamily) := by
  obtain ⟨hclass, declarations, hhas⟩ := hasClass_of_generate hfirst hname
  obtain ⟨hclass', declarations', hhas'⟩ := hasClass_of_generate hsecond hother
  have hnames : scopedClass name (scopeOf first.css) = scopedClass other (scopeOf second.css) :=
    hclass.symm.trans hclass'
  obtain rfl : name = other :=
    exportName_eq_of_scopedClass hhas.exportName_eq hhas'.exportName_eq hnames
  have hcss : first.css = second.css := hscope (scopedClass_inj hnames)
  refine ⟨rfl, hcss, ⟨declarations, hhas⟩, ⟨declarations', hhas'⟩, ?_, ?_⟩
  · intro one another hone hanother
    exact declarations_eq_iff hone.declared hanother.declared
  · exact fontFamily_eq_of_css hfirst hsecond hcss

/-- The rule of a font. -/
def interRule : String :=
  "@font-face \x7b font-family: 'Inter'; src: url(a.woff2); \x7d"

/-- The rule of a font, with a family that the author names and perhaps a custom property. -/
def interWith (family : String) (variableName : Option String) : Output :=
  ⟨interRule, [family], some "400", none, variableName, none⟩

/-- The class that the outputs above have in common. -/
def interClass : String := scopedClass "className" (scopeOf interRule)

theorem exists_generate_interWith (family : String) (variableName : Option String) :
    ∃ module, Module.generate false "page.js" (interWith family variableName) = .ok module ∧
      module.classNames.get? "className" = some interClass := by
  have hsome : (Css.renameFamilies (scopedFamily (scopeOf interRule)) interRule.toList).isSome := by
    decide +kernel
  obtain ⟨⟨rules, own⟩, hrename⟩ := Option.isSome_iff_exists.mp hsome
  obtain ⟨module, hmodule⟩ :=
    @exists_generate (interWith family variableName) rules own hrename "page.js"
  refine ⟨module, hmodule, ?_⟩
  rw [(parts_of_generate hmodule).2.1, Table.get?_ofList]
  cases variableName <;> rfl

/-- Two fonts with the same rules and the same family that the author names have one class, with
one list of declarations, although only one of them has a custom property. -/
theorem shared_class_of_interWith :
    ∃ one other,
      Module.generate false "page.js" (interWith "arial" (some "--inter")) = .ok one ∧
      Module.generate false "page.js" (interWith "arial" none) = .ok other ∧
      one.classNames.get? "className" = some interClass ∧
      other.classNames.get? "className" = some interClass ∧
      ∀ declarations declarations',
        HasClass (interWith "arial" (some "--inter")) one "className" interClass declarations →
        HasClass (interWith "arial" none) other "className" interClass declarations' →
        declarations = declarations' := by
  obtain ⟨one, hone, hname⟩ := exists_generate_interWith "arial" (some "--inter")
  obtain ⟨other, hother, hname'⟩ := exists_generate_interWith "arial" none
  obtain ⟨-, -, -, -, hiff, hfamily⟩ :=
    shared_class_iff hone hother (fun _ => rfl) hname hname'
  refine ⟨one, other, hone, hother, hname, hname', fun declarations declarations' hhas hhas' => ?_⟩
  exact (hiff declarations declarations' hhas hhas').mpr
    ⟨hfamily rfl rfl, fun _ => ⟨rfl, rfl⟩, fun h => absurd h (by decide)⟩

/-- The families that the author names are not in the hash, so one class is declared in two
ways. -/
theorem className_is_declared_twice :
    ∃ one other declarations declarations',
      Module.generate false "page.js" (interWith "arial" none) = .ok one ∧
      Module.generate false "page.js" (interWith "serif" none) = .ok other ∧
      HasClass (interWith "arial" none) one "className" interClass declarations ∧
      HasClass (interWith "serif" none) other "className" interClass declarations' ∧
      declarations ≠ declarations' := by
  obtain ⟨one, hone, hname⟩ := exists_generate_interWith "arial" none
  obtain ⟨other, hother, hname'⟩ := exists_generate_interWith "serif" none
  obtain ⟨-, declarations, hhas⟩ := hasClass_of_generate hone hname
  obtain ⟨-, declarations', hhas'⟩ := hasClass_of_generate hother hname'
  refine ⟨one, other, declarations, declarations', hone, hother, hhas, hhas', fun hsame => ?_⟩
  have hfamilies := ((declarations_eq_iff hhas.declared hhas'.declared).mp hsame).1
  obtain ⟨⟨rules, own, hrename, hfamily⟩, -⟩ := parts_of_generate hone
  obtain ⟨⟨rules', own', hrename', hfamily'⟩, -⟩ := parts_of_generate hother
  -- the own family is that of the rules, so only the one that the author names is left
  cases hrename.symm.trans hrename'
  rw [hfamily, hfamily'] at hfamilies
  simp only [interWith, familyList, Option.map_none, Option.toList_none, List.map_nil,
    List.cons_append, List.nil_append, String.intercalate_cons_cons,
    String.intercalate_singleton, String.append_right_inj] at hfamilies
  exact absurd hfamilies (by decide)

end FontHosting.Stylesheet
