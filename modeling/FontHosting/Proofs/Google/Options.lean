import FontHosting.Google.Axes
import FontHosting.Proofs.Except
import Mathlib.Data.List.Nodup

/-!
# What is known of an accepted call

The checks of a call are made one after the other, and each has one lemma here that says what
its success amounts to (`checkSubsets_eq_ok`, `checkWeights_eq_ok_iff`, `checkStyles_eq_ok_iff`,
`checkAxes_eq_ok_iff`, `checkSelected_eq_ok_iff`).  Together they say what a call is that is
accepted (`check_eq_ok_iff`), and everything else about accepted calls is read off that.
-/

namespace FontHosting.Google

open Loader (Checked ArgumentFault)

/-! ## Lists without repetitions -/

section
variable {values : List String} {value : String}

theorem once_append_singleton (values : List String) (value : String) :
    once (values ++ [value]) =
      if value ∈ once values then once values else once values ++ [value] := by
  unfold once
  rw [List.foldl_append, List.foldl_cons, List.foldl_nil]
  simp only [List.contains_iff_mem]

theorem mem_once : value ∈ once values ↔ value ∈ values := by
  induction values using List.reverseRecOn with
  | nil => rfl
  | append_singleton values last ih =>
      rw [once_append_singleton, List.mem_append, List.mem_singleton, ← ih]
      split
      · rename_i hlast
        exact (or_iff_left_of_imp fun heq => heq ▸ hlast).symm
      · rw [List.mem_append, List.mem_singleton]

theorem nodup_once (values : List String) : (once values).Nodup := by
  induction values using List.reverseRecOn with
  | nil => exact List.nodup_nil
  | append_singleton values last ih =>
      rw [once_append_singleton]
      split
      · exact ih
      · rename_i hlast
        rw [← List.concat_eq_append]
        exact (List.nodup_concat _ _).mpr ⟨hlast, ih⟩

theorem perm_once {first second : List String} (h : first.Perm second) :
    (once first).Perm (once second) :=
  (List.perm_ext_iff_of_nodup (nodup_once first) (nodup_once second)).mpr fun value => by
    rw [mem_once, mem_once, h.mem_iff]

end

/-! ## Single checks -/

section
variable {family : String} {known : Option Family}

theorem allAvailable_eq_ok_iff {available values : List String}
    {fault : String → List String → ArgumentFault} :
    allAvailable available values fault = .ok () ↔ values ⊆ available := by
  unfold allAvailable firstUnknown?
  cases hfound : values.find? fun value => !available.contains value with
  | none =>
      rw [List.find?_eq_none] at hfound
      refine iff_of_true rfl fun value hvalue => ?_
      simpa using hfound value hvalue
  | some value =>
      have hunknown : value ∉ available := by simpa using List.find?_some hfound
      refine iff_of_false (fun h => by cases h) fun hsub => ?_
      exact hunknown (hsub (List.mem_of_find?_eq_some hfound))

/-- Files are loaded early only if the subsets are said, and known to a family that is. -/
theorem checkSubsets_eq_ok {preload preloads : Bool} {subsets : Option (List String)}
    (h : checkSubsets family known preload subsets = .ok preloads) :
    (preloads = true → ∃ given, subsets = some given ∧
      ∀ data, known = some data → given ⊆ data.subsets) ∧
    ∀ data, known = some data → data.subsets = [] → preloads = false := by
  unfold checkSubsets at h
  dsimp only at h
  split at h
  · -- the family has no subsets, so nothing is loaded early
    obtain rfl := Except.ok.inj h
    exact ⟨Bool.noConfusion, fun _ _ _ => rfl⟩
  · rename_i hsubsets
    have hsome : ∀ data, known = some data → data.subsets ≠ [] := by
      rintro data rfl hnone
      simp [hnone] at hsubsets
    refine ⟨fun hpreloads => ?_, fun data hdata hnone => absurd hnone (hsome data hdata)⟩
    split at h
    · cases h
      cases hpreloads
    · cases subsets with
      | none => cases h
      | some given =>
          refine ⟨given, rfl, ?_⟩
          rintro data rfl
          obtain ⟨_, hall, -⟩ := bind_eq_ok h
          exact allAvailable_eq_ok_iff.mp hall

/-- A step that stops at a fault ends well if there is none. -/
theorem ite_throw_eq_ok_iff {α β : Type} {fails : Prop} [Decidable fails] {fault : ArgumentFault}
    {next : α → Checked β} {rest : Checked β} {answer : β} :
    (if fails then throw fault >>= next else rest) = .ok answer ↔ ¬ fails ∧ rest = .ok answer := by
  by_cases h : fails
  · rw [if_pos h]
    exact iff_of_false (fun h => by cases h) fun hrest => hrest.1 h
  · rw [if_neg h]
    exact (and_iff_right h).symm

/-- The last step of a check: what was found is what the catalog lists for a family that is
known. -/
theorem listed_eq_ok_iff {listed : Family → List String} {values answer : List String}
    {fault : String → List String → ArgumentFault} :
    (if known.isSome = true then
      allAvailable ((known.map listed).getD []) values fault >>= fun _ => pure values
    else pure values : Checked (List String)) = .ok answer ↔
      answer = values ∧ ∀ data, known = some data → values ⊆ listed data := by
  cases known with
  | none =>
      rw [if_neg (by simp)]
      constructor
      · intro h
        exact ⟨(Except.ok.inj h).symm, fun data hdata => by cases hdata⟩
      · rintro ⟨rfl, -⟩
        rfl
  | some data =>
      rw [if_pos (Option.isSome_some)]
      constructor
      · intro h
        obtain ⟨_, hall, hanswer⟩ := bind_eq_ok h
        refine ⟨(Except.ok.inj hanswer).symm, ?_⟩
        rintro _ ⟨⟩
        exact allAvailable_eq_ok_iff.mp hall
      · rintro ⟨rfl, hlisted⟩
        have hall : allAvailable (listed data) answer fault = .ok () :=
          allAvailable_eq_ok_iff.mpr (hlisted data rfl)
        show allAvailable (listed data) answer fault >>= (fun _ => pure answer) = .ok answer
        rw [hall]
        rfl

/-- The weights of an accepted call are those asked for, or the whole range. -/
structure AcceptsWeights (known : Option Family) (asked weights : List String) : Prop where
  eq : weights = if asked.isEmpty then [variableWeight] else asked
  alone : variableWeight ∈ weights → weights.length ≤ 1
  listed : ∀ data, known = some data → weights ⊆ data.weights

theorem checkWeights_eq_ok_iff {asked weights : List String} :
    checkWeights family known asked = .ok weights ↔ AcceptsWeights known asked weights := by
  unfold checkWeights
  dsimp only
  by_cases hasked : asked.isEmpty = true
  · rw [if_neg (by simp [hasked]), ite_throw_eq_ok_iff, pure_bind, ite_throw_eq_ok_iff,
      listed_eq_ok_iff]
    constructor
    · rintro ⟨-, -, rfl, hlisted⟩
      exact ⟨(if_pos hasked).symm, fun _ => Nat.le_refl 1, hlisted⟩
    · rintro ⟨hweights, -, hlisted⟩
      obtain rfl := hweights.trans (if_pos hasked)
      refine ⟨?_, by simp, rfl, hlisted⟩
      cases known with
      | none => simp
      | some data => simpa using hlisted data rfl
  · rw [if_pos (by simpa using hasked), pure_bind, ite_throw_eq_ok_iff, listed_eq_ok_iff]
    constructor
    · rintro ⟨halone, rfl, hlisted⟩
      refine ⟨(if_neg hasked).symm, fun hvariable => ?_, hlisted⟩
      simpa [hvariable] using halone
    · rintro ⟨hweights, halone, hlisted⟩
      obtain rfl := hweights.trans (if_neg hasked)
      refine ⟨fun hfails => ?_, rfl, hlisted⟩
      obtain ⟨hlong, hvariable⟩ := Bool.and_eq_true_iff.mp hfails
      have := halone (List.contains_iff_mem.mp hvariable)
      have := of_decide_eq_true hlong
      omega

/-- The styles of an accepted call are those asked for, or the only one of the family, or the
normal one. -/
structure AcceptsStyles (known : Option Family) (asked styles : List String) : Prop where
  eq : styles = if !asked.isEmpty then asked
    else if ((known.map Family.styles).getD []).length = 1 then (known.map Family.styles).getD []
    else ["normal"]
  listed : ∀ data, known = some data → styles ⊆ data.styles

theorem checkStyles_eq_ok_iff {asked styles : List String} :
    checkStyles family known asked = .ok styles ↔ AcceptsStyles known asked styles := by
  unfold checkStyles
  dsimp only
  rw [listed_eq_ok_iff]
  constructor
  · rintro ⟨rfl, hlisted⟩
    exact ⟨rfl, hlisted⟩
  · rintro ⟨rfl, hlisted⟩
    exact ⟨rfl, hlisted⟩

/-- The axes of a call are given as a list, and to a variable font only. -/
theorem checkAxes_eq_ok_iff {fields : Json.Fields} {weights : List String}
    {axes : Option (List String)} :
    checkAxes family fields weights = .ok axes ↔
      (∀ value, Loader.given? fields "axes" = some value → ∃ items, value = .list items) ∧
      Loader.textsOption fields "axes" = .ok axes ∧
      (axes.isSome = true → weights.head? = some variableWeight) := by
  -- the second half of the check, for whatever axes the first one came to
  have hrest : ∀ found : Checked (Option (List String)),
      (found >>= fun axes =>
        if (weights.head? != some variableWeight && axes.isSome) = true then
          throw ArgumentFault.axesOfStaticFont >>= fun _ : PUnit => pure axes
        else pure axes) = .ok axes ↔
      found = .ok axes ∧ (axes.isSome = true → weights.head? = some variableWeight) := by
    intro found
    cases found with
    | error fault => exact iff_of_false (fun h => by cases h) fun h => by cases h.1
    | ok found =>
        rw [show ∀ next : Option (List String) → Checked (Option (List String)),
          (Except.ok found >>= next) = next found from fun _ => rfl, ite_throw_eq_ok_iff]
        constructor
        · rintro ⟨hstatic, hsame⟩
          obtain rfl : found = axes := Except.ok.inj hsame
          refine ⟨rfl, fun hsome => ?_⟩
          simpa [hsome] using hstatic
        · rintro ⟨hsame, hvariable⟩
          obtain rfl : found = axes := Except.ok.inj hsame
          refine ⟨fun hfails => ?_, rfl⟩
          obtain ⟨hstatic, hsome⟩ := Bool.and_eq_true_iff.mp hfails
          simp [hvariable hsome] at hstatic
  unfold checkAxes
  cases hgiven : Loader.given? fields "axes" with
  | none =>
      have hnone : Loader.textsOption fields "axes" = .ok none := by
        unfold Loader.textsOption
        rw [hgiven]
      rw [hnone]
      refine (hrest (.ok none)).trans ?_
      simp
  | some value =>
      cases value with
      | list items =>
          refine (hrest (Loader.textsOption fields "axes")).trans ?_
          simp
      | null => exact iff_of_false (fun h => by cases h) fun h => by simpa using h.1 _ rfl
      | boolean value => exact iff_of_false (fun h => by cases h) fun h => by simpa using h.1 _ rfl
      | number value => exact iff_of_false (fun h => by cases h) fun h => by simpa using h.1 _ rfl
      | text value => exact iff_of_false (fun h => by cases h) fun h => by simpa using h.1 _ rfl
      | object value => exact iff_of_false (fun h => by cases h) fun h => by simpa using h.1 _ rfl

end

/-! ## Accepted calls -/

/-- What the checks of a call have made of its fields. -/
structure Options.ReadFrom (options : Options) (known : Option Family) (fields : Json.Fields) :
    Prop where
  preload : ∃ preload subsets, Loader.booleanOption fields "preload" = .ok preload ∧
    Loader.textsOption fields "subsets" = .ok subsets ∧
    checkSubsets options.family known (preload.getD true) subsets = .ok options.preload ∧
    options.subsets = subsets.getD []
  weights : ∃ asked, Loader.textsOption fields "weight" = .ok asked ∧
    AcceptsWeights known (once (asked.getD [])) options.weights
  styles : ∃ asked, Loader.textsOption fields "style" = .ok asked ∧
    AcceptsStyles known (once (asked.getD [])) options.styles
  display : Loader.displayOption fields = .ok options.display
  axes : checkAxes options.family fields options.weights = .ok options.axes
  adjustsFallback : checkAdjustment options.family fields = .ok options.adjustsFallback
  fallback : Loader.textsOption fields "fallback" = .ok options.fallback
  variableName : Loader.variableOption fields = .ok options.variableName

/-- **A call is accepted if all of its checks succeed**, and its options are what they came
to. -/
theorem check_eq_ok_iff {function : String} {argument : Option Json.Value} {catalog : Catalog}
    {options : Options} :
    Options.check function argument catalog = .ok options ↔
      function ≠ "" ∧ options.family = familyName function ∧
      ∃ fields, optionFields options.family argument = .ok fields ∧
        options.ReadFrom (catalog.get? options.family) fields := by
  unfold Options.check
  dsimp only
  rw [ite_throw_eq_ok_iff, String.isEmpty_iff]
  refine and_congr_right fun _ => ?_
  constructor
  · intro h
    obtain ⟨fields, hfields, h⟩ := bind_eq_ok h
    obtain ⟨preload, hpreload, h⟩ := bind_eq_ok h
    obtain ⟨subsets, hsubsets, h⟩ := bind_eq_ok h
    obtain ⟨preloads, hpreloads, h⟩ := bind_eq_ok h
    obtain ⟨askedWeights, haskedWeights, h⟩ := bind_eq_ok h
    obtain ⟨askedStyles, haskedStyles, h⟩ := bind_eq_ok h
    obtain ⟨weights, hweights, h⟩ := bind_eq_ok h
    obtain ⟨styles, hstyles, h⟩ := bind_eq_ok h
    obtain ⟨display, hdisplay, h⟩ := bind_eq_ok h
    obtain ⟨axes, haxes, h⟩ := bind_eq_ok h
    obtain ⟨adjusts, hadjusts, h⟩ := bind_eq_ok h
    obtain ⟨fallback, hfallback, h⟩ := bind_eq_ok h
    obtain ⟨variableName, hvariableName, h⟩ := bind_eq_ok h
    obtain rfl := Except.ok.inj h
    exact ⟨rfl, fields, hfields, {
      preload := ⟨preload, subsets, hpreload, hsubsets, hpreloads, rfl⟩
      weights := ⟨askedWeights, haskedWeights, checkWeights_eq_ok_iff.mp hweights⟩
      styles := ⟨askedStyles, haskedStyles, checkStyles_eq_ok_iff.mp hstyles⟩
      display := hdisplay
      axes := haxes
      adjustsFallback := hadjusts
      fallback := hfallback
      variableName := hvariableName }⟩
  · rintro ⟨hfamily, fields, hfields, hread⟩
    obtain ⟨preload, subsets, hpreload, hsubsets, hpreloads, hown⟩ := hread.preload
    obtain ⟨askedWeights, haskedWeights, hweights⟩ := hread.weights
    obtain ⟨askedStyles, haskedStyles, hstyles⟩ := hread.styles
    rw [← hfamily, ok_bind hfields, ok_bind hpreload, ok_bind hsubsets, ok_bind hpreloads,
      ok_bind haskedWeights, ok_bind haskedStyles, ok_bind (checkWeights_eq_ok_iff.mpr hweights),
      ok_bind (checkStyles_eq_ok_iff.mpr hstyles), ok_bind hread.display, ok_bind hread.axes,
      ok_bind hread.adjustsFallback, ok_bind hread.fallback, ok_bind hread.variableName, ← hown]
    rfl

/-! ## Axes -/

/-- The axes that the catalog lists for a family. -/
def Catalog.axesOf (catalog : Catalog) (family : String) : List Axis :=
  ((catalog.get? family).map Family.axes).getD []

theorem Catalog.mem_axesOf {catalog : Catalog} {family : String} {axis : Axis} :
    axis ∈ catalog.axesOf family ↔
      ∃ data, catalog.get? family = some data ∧ axis ∈ data.axes := by
  unfold Catalog.axesOf
  cases catalog.get? family <;> simp

theorem mem_selectedRanges {axes : List Axis} {selected : Option (List String)}
    {tag range : String} : (tag, range) ∈ selectedRanges axes selected ↔
      tag ≠ "wght" ∧ tag ∈ selected.getD [] ∧
        ∃ axis ∈ axes, axis.tag = tag ∧ axis.range = range := by
  unfold selectedRanges
  simp only [List.mem_map, List.mem_filter, Bool.and_eq_true, bne_iff_ne, List.contains_iff_mem,
    Prod.mk.injEq]
  constructor
  · rintro ⟨axis, ⟨haxis, htag, hselected⟩, rfl, rfl⟩
    exact ⟨htag, hselected, axis, haxis, rfl, rfl⟩
  · rintro ⟨htag, hselected, axis, haxis, rfl, rfl⟩
    exact ⟨axis, ⟨haxis, htag, hselected⟩, rfl, rfl⟩

/-- Axes can be selected of a family that has any besides its weight, and only those. -/
theorem checkSelected_eq_ok_iff {family : String} {axes : List Axis}
    {selected : Option (List String)} :
    checkSelected family axes selected = .ok () ↔ ∀ given, selected = some given →
      (axes.map Axis.tag).filter (· != "wght") ≠ [] ∧
        given ⊆ (axes.map Axis.tag).filter (· != "wght") := by
  cases selected with
  | none => exact iff_of_true rfl fun given h => by cases h
  | some given =>
      unfold checkSelected
      dsimp only
      constructor
      · rintro h _ ⟨⟩
        split at h
        · cases h
        · rename_i hsome
          exact ⟨fun hnone => hsome (List.isEmpty_iff.mpr hnone), allAvailable_eq_ok_iff.mp h⟩
      · intro h
        obtain ⟨hsome, hsub⟩ := h given rfl
        rw [if_neg fun hnone => hsome (List.isEmpty_iff.mp hnone)]
        exact allAvailable_eq_ok_iff.mpr hsub

section
variable {options : Options} {catalog : Catalog} {axes : Axes}

theorem wantedAxes_of_static (h : options.weights.head? ≠ some variableWeight)
    (catalog : Catalog) :
    options.wantedAxes catalog = .ok ⟨some options.weights, slantsOf options.styles, none⟩ := by
  unfold Options.wantedAxes
  rw [if_pos (bne_iff_ne.mpr h)]
  rfl

theorem wantedAxes_of_variable (h : options.weights.head? = some variableWeight) :
    options.wantedAxes catalog = .ok axes ↔
      checkSelected options.family (catalog.axesOf options.family) options.axes = .ok () ∧
      axes = ⟨(weightRange? (catalog.axesOf options.family)).map fun range => [range],
        slantsOf options.styles,
        if (selectedRanges (catalog.axesOf options.family) options.axes).isEmpty then none
        else some (selectedRanges (catalog.axesOf options.family) options.axes)⟩ := by
  unfold Options.wantedAxes
  rw [if_neg (by simp [h])]
  constructor
  · intro hwanted
    obtain ⟨_, hselected, haxes⟩ := bind_eq_ok hwanted
    exact ⟨hselected, (Except.ok.inj haxes).symm⟩
  · rintro ⟨hselected, rfl⟩
    exact ok_bind hselected _

/-- The further axes of a call are selected ones. -/
theorem selected_of_further (h : options.wantedAxes catalog = .ok axes) {tag range : String}
    (hfurther : (tag, range) ∈ axes.further.getD []) :
    (tag, range) ∈ selectedRanges (catalog.axesOf options.family) options.axes := by
  by_cases hvariable : options.weights.head? = some variableWeight
  · obtain ⟨-, rfl⟩ := (wantedAxes_of_variable hvariable).mp h
    dsimp only at hfurther
    split at hfurther
    · cases hfurther
    · exact hfurther
  · rw [wantedAxes_of_static hvariable] at h
    obtain rfl := Except.ok.inj h
    cases hfurther

end

/-! ## Soundness -/

namespace AcceptsWeights

variable {known : Option Family} {asked weights : List String}

theorem ne_nil (h : AcceptsWeights known asked weights) : weights ≠ [] := by
  rw [h.eq]
  split
  · exact List.cons_ne_nil _ _
  · rename_i hasked
    exact fun hnone => hasked (List.isEmpty_iff.mpr hnone)

theorem nodup (h : AcceptsWeights known (once asked) weights) : weights.Nodup := by
  rw [h.eq]
  split
  · exact List.nodup_singleton _
  · exact nodup_once asked

theorem eq_or_notMem (h : AcceptsWeights known asked weights) :
    weights = [variableWeight] ∨ variableWeight ∉ weights := by
  by_cases hvariable : variableWeight ∈ weights
  · -- a list with the whole range has only one weight, which is the range then
    obtain ⟨weight, hweight⟩ : ∃ weight, weights = [weight] :=
      List.length_eq_one_iff.mp
        (Nat.le_antisymm (h.alone hvariable) (List.length_pos_of_mem hvariable))
    rw [hweight, List.mem_singleton] at hvariable
    exact Or.inl (hvariable ▸ hweight)
  · exact Or.inr hvariable

theorem head?_eq_iff (h : AcceptsWeights known asked weights) :
    weights.head? = some variableWeight ↔ weights = [variableWeight] := by
  constructor
  · intro hhead
    exact h.eq_or_notMem.resolve_right fun hnot => hnot (List.mem_of_head? hhead)
  · rintro rfl
    rfl

end AcceptsWeights

namespace AcceptsStyles

variable {known : Option Family} {asked styles : List String}

theorem ne_nil (h : AcceptsStyles known asked styles) : styles ≠ [] := by
  rw [h.eq]
  split
  · rename_i hasked
    rintro rfl
    exact Bool.noConfusion hasked
  · split
    · rename_i hone
      intro hnone
      rw [hnone] at hone
      cases hone
    · exact List.cons_ne_nil _ _

theorem nodup (h : AcceptsStyles known (once asked) styles) : styles.Nodup := by
  rw [h.eq]
  split
  · exact nodup_once asked
  · split
    · rename_i hone
      obtain ⟨style, hstyle⟩ := List.length_eq_one_iff.mp hone
      rw [hstyle]
      exact List.nodup_singleton _
    · exact List.nodup_singleton _

end AcceptsStyles

/-- What can be relied on of the options of an accepted call. -/
structure Options.IsSound (options : Options) (catalog : Catalog) (fields : Json.Fields) : Prop where
  weights : options.weights ≠ [] ∧ options.weights.Nodup
  /-- A whole range of weights stands alone. -/
  variableAlone : options.weights = [variableWeight] ∨ variableWeight ∉ options.weights
  styles : options.styles ≠ [] ∧ options.styles.Nodup
  listed : ∀ data, catalog.get? options.family = some data →
    options.weights ⊆ data.weights ∧ options.styles ⊆ data.styles
  subsets : options.preload = true →
    Loader.textsOption fields "subsets" = .ok (some options.subsets) ∧
      ∀ data, catalog.get? options.family = some data → options.subsets ⊆ data.subsets
  withoutSubsets : ∀ data, catalog.get? options.family = some data → data.subsets = [] →
    options.preload = false
  axes : options.axes ≠ none → options.weights = [variableWeight]
  display : options.display ∈ Loader.displayValues
  variableName : ∀ name, options.variableName = some name → "--".toList <+: name.toList

theorem mem_of_displayOption {fields : Json.Fields} {display : String}
    (h : Loader.displayOption fields = .ok display) : display ∈ Loader.displayValues := by
  unfold Loader.displayOption at h
  obtain ⟨found, -, h⟩ := bind_eq_ok h
  dsimp only at h
  split at h
  · rename_i hcontains
    obtain rfl := Except.ok.inj h
    exact List.contains_iff_mem.mp hcontains
  · cases h

theorem prefix_of_variableOption {fields : Json.Fields} {name : String}
    (h : Loader.variableOption fields = .ok (some name)) : "--".toList <+: name.toList := by
  unfold Loader.variableOption at h
  obtain ⟨found, -, h⟩ := bind_eq_ok h
  cases found with
  | none => cases h
  | some found =>
      dsimp only at h
      split at h
      · rename_i hprefix
        obtain rfl := Option.some_inj.mp (Except.ok.inj h)
        exact List.isPrefixOf_iff_prefix.mp hprefix
      · cases h

theorem Options.ReadFrom.isSound {options : Options} {catalog : Catalog} {fields : Json.Fields}
    (h : options.ReadFrom (catalog.get? options.family) fields) :
    options.IsSound catalog fields := by
  obtain ⟨askedWeights, -, hweights⟩ := h.weights
  obtain ⟨askedStyles, -, hstyles⟩ := h.styles
  obtain ⟨preload, subsets, -, hsubsets, hpreloads, hown⟩ := h.preload
  obtain ⟨hgiven, hwithout⟩ := checkSubsets_eq_ok hpreloads
  refine {
    weights := ⟨hweights.ne_nil, hweights.nodup⟩
    variableAlone := hweights.eq_or_notMem
    styles := ⟨hstyles.ne_nil, hstyles.nodup⟩
    listed := fun data hdata => ⟨hweights.listed data hdata, hstyles.listed data hdata⟩
    subsets := fun hpreload => ?_
    withoutSubsets := hwithout
    axes := fun haxes => ?_
    display := mem_of_displayOption h.display
    variableName := fun name hname => prefix_of_variableOption (hname ▸ h.variableName) }
  · obtain ⟨given, rfl, hlisted⟩ := hgiven hpreload
    rw [hown]
    exact ⟨hsubsets, hlisted⟩
  · obtain ⟨-, -, hhead⟩ := checkAxes_eq_ok_iff.mp h.axes
    exact hweights.head?_eq_iff.mp (hhead (Option.isSome_iff_ne_none.mpr haxes))

/-- **The options of an accepted call are sound**, and the further axes that are asked for are
axes that the catalog lists for the family.  The check itself looks at the first of its weights
only where there is one, whether it accepts the call or not. -/
theorem accepted_calls_are_sound (function : String) (argument : Option Json.Value)
    (catalog : Catalog) :
    (∀ family known asked weights, checkWeights family known asked = .ok weights →
      ∃ first, weights.head? = some first) ∧
    ∀ options, Options.check function argument catalog = .ok options →
      (∃ fields, optionFields options.family argument = .ok fields ∧
        options.IsSound catalog fields) ∧
      ∀ axes, options.wantedAxes catalog = .ok axes → ∀ tag range,
        (tag, range) ∈ axes.further.getD [] →
          tag ∈ options.axes.getD [] ∧ ∃ data, catalog.get? options.family = some data ∧
            ∃ axis ∈ data.axes, axis.tag = tag ∧ axis.range = range := by
  refine ⟨fun family known asked weights h => ?_, fun options h => ⟨?_, ?_⟩⟩
  · exact Option.isSome_iff_exists.mp
      (List.isSome_head?.mpr (checkWeights_eq_ok_iff.mp h).ne_nil)
  · obtain ⟨-, -, fields, hfields, hread⟩ := check_eq_ok_iff.mp h
    exact ⟨fields, hfields, hread.isSound⟩
  · intro axes haxes tag range hfurther
    obtain ⟨-, hselected, axis, haxis, htag, hrange⟩ :=
      mem_selectedRanges.mp (selected_of_further haxes hfurther)
    obtain ⟨data, hdata, hown⟩ := Catalog.mem_axesOf.mp haxis
    exact ⟨hselected, data, hdata, axis, hown, htag, hrange⟩

/-- A catalog with a family that has an axis, but not its weight. -/
def opticalCatalog : Catalog :=
  Table.ofList [("Optical",
    ⟨["400", "700", "variable"], ["normal", "italic"], ["latin"], [⟨"opsz", 14, 32⟩]⟩)]

/-- Options of that family, with a weight that is given twice. -/
def twoWeightsFields : Json.Fields :=
  [("weight", .list [.text "700", .text "400", .text "700"]),
    ("style", .list [.text "italic", .text "normal"]), ("subsets", .list [.text "latin"])]

/-- What they are read as. -/
def twoWeightsOptions : Options where
  family := "Optical"
  weights := ["700", "400"]
  styles := ["italic", "normal"]
  display := "swap"
  preload := true
  axes := none
  fallback := none
  adjustsFallback := true
  variableName := none
  subsets := ["latin"]

theorem check_twoWeightsFields :
    Options.check "Optical" (some (.object twoWeightsFields)) opticalCatalog =
      .ok twoWeightsOptions :=
  ok_of_toOption (by decide +kernel)

theorem twoWeightsOptions_are_sound :
    Options.check "Optical" (some (.object twoWeightsFields)) opticalCatalog =
      .ok twoWeightsOptions ∧
    ∃ fields, optionFields "Optical" (some (.object twoWeightsFields)) = .ok fields ∧
      twoWeightsOptions.IsSound opticalCatalog fields :=
  ⟨check_twoWeightsFields,
    ((accepted_calls_are_sound "Optical" (some (.object twoWeightsFields)) opticalCatalog).2 _
      check_twoWeightsFields).1⟩

end FontHosting.Google
