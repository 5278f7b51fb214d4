import FontHosting.Proofs.Google.Variants

/-!
# The order of options

Two calls whose lists of weights, styles and axes have the same items in another order
(`Reordered`) are checked alike: what one list has, the other has as well, and no check asks
more (`Options.ReadFrom.reordered`).  Their options differ in the order of the same lists
(`Resembles`).  That order is gone from the URL, because the variants are sorted by their
numbers, and different variants have different ones as long as different weights start with
different numbers (`alike_of_leadingInt`, `eq_of_valueRank`).
-/

namespace FontHosting.Google

open Loader (Checked)

/-! ## Options that differ in the order of their lists -/

/-- Two values are the same, or lists of the same items. -/
inductive SameItems : Option Json.Value → Option Json.Value → Prop
  | same (value : Option Json.Value) : SameItems value value
  | lists {first second : List Json.Value} (hperm : first.Perm second) :
      SameItems (some (.list first)) (some (.list second))

theorem SameItems.symm {first second : Option Json.Value} (h : SameItems first second) :
    SameItems second first := by
  cases h with
  | same => exact .same _
  | lists hperm => exact .lists hperm.symm

/-- Two objects of options have the same values, apart from the order of the weights, the
styles and the axes. -/
structure Reordered (first second : Json.Fields) : Prop where
  weights : SameItems (first.get? "weight") (second.get? "weight")
  styles : SameItems (first.get? "style") (second.get? "style")
  axes : SameItems (first.get? "axes") (second.get? "axes")
  others : ∀ key, key ∉ ["weight", "style", "axes"] → first.get? key = second.get? key

theorem Reordered.symm {first second : Json.Fields} (h : Reordered first second) :
    Reordered second first :=
  ⟨h.weights.symm, h.styles.symm, h.axes.symm, fun key hkey => (h.others key hkey).symm⟩

section
variable {key : String} {first second : Json.Fields}

/-- The texts of a list are those of its items, each of which must have one. -/
theorem textItems_eq_ok_iff {items : List Json.Value} {texts : List String} :
    Loader.textItems key items = .ok texts ↔
      (∀ item ∈ items, (Loader.asText? item).isSome) ∧
        texts = items.filterMap Loader.asText? := by
  induction items generalizing texts with
  | nil =>
      rw [Loader.textItems, Except.ok.injEq, eq_comm]
      exact (and_iff_right fun item hitem => absurd hitem List.not_mem_nil).symm
  | cons item rest ih =>
      rw [Loader.textItems]
      cases htext : Loader.asText? item with
      | none =>
          refine iff_of_false (fun h => by cases h) fun h => ?_
          have hsome := h.1 item List.mem_cons_self
          rw [htext] at hsome
          cases hsome
      | some text =>
          rw [List.forall_mem_cons, htext, List.filterMap_cons_some htext]
          constructor
          · intro h
            obtain ⟨more, hmore, hanswer⟩ := bind_eq_ok h
            obtain ⟨hrest, rfl⟩ := ih.mp hmore
            exact ⟨⟨rfl, hrest⟩, (Except.ok.inj hanswer).symm⟩
          · rintro ⟨⟨-, hrest⟩, rfl⟩
            exact ok_bind (ih.mpr ⟨hrest, rfl⟩) _

/-- Two lists of texts that need not be given have the same texts. -/
def SameTexts (first second : Option (List String)) : Prop :=
  first.isSome = second.isSome ∧ (first.getD []).Perm (second.getD [])

theorem textsOption_of_sameItems (h : SameItems (first.get? key) (second.get? key))
    {texts : Option (List String)} (htexts : Loader.textsOption first key = .ok texts) :
    ∃ others, Loader.textsOption second key = .ok others ∧ SameTexts texts others := by
  unfold Loader.textsOption Loader.given? at htexts ⊢
  generalize first.get? key = given at h htexts
  generalize second.get? key = other at h ⊢
  cases h with
  | same => exact ⟨texts, htexts, rfl, .refl _⟩
  | lists hperm =>
      obtain ⟨items, hitems, hanswer⟩ := bind_eq_ok htexts
      obtain ⟨hall, rfl⟩ := textItems_eq_ok_iff.mp hitems
      obtain rfl := Except.ok.inj hanswer
      refine ⟨_, ok_bind (textItems_eq_ok_iff.mpr ⟨fun item hitem => ?_, rfl⟩) _, rfl,
        hperm.filterMap _⟩
      exact hall item (hperm.mem_iff.mpr hitem)

theorem SameItems.given? (h : SameItems (first.get? key) (second.get? key)) :
    SameItems (Loader.given? first key) (Loader.given? second key) := by
  unfold Loader.given?
  generalize first.get? key = given at h
  generalize second.get? key = other at h
  cases h with
  | same => exact .same _
  | lists hperm => exact .lists hperm

end

/-! ## Checks -/

namespace Reordered

variable {first second : Json.Fields} {key : String} (h : Reordered first second)
include h

theorem given? (hkey : key ∉ ["weight", "style", "axes"]) :
    Loader.given? second key = Loader.given? first key := by
  unfold Loader.given?
  rw [h.others key hkey]

theorem textOption (hkey : key ∉ ["weight", "style", "axes"]) :
    Loader.textOption second key = Loader.textOption first key := by
  unfold Loader.textOption
  rw [h.given? hkey]

theorem textsOption (hkey : key ∉ ["weight", "style", "axes"]) :
    Loader.textsOption second key = Loader.textsOption first key := by
  unfold Loader.textsOption
  rw [h.given? hkey]

theorem booleanOption (hkey : key ∉ ["weight", "style", "axes"]) :
    Loader.booleanOption second key = Loader.booleanOption first key := by
  unfold Loader.booleanOption
  rw [h.given? hkey]

end Reordered

section
variable {known : Option Family} {asked others : List String}

theorem AcceptsWeights.reordered {weights : List String}
    (h : AcceptsWeights known (once asked) weights) (hperm : asked.Perm others) :
    ∃ found, AcceptsWeights known (once others) found ∧ weights.Perm found := by
  have honce := perm_once hperm
  have hfound : weights.Perm
      (if (once others).isEmpty then [variableWeight] else once others) := by
    rw [h.eq, honce.isEmpty_eq]
    split
    · exact .refl _
    · exact honce
  refine ⟨_, ⟨rfl, fun hvariable => ?_, fun data hdata weight hweight => ?_⟩, hfound⟩
  · rw [← hfound.length_eq]
    exact h.alone (hfound.mem_iff.mpr hvariable)
  · exact h.listed data hdata (hfound.mem_iff.mpr hweight)

theorem AcceptsStyles.reordered {styles : List String}
    (h : AcceptsStyles known (once asked) styles) (hperm : asked.Perm others) :
    ∃ found, AcceptsStyles known (once others) found ∧ styles.Perm found := by
  have honce := perm_once hperm
  have hfound : styles.Perm (if !(once others).isEmpty then once others
      else if ((known.map Family.styles).getD []).length = 1 then (known.map Family.styles).getD []
      else ["normal"]) := by
    rw [h.eq, honce.isEmpty_eq]
    split
    · exact honce
    · exact .refl _
  refine ⟨_, ⟨rfl, fun data hdata style hstyle => ?_⟩, hfound⟩
  exact h.listed data hdata (hfound.mem_iff.mpr hstyle)

theorem checkAxes_reordered {family : String} {first second : Json.Fields}
    {weights found : List String} {axes : Option (List String)}
    (hsame : SameItems (first.get? "axes") (second.get? "axes"))
    (hweights : weights.head? = some variableWeight → found.head? = some variableWeight)
    (h : checkAxes family first weights = .ok axes) :
    ∃ otherAxes, checkAxes family second found = .ok otherAxes ∧ SameTexts axes otherAxes := by
  obtain ⟨hlists, htexts, hhead⟩ := checkAxes_eq_ok_iff.mp h
  obtain ⟨otherAxes, hother, hsameAxes⟩ := textsOption_of_sameItems hsame htexts
  refine ⟨otherAxes, checkAxes_eq_ok_iff.mpr ⟨fun value hvalue => ?_, hother, fun hsome => ?_⟩,
    hsameAxes⟩
  · have hgiven := hsame.given?
    rw [hvalue] at hgiven
    generalize Loader.given? first "axes" = given at hgiven hlists
    cases hgiven with
    | same => exact hlists value rfl
    | lists => exact ⟨_, rfl⟩
  · exact hweights (hhead (hsameAxes.1.trans hsome))

end

/-- Two calls have the same options, apart from the order of the weights, the styles and the
axes. -/
structure Options.Resembles (options others : Options) : Prop where
  family : options.family = others.family
  weights : options.weights.Perm others.weights
  styles : options.styles.Perm others.styles
  display : options.display = others.display
  preload : options.preload = others.preload
  axes : SameTexts options.axes others.axes
  fallback : options.fallback = others.fallback
  adjustsFallback : options.adjustsFallback = others.adjustsFallback
  variableName : options.variableName = others.variableName
  subsets : options.subsets = others.subsets

/-- **Objects of options that differ in an order are read alike.** -/
theorem Options.ReadFrom.reordered {options : Options} {known : Option Family}
    {first second : Json.Fields} (h : options.ReadFrom known first)
    (hsame : Reordered first second) :
    ∃ others : Options, others.ReadFrom known second ∧ options.Resembles others := by
  obtain ⟨askedWeights, haskedWeights, hweights⟩ := h.weights
  obtain ⟨otherWeights, hotherWeights, -, hpermWeights⟩ :=
    textsOption_of_sameItems hsame.weights haskedWeights
  obtain ⟨weights, hnewWeights, hpermWeights⟩ := hweights.reordered hpermWeights
  obtain ⟨askedStyles, haskedStyles, hstyles⟩ := h.styles
  obtain ⟨otherStyles, hotherStyles, -, hpermStyles⟩ :=
    textsOption_of_sameItems hsame.styles haskedStyles
  obtain ⟨styles, hnewStyles, hpermStyles⟩ := hstyles.reordered hpermStyles
  have hhead : options.weights.head? = some variableWeight →
      weights.head? = some variableWeight := by
    rw [hweights.head?_eq_iff, hnewWeights.head?_eq_iff]
    intro hvariable
    exact List.perm_singleton.mp (hvariable ▸ hpermWeights.symm)
  obtain ⟨axes, haxes, hsameAxes⟩ := checkAxes_reordered hsame.axes hhead h.axes
  refine ⟨{ options with weights := weights, styles := styles, axes := axes }, {
    preload := ?_
    weights := ⟨otherWeights, hotherWeights, hnewWeights⟩
    styles := ⟨otherStyles, hotherStyles, hnewStyles⟩
    display := ?_
    axes := haxes
    adjustsFallback := ?_
    fallback := ?_
    variableName := ?_ }, ⟨rfl, hpermWeights, hpermStyles, rfl, rfl, hsameAxes, rfl, rfl, rfl, rfl⟩⟩
  · rw [hsame.booleanOption (by decide), hsame.textsOption (by decide)]
    exact h.preload
  · unfold Loader.displayOption
    rw [hsame.textOption (by decide)]
    exact h.display
  · unfold checkAdjustment
    rw [hsame.given? (by decide)]
    exact h.adjustsFallback
  · rw [hsame.textsOption (by decide)]
    exact h.fallback
  · unfold Loader.variableOption
    rw [hsame.textOption (by decide)]
    exact h.variableName

/-- **Of two calls that differ in an order both or neither are accepted.** -/
theorem check_reordered {first second : Json.Fields} (hsame : Reordered first second)
    {function : String} {catalog : Catalog} {options : Options}
    (h : Options.check function (some (.object first)) catalog = .ok options) :
    ∃ others, Options.check function (some (.object second)) catalog = .ok others ∧
      options.Resembles others ∧ options.IsSound catalog first := by
  obtain ⟨hnamed, hfamily, fields, hfields, hread⟩ := check_eq_ok_iff.mp h
  obtain rfl : first = fields := Except.ok.inj hfields
  obtain ⟨others, hothers, hresembles⟩ := hread.reordered hsame
  refine ⟨others, check_eq_ok_iff.mpr ⟨hnamed, ?_, second, rfl, ?_⟩, hresembles, hread.isSound⟩
  · rw [← hresembles.family]
    exact hfamily
  · rw [← hresembles.family]
    exact hothers

/-- Calls that are accepted alike ask for the same axes, up to the order of single weights. -/
theorem Options.Resembles.wantedAxes {options others : Options} {catalog : Catalog}
    {fields : Json.Fields} {axes : Axes} (h : options.Resembles others)
    (hsound : options.IsSound catalog fields) (haxes : options.wantedAxes catalog = .ok axes) :
    ∃ otherAxes, others.wantedAxes catalog = .ok otherAxes ∧ (otherAxes = axes ∨
      (axes = ⟨some options.weights, slantsOf options.styles, none⟩ ∧
        otherAxes = ⟨some others.weights, slantsOf options.styles, none⟩)) := by
  have hslants : slantsOf others.styles = slantsOf options.styles := by
    unfold slantsOf
    rw [h.styles.contains_eq, h.styles.contains_eq]
  rcases hsound.variableAlone with hvariable | hstatic
  · -- a variable font has one weight, and its axes are looked up in the catalog
    have hother : others.weights = [variableWeight] :=
      List.perm_singleton.mp (hvariable ▸ h.weights.symm)
    obtain ⟨hselected, rfl⟩ := (wantedAxes_of_variable (hvariable ▸ rfl)).mp haxes
    have hranges : ∀ listed, selectedRanges listed others.axes =
        selectedRanges listed options.axes := by
      intro listed
      unfold selectedRanges
      simp only [h.axes.2.contains_eq]
    refine ⟨_, (wantedAxes_of_variable (hother ▸ rfl)).mpr ⟨?_, rfl⟩, .inl ?_⟩
    · rw [← h.family]
      refine checkSelected_eq_ok_iff.mpr fun given hgiven => ?_
      obtain ⟨own, hown⟩ := Option.isSome_iff_exists.mp (h.axes.1.trans (hgiven ▸ rfl))
      have hperm : own.Perm given := by simpa [hown, hgiven] using h.axes.2
      obtain ⟨hsome, hsub⟩ := checkSelected_eq_ok_iff.mp hselected own hown
      exact ⟨hsome, fun tag htag => hsub (hperm.mem_iff.mpr htag)⟩
    · rw [hranges, hslants, ← h.family]
  · have hhead : ∀ {weights : List String}, variableWeight ∉ weights →
        weights.head? ≠ some variableWeight :=
      fun hnot hhead => hnot (List.mem_of_head? hhead)
    have hother : variableWeight ∉ others.weights :=
      fun hmem => hstatic (h.weights.mem_iff.mpr hmem)
    rw [wantedAxes_of_static (hhead hstatic)] at haxes
    obtain rfl := Except.ok.inj haxes
    refine ⟨_, wantedAxes_of_static (hhead hother) catalog, .inr ⟨rfl, ?_⟩⟩
    rw [hslants]

/-! ## URLs -/

/-- Different weights start with different numbers. -/
def DistinctNumbers (weights : List String) : Prop :=
  ∀ first ∈ weights, ∀ second ∈ weights,
    leadingInt first.toList = leadingInt second.toList → first = second

/-- The texts for upright and for slanted letters. -/
def IsSlant (slant : String) : Prop := slant = "0" ∨ slant = "1"

theorem IsSlant.notMem_comma {slant : String} (h : IsSlant slant) : ',' ∉ slant.toList := by
  rcases h with rfl | rfl <;> decide

theorem IsSlant.eq_of_leadingInt {first second : String} (hfirst : IsSlant first)
    (hsecond : IsSlant second) (h : leadingInt first.toList = leadingInt second.toList) :
    first = second := by
  rcases hfirst with rfl | rfl <;> rcases hsecond with rfl | rfl
  · rfl
  · exact absurd h (by decide +kernel)
  · exact absurd h (by decide +kernel)
  · rfl

/-- How a slanted or upright variant reads. -/
theorem toList_renderVariant (slant weight : String) :
    (renderVariant [("ital", slant), ("wght", weight)]).toList =
      slant.toList ++ ',' :: weight.toList := by
  rw [renderVariant, String.toList_intercalate]
  simp [List.intercalate]

theorem IsSlant.splitOnce?_render {slant : String} (h : IsSlant slant) (weight : String) :
    Text.splitOnce? [','] (renderVariant [("ital", slant), ("wght", weight)]).toList =
      some (slant.toList, weight.toList) := by
  rw [toList_renderVariant]
  exact Text.splitOnce?_behind h.notMem_comma _

/-- Variants of single weights have a weight and, if the letters are slanted, a slant. -/
theorem exists_of_mem_variants {weights styles : List String} {variant : Variant}
    (h : variant ∈ Axes.variants ⟨some weights, slantsOf styles, none⟩) :
    ∃ weight ∈ weights, ("italic" ∉ styles ∧ variant = [("wght", weight)]) ∨
      ("italic" ∈ styles ∧ ∃ slant, IsSlant slant ∧
        variant = [("ital", slant), ("wght", weight)]) := by
  rw [variants_of_weights rfl] at h
  obtain ⟨weight, hweight, h⟩ := List.mem_flatMap.mp h
  obtain ⟨slant, hslant, rfl⟩ := List.mem_map.mp h
  refine ⟨weight, hweight, ?_⟩
  cases mem_slantTuples.mp hslant with
  | upright hitalic => exact .inr ⟨hitalic, "0", .inl rfl, rfl⟩
  | slanted hitalic => exact .inr ⟨hitalic, "1", .inr rfl, rfl⟩
  | unsaid hitalic => exact .inl ⟨hitalic, rfl⟩

section
variable {weights styles : List String} {a b : Variant}

/-- Variants that start with the same number are the same, or alike up to their weight. -/
theorem alike_of_leadingInt (hdistinct : DistinctNumbers weights)
    (ha : a ∈ Axes.variants ⟨some weights, slantsOf styles, none⟩)
    (hb : b ∈ Axes.variants ⟨some weights, slantsOf styles, none⟩)
    (h : leadingInt (renderVariant a).toList = leadingInt (renderVariant b).toList) :
    renderVariant a = renderVariant b ∨ ShareFront (renderVariant a) (renderVariant b) := by
  obtain ⟨aWeight, haWeight, hacases⟩ := exists_of_mem_variants ha
  obtain ⟨bWeight, hbWeight, hbcases⟩ := exists_of_mem_variants hb
  rcases hacases with ⟨hplain, rfl⟩ | ⟨hitalic, aSlant, haSlant, rfl⟩ <;>
    rcases hbcases with ⟨hother, rfl⟩ | ⟨hother, bSlant, hbSlant, rfl⟩
  · -- upright letters: the values are the weights
    exact .inl (hdistinct aWeight haWeight bWeight hbWeight h)
  · exact absurd hother hplain
  · exact absurd hitalic hother
  · -- slanted letters: the number in front is that of the slant
    rw [toList_renderVariant, toList_renderVariant, leadingInt_append_comma,
      leadingInt_append_comma] at h
    obtain rfl := haSlant.eq_of_leadingInt hbSlant h
    exact .inr ⟨_, _, _, haSlant.splitOnce?_render aWeight, haSlant.splitOnce?_render bWeight⟩

/-- **Different variants have different ranks.** -/
theorem eq_of_valueRank (hdistinct : DistinctNumbers weights)
    (ha : a ∈ Axes.variants ⟨some weights, slantsOf styles, none⟩)
    (hb : b ∈ Axes.variants ⟨some weights, slantsOf styles, none⟩)
    (h : valueRank (renderVariant a) = valueRank (renderVariant b)) : a = b := by
  obtain ⟨aWeight, haWeight, hacases⟩ := exists_of_mem_variants ha
  obtain ⟨bWeight, hbWeight, hbcases⟩ := exists_of_mem_variants hb
  rcases hacases with ⟨hplain, rfl⟩ | ⟨hitalic, aSlant, haSlant, rfl⟩ <;>
    rcases hbcases with ⟨hother, rfl⟩ | ⟨hother, bSlant, hbSlant, rfl⟩
  · have hrender : ∀ weight, renderVariant [("wght", weight)] = weight := fun weight => rfl
    obtain ⟨aSecond, hrankA⟩ := exists_valueRank aWeight
    obtain ⟨bSecond, hrankB⟩ := exists_valueRank bWeight
    rw [hrender, hrender, hrankA, hrankB] at h
    rw [hdistinct aWeight haWeight bWeight hbWeight (Prod.mk.inj (toLex_inj.mp h)).1]
  · exact absurd hother hplain
  · exact absurd hitalic hother
  · unfold valueRank at h
    rw [haSlant.splitOnce?_render, hbSlant.splitOnce?_render] at h
    obtain ⟨hslant, hweight⟩ := Prod.mk.inj (toLex_inj.mp h)
    rw [haSlant.eq_of_leadingInt hbSlant hslant,
      hdistinct aWeight haWeight bWeight hbWeight hweight]

/-- **The order of the weights does not matter to a URL** if different ones start with different
numbers. -/
theorem stylesheetUrl_of_perm {others : List String} (family display : String)
    (hdistinct : DistinctNumbers weights) (hperm : weights.Perm others) :
    stylesheetUrl family ⟨some weights, slantsOf styles, none⟩ display =
      stylesheetUrl family ⟨some others, slantsOf styles, none⟩ display := by
  have hvariants : (Axes.variants ⟨some weights, slantsOf styles, none⟩).Perm
      (Axes.variants ⟨some others, slantsOf styles, none⟩) := by
    rw [variants_of_weights rfl, variants_of_weights rfl]
    exact hperm.flatMap_right _
  have hcompares : ComparesBy (fun a b => valueBefore (renderVariant a) (renderVariant b))
      (fun variant => valueRank (renderVariant variant))
      (Axes.variants ⟨some weights, slantsOf styles, none⟩) :=
    fun a ha b hb => valueBefore_iff (alike_of_leadingInt hdistinct ha hb)
  have hlisted : Axes.listed ⟨some weights, slantsOf styles, none⟩ =
      Axes.listed ⟨some others, slantsOf styles, none⟩ :=
    sortBy_eq_of_perm hvariants hcompares fun a ha b hb => eq_of_valueRank hdistinct ha hb
  cases hfirst : Axes.variants ⟨some weights, slantsOf styles, none⟩ with
  | nil =>
      rw [hfirst] at hvariants
      rw [stylesheetUrl_of_nil family display hfirst [],
        stylesheetUrl_of_nil family display (List.perm_nil.mp hvariants.symm) []]
  | cons first rest =>
      have hmem : first ∈ Axes.variants ⟨some weights, slantsOf styles, none⟩ :=
        hfirst ▸ List.mem_cons_self
      have hother := hvariants.mem_iff.mp hmem
      rw [stylesheetUrl_of_keys family display hmem (fun _ h => keys_variants rfl h hmem)
          (ne_nil_of_mem_variants rfl hmem),
        stylesheetUrl_of_keys family display hother (fun _ h => keys_variants rfl h hother)
          (ne_nil_of_mem_variants rfl hother), hlisted]
      rfl

end

/-- **The order of the options of a call does not matter**: of two calls that differ in the
order of their weights, styles and axes both or neither are accepted, both or neither have axes
that can be asked for, and if different weights start with different numbers they have the same
URL, which is also what their stylesheets are remembered by. -/
theorem url_ignores_order_of_options {first second : Json.Fields} (hsame : Reordered first second)
    (function : String) (catalog : Catalog) :
    ((∃ options, Options.check function (some (.object first)) catalog = .ok options) ↔
      ∃ others, Options.check function (some (.object second)) catalog = .ok others) ∧
    ∀ options others, Options.check function (some (.object first)) catalog = .ok options →
      Options.check function (some (.object second)) catalog = .ok others →
      ((∃ axes, options.wantedAxes catalog = .ok axes) ↔
        ∃ axes, others.wantedAxes catalog = .ok axes) ∧
      ∀ axes otherAxes, options.wantedAxes catalog = .ok axes →
        others.wantedAxes catalog = .ok otherAxes → DistinctNumbers options.weights →
          stylesheetUrl options.family axes options.display =
            stylesheetUrl others.family otherAxes others.display := by
  refine ⟨⟨?_, ?_⟩, ?_⟩
  · rintro ⟨options, hoptions⟩
    obtain ⟨others, hothers, -⟩ := check_reordered hsame hoptions
    exact ⟨others, hothers⟩
  · rintro ⟨others, hothers⟩
    obtain ⟨options, hoptions, -⟩ := check_reordered hsame.symm hothers
    exact ⟨options, hoptions⟩
  intro options others hoptions hothers
  obtain ⟨found, hfound, hresembles, hsound⟩ := check_reordered hsame hoptions
  obtain rfl := Except.ok.inj (hothers.symm.trans hfound)
  obtain ⟨back, hback, hresemblesBack, hsoundBack⟩ := check_reordered hsame.symm hothers
  obtain rfl := Except.ok.inj (hoptions.symm.trans hback)
  refine ⟨⟨?_, ?_⟩, ?_⟩
  · rintro ⟨axes, haxes⟩
    obtain ⟨otherAxes, hotherAxes, -⟩ := hresembles.wantedAxes hsound haxes
    exact ⟨otherAxes, hotherAxes⟩
  · rintro ⟨axes, haxes⟩
    obtain ⟨otherAxes, hotherAxes, -⟩ := hresemblesBack.wantedAxes hsoundBack haxes
    exact ⟨otherAxes, hotherAxes⟩
  · intro axes otherAxes haxes hotherAxes hdistinct
    obtain ⟨reached, hreached, hcases⟩ := hresembles.wantedAxes hsound haxes
    obtain rfl := Except.ok.inj (hotherAxes.symm.trans hreached)
    rw [← hresembles.family, ← hresembles.display]
    rcases hcases with rfl | ⟨rfl, rfl⟩
    · rfl
    · exact stylesheetUrl_of_perm options.family options.display hdistinct hresembles.weights

/-- The options of two weights in another order. -/
def otherOrderFields : Json.Fields :=
  [("style", .list [.text "normal", .text "italic"]), ("subsets", .list [.text "latin"]),
    ("weight", .list [.text "400", .text "700", .text "700"])]

/-- What they are read as. -/
def otherOrderOptions : Options :=
  { twoWeightsOptions with weights := ["400", "700"], styles := ["normal", "italic"] }

theorem reordered_otherOrderFields : Reordered twoWeightsFields otherOrderFields where
  weights := .lists (.swap _ _ _)
  styles := .lists (.swap _ _ _)
  axes := .same _
  others := by
    intro key hkey
    simp only [List.mem_cons, List.not_mem_nil, or_false, not_or] at hkey
    obtain ⟨hweight, hstyle, -⟩ := hkey
    simp [twoWeightsFields, otherOrderFields, Json.Fields.get?_cons, hweight, hstyle]

theorem otherOrderFields_have_same_url :
    Reordered twoWeightsFields otherOrderFields ∧
    Options.check "Optical" (some (.object twoWeightsFields)) opticalCatalog =
      .ok twoWeightsOptions ∧
    Options.check "Optical" (some (.object otherOrderFields)) opticalCatalog =
      .ok otherOrderOptions ∧
    stylesheetUrl "Optical" ⟨some ["700", "400"], some ["0", "1"], none⟩ "swap" =
      stylesheetUrl "Optical" ⟨some ["400", "700"], some ["0", "1"], none⟩ "swap" := by
  have hother : Options.check "Optical" (some (.object otherOrderFields)) opticalCatalog =
      .ok otherOrderOptions := ok_of_toOption (by decide +kernel)
  refine ⟨reordered_otherOrderFields, check_twoWeightsFields, hother, ?_⟩
  exact ((url_ignores_order_of_options reordered_otherOrderFields "Optical" opticalCatalog).2 _ _
    check_twoWeightsFields hother).2 _ _ (ok_of_toOption (by decide +kernel))
    (ok_of_toOption (by decide +kernel)) (by unfold DistinctNumbers; decide +kernel)

end FontHosting.Google
