import FontHosting.Proofs.Google.Options
import FontHosting.Proofs.Google.Sorting

/-!
# The variants of a URL

A call asks for every combination of a slant and a weight, each with the selected axes
(`Options.Asks`).  The URL has these variants, each once and with its values in the order of the
keys in front (`AsksFor`).  That no two of them become the same is because they differ in the
slant or in the weight, which no order of the axes can hide (`pairwise_variants`), and that all
of them have the same keys is because only the tags decide how a variant is ordered
(`keys_orderTags`).

There is one exception.  A family may list axes without a weight among them; then nothing is
said of the weight, and the slants are dropped with it (`url_asks_for_variants`).
-/

namespace FontHosting.Google

/-! ## What a call asks for -/

/-- What a list of styles asks for: upright and slanted letters, or slanted ones alone, or
nothing if they are not slanted. -/
inductive AsksSlant (styles : List String) : Variant → Prop
  | upright (hitalic : "italic" ∈ styles) (hnormal : "normal" ∈ styles) :
      AsksSlant styles [("ital", "0")]
  | slanted (hitalic : "italic" ∈ styles) : AsksSlant styles [("ital", "1")]
  | unsaid (hitalic : "italic" ∉ styles) : AsksSlant styles []

/-- What a list of weights asks for: each of them, or the range of the weight if the font is
variable.  Nothing is asked for if its axes are known and the weight is not one of them. -/
inductive AsksWeight (weights : List String) (axes : List Axis) : Variant → Prop
  | single {weight : String} (hstatic : variableWeight ∉ weights) (hweight : weight ∈ weights) :
      AsksWeight weights axes [("wght", weight)]
  | wholeRange (hvariable : variableWeight ∈ weights) (hunknown : axes = []) :
      AsksWeight weights axes [("wght", wholeWeightRange)]
  | range {axis : Axis} (hvariable : variableWeight ∈ weights)
      (haxis : (axes.filter fun axis => axis.tag == "wght").getLast? = some axis) :
      AsksWeight weights axes [("wght", axis.range)]
  | unsaid (hvariable : variableWeight ∈ weights) (hknown : axes ≠ [])
      (hnone : ∀ axis ∈ axes, axis.tag ≠ "wght") : AsksWeight weights axes []

/-- The selected axes of a call with their ranges. -/
def Options.selected (options : Options) (catalog : Catalog) : Variant :=
  selectedRanges (catalog.axesOf options.family) options.axes

/-- A call asks for a variant. -/
def Options.Asks (options : Options) (catalog : Catalog) (variant : Variant) : Prop :=
  ∃ slant weight, AsksSlant options.styles slant ∧
    AsksWeight options.weights (catalog.axesOf options.family) weight ∧
    variant = slant ++ weight ++ options.selected catalog

/-- How a variant reads in a URL. -/
def renderVariant (variant : Variant) : String :=
  ",".intercalate (variant.map Prod.snd)

/-- The text of a URL with some keys and the variants that give values to them. -/
def urlText (family display : String) (keys : List String) (variants : List Variant) : String :=
  "https://fonts.googleapis.com/css2?family=" ++
    String.ofList (Text.replaceChar ' ' '+' family.toList) ++
    (if keys = [] then "" else
      ":" ++ ",".intercalate keys ++ "@" ++
        ";".intercalate (variants.map renderVariant)) ++
    "&display=" ++ display

/-- **A URL asks for the variants that are wanted**: for each of them once, with its axes in the
order of the keys. -/
def AsksFor (url family display : String) (keys : List String) (wanted : Variant → Prop) : Prop :=
  ∃ (listed : List Variant) (order : Variant → Variant),
    (∀ variant, variant ∈ listed ↔ wanted variant) ∧
    (∀ variant ∈ listed, (order variant).Perm variant ∧ (order variant).map Prod.fst = keys) ∧
    (listed.map order).Nodup ∧
    url = urlText family display keys (listed.map order)

theorem AsksFor.congr {url family display : String} {keys : List String}
    {wanted others : Variant → Prop} (h : AsksFor url family display keys wanted)
    (hsame : ∀ variant, wanted variant ↔ others variant) :
    AsksFor url family display keys others := by
  obtain ⟨listed, order, hlisted, hrest⟩ := h
  exact ⟨listed, order, fun variant => (hlisted variant).trans (hsame variant), hrest⟩

theorem AsksFor.mem_keys {url family display tag value : String} {keys : List String}
    {wanted : Variant → Prop} (h : AsksFor url family display keys wanted) {variant : Variant}
    (hwanted : wanted variant) (hmem : (tag, value) ∈ variant) : tag ∈ keys := by
  obtain ⟨listed, order, hlisted, horder, -, -⟩ := h
  obtain ⟨hperm, hkeys⟩ := horder variant ((hlisted variant).mpr hwanted)
  rw [← hkeys]
  exact List.mem_map_of_mem (hperm.mem_iff.mpr hmem)

/-! ## The order of a URL -/

theorem perm_orderTags (variant : Variant) : (orderTags variant).Perm variant :=
  perm_sortBy _ variant

/-- The keys of a variant are ordered without looking at its values. -/
theorem keys_orderTags (variant : Variant) :
    (orderTags variant).map Prod.fst = sortBy tagBefore (variant.map Prod.fst) :=
  (sortBy_map tagBefore Prod.fst variant).symm

/-- How the URL of some axes orders a variant: by the tags, if there are further axes. -/
def Axes.order (axes : Axes) (variant : Variant) : Variant :=
  if axes.further.isSome then orderTags variant else variant

theorem Axes.perm_order (axes : Axes) (variant : Variant) :
    (axes.order variant).Perm variant := by
  unfold Axes.order
  split
  · exact perm_orderTags variant
  · exact .refl _

/-- Variants of the same keys are ordered in the same way. -/
theorem Axes.keys_order (axes : Axes) {first second : Variant}
    (h : first.map Prod.fst = second.map Prod.fst) :
    (axes.order first).map Prod.fst = (axes.order second).map Prod.fst := by
  unfold Axes.order
  split
  · rw [keys_orderTags, keys_orderTags, h]
  · exact h

/-- The variants of some axes in the order of the URL. -/
def Axes.listed (axes : Axes) : List Variant :=
  sortBy (fun a b => valueBefore (renderVariant (axes.order a)) (renderVariant (axes.order b)))
    axes.variants

theorem Axes.perm_listed (axes : Axes) : axes.listed.Perm axes.variants :=
  perm_sortBy _ axes.variants

/-- A URL without variants has no keys. -/
theorem stylesheetUrl_of_nil {axes : Axes} (family display : String) (h : axes.variants = [])
    (variants : List Variant) :
    stylesheetUrl family axes display = urlText family display [] variants := by
  unfold stylesheetUrl urlText
  rw [h, if_pos rfl, List.map_nil, ite_self]
  rfl

/-- **A URL lists its variants behind their keys**, if all of them have the same ones. -/
theorem stylesheetUrl_of_keys {axes : Axes} (family display : String) {first : Variant}
    (hfirst : first ∈ axes.variants)
    (hkeys : ∀ variant ∈ axes.variants, variant.map Prod.fst = first.map Prod.fst)
    (hsome : first ≠ []) :
    stylesheetUrl family axes display =
      urlText family display ((axes.order first).map Prod.fst) (axes.listed.map axes.order) := by
  have horder : (if axes.further.isSome = true then axes.variants.map orderTags
      else axes.variants) = axes.variants.map axes.order := by
    unfold Axes.order
    split
    · rfl
    · exact (List.map_id' axes.variants).symm
  have hsorted : sortValues ((axes.variants.map axes.order).map renderVariant) =
      (axes.listed.map axes.order).map renderVariant := by
    rw [sortValues, List.map_map, sortBy_map, List.map_map]
    rfl
  have hrendered : renderVariants (axes.variants.map axes.order) =
      ":" ++ ",".intercalate ((axes.order first).map Prod.fst) ++ "@" ++
        ";".intercalate ((axes.listed.map axes.order).map renderVariant) := by
    obtain ⟨head, rest, hvariants⟩ := List.exists_cons_of_ne_nil (List.ne_nil_of_mem hfirst)
    rw [← hsorted, ← axes.keys_order (hkeys head (hvariants ▸ List.mem_cons_self)), hvariants]
    rfl
  have hnonempty : (axes.order first).map Prod.fst ≠ [] := by
    intro hnil
    have hempty := List.map_eq_nil_iff.mp hnil
    exact hsome (List.perm_nil.mp (hempty ▸ axes.perm_order first).symm)
  unfold stylesheetUrl urlText
  dsimp only
  rw [horder, hrendered, if_neg hnonempty]

/-! ## The variants of some axes -/

/-- The tags and values of some slants. -/
def slantTuples : Option (List String) → List Variant
  | none => [[]]
  | some slants => slants.map fun slant => [("ital", slant)]

theorem mem_slantTuples {styles : List String} {slant : Variant} :
    slant ∈ slantTuples (slantsOf styles) ↔ AsksSlant styles slant := by
  constructor
  · intro h
    by_cases hitalic : "italic" ∈ styles
    · by_cases hnormal : "normal" ∈ styles
      · have hboth : slant = [("ital", "0")] ∨ slant = [("ital", "1")] := by
          simpa [slantTuples, slantsOf, hitalic, hnormal] using h
        rcases hboth with rfl | rfl
        · exact .upright hitalic hnormal
        · exact .slanted hitalic
      · obtain rfl : slant = [("ital", "1")] := by
          simpa [slantTuples, slantsOf, hitalic, hnormal] using h
        exact .slanted hitalic
    · obtain rfl : slant = [] := by simpa [slantTuples, slantsOf, hitalic] using h
      exact .unsaid hitalic
  · intro h
    cases h with
    | upright hitalic hnormal => simp [slantTuples, slantsOf, hitalic, hnormal]
    | slanted hitalic => simp [slantTuples, slantsOf, hitalic]
    | unsaid hitalic => simp [slantTuples, slantsOf, hitalic]

theorem exists_asksSlant (styles : List String) : ∃ slant, AsksSlant styles slant := by
  by_cases hitalic : "italic" ∈ styles
  · exact ⟨_, .slanted hitalic⟩
  · exact ⟨_, .unsaid hitalic⟩

theorem pairwise_slantTuples (styles : List String) :
    (slantTuples (slantsOf styles)).Pairwise fun a b => ¬ a.Perm b := by
  unfold slantsOf
  split
  · split <;> decide
  · exact List.pairwise_singleton _ _

/-- The tags and values of some weights. -/
def weightTuples : Option (List String) → List Variant
  | none => [[]]
  | some weights => weights.map fun weight => [("wght", weight)]

theorem mem_weightTuples_of_static {weights : List String} (h : variableWeight ∉ weights)
    (axes : List Axis) {weight : Variant} :
    weight ∈ weightTuples (some weights) ↔ AsksWeight weights axes weight := by
  constructor
  · intro hweight
    obtain ⟨single, hsingle, rfl⟩ := List.mem_map.mp hweight
    exact .single h hsingle
  · intro hweight
    cases hweight with
    | single _ hsingle => exact List.mem_map_of_mem hsingle
    | wholeRange hvariable => exact absurd hvariable h
    | range hvariable => exact absurd hvariable h
    | unsaid hvariable => exact absurd hvariable h

theorem mem_weightTuples_of_variable (axes : List Axis) {weight : Variant} :
    weight ∈ weightTuples ((weightRange? axes).map fun range => [range]) ↔
      AsksWeight [variableWeight] axes weight := by
  have hvariable : variableWeight ∈ [variableWeight] := List.mem_singleton_self _
  constructor
  · intro h
    by_cases hunknown : axes = []
    · obtain rfl : weight = [("wght", wholeWeightRange)] := by
        simpa [weightTuples, weightRange?, hunknown] using h
      exact .wholeRange hvariable hunknown
    · cases haxis : (axes.filter fun axis => axis.tag == "wght").getLast? with
      | none =>
          obtain rfl : weight = [] := by
            simpa [weightTuples, weightRange?, hunknown, haxis] using h
          exact .unsaid hvariable hunknown (by simpa [List.filter_eq_nil_iff] using haxis)
      | some axis =>
          obtain rfl : weight = [("wght", axis.range)] := by
            simpa [weightTuples, weightRange?, hunknown, haxis] using h
          exact .range hvariable haxis
  · intro h
    cases h with
    | single hstatic => exact absurd hvariable hstatic
    | wholeRange _ hunknown => simp [weightTuples, weightRange?, hunknown]
    | range _ haxis =>
        have hknown : axes ≠ [] := by
          rintro rfl
          cases haxis
        simp [weightTuples, weightRange?, hknown, haxis]
    | unsaid _ hknown hnone =>
        have haxis : (axes.filter fun axis => axis.tag == "wght").getLast? = none := by
          simpa [List.filter_eq_nil_iff] using hnone
        simp [weightTuples, weightRange?, hknown, haxis]

section
variable {axes : Axes} {weights : List String}

theorem variants_of_weights (h : axes.weights = some weights) :
    axes.variants = weights.flatMap fun weight => (slantTuples axes.slants).map fun slant =>
      slant ++ [("wght", weight)] ++ axes.further.getD [] := by
  unfold Axes.variants
  rw [h]
  cases axes.slants with
  | none => rfl
  | some slants =>
      unfold slantTuples
      simp only [List.map_map]
      rfl

theorem notMem_slantTuples {slants : Option (List String)} {slant : Variant}
    (h : slant ∈ slantTuples slants) (value : String) : ("wght", value) ∉ slant := by
  cases slants with
  | none =>
      obtain rfl := List.mem_singleton.mp h
      exact List.not_mem_nil
  | some slants =>
      obtain ⟨_, -, rfl⟩ := List.mem_map.mp h
      simp

theorem keys_slantTuples {slants : Option (List String)} {first second : Variant}
    (hfirst : first ∈ slantTuples slants) (hsecond : second ∈ slantTuples slants) :
    first.map Prod.fst = second.map Prod.fst := by
  cases slants with
  | none => rw [List.mem_singleton.mp hfirst, List.mem_singleton.mp hsecond]
  | some slants =>
      obtain ⟨_, -, rfl⟩ := List.mem_map.mp hfirst
      obtain ⟨_, -, rfl⟩ := List.mem_map.mp hsecond
      rfl

/-- **No two variants are the same in another order**: they differ in the slant or in the
weight. -/
theorem pairwise_variants (hweights : axes.weights = some weights) (hnodup : weights.Nodup)
    (hslants : (slantTuples axes.slants).Pairwise fun a b => ¬ a.Perm b) :
    axes.variants.Pairwise fun a b => ¬ a.Perm b := by
  rw [variants_of_weights hweights, List.pairwise_flatMap]
  constructor
  · -- variants of one weight have different slants
    intro weight _
    refine List.pairwise_map.mpr (hslants.imp fun hapart hperm => hapart ?_)
    exact (List.perm_append_right_iff _).mp ((List.perm_append_right_iff _).mp hperm)
  · -- variants of two weights have different values of `wght`
    refine hnodup.imp fun {first second} hne => ?_
    rintro _ hx _ hy hperm
    obtain ⟨slant, hslant, rfl⟩ := List.mem_map.mp hx
    obtain ⟨other, hother, rfl⟩ := List.mem_map.mp hy
    have htuple : ("wght", first) ∈ other ++ [("wght", second)] :=
      ((List.perm_append_right_iff _).mp hperm).mem_iff.mp (by simp)
    rcases List.mem_append.mp htuple with hmem | hmem
    · exact notMem_slantTuples hother first hmem
    · exact hne (Prod.mk.inj (List.mem_singleton.mp hmem)).2

theorem keys_variants (hweights : axes.weights = some weights) {first second : Variant}
    (hfirst : first ∈ axes.variants) (hsecond : second ∈ axes.variants) :
    first.map Prod.fst = second.map Prod.fst := by
  rw [variants_of_weights hweights] at hfirst hsecond
  obtain ⟨_, -, hfirst⟩ := List.mem_flatMap.mp hfirst
  obtain ⟨_, -, hsecond⟩ := List.mem_flatMap.mp hsecond
  obtain ⟨slant, hslant, rfl⟩ := List.mem_map.mp hfirst
  obtain ⟨other, hother, rfl⟩ := List.mem_map.mp hsecond
  simp [keys_slantTuples hslant hother]

theorem ne_nil_of_mem_variants (hweights : axes.weights = some weights) {variant : Variant}
    (hvariant : variant ∈ axes.variants) : variant ≠ [] := by
  rw [variants_of_weights hweights] at hvariant
  obtain ⟨_, -, hvariant⟩ := List.mem_flatMap.mp hvariant
  obtain ⟨slant, -, rfl⟩ := List.mem_map.mp hvariant
  simp

/-! ## What a URL asks for -/

/-- A URL asks for variants that have the same keys and are not the same in another order. -/
theorem asksFor_variants (family display : String) {first : Variant}
    (hfirst : first ∈ axes.variants)
    (hkeys : ∀ variant ∈ axes.variants, variant.map Prod.fst = first.map Prod.fst)
    (hsome : first ≠ []) (hapart : axes.variants.Pairwise fun a b => ¬ a.Perm b) :
    AsksFor (stylesheetUrl family axes display) family display
      ((axes.order first).map Prod.fst) (· ∈ axes.variants) := by
  refine ⟨axes.listed, axes.order, fun variant => axes.perm_listed.mem_iff,
    fun variant hlisted => ?_, ?_, stylesheetUrl_of_keys family display hfirst hkeys hsome⟩
  · have hvariant := axes.perm_listed.mem_iff.mp hlisted
    exact ⟨axes.perm_order variant, axes.keys_order (hkeys variant hvariant)⟩
  · refine (axes.perm_listed.map axes.order).nodup_iff.mpr (List.pairwise_map.mpr ?_)
    refine hapart.imp fun {a b} hnot heq => hnot ?_
    exact (axes.perm_order a).symm.trans (heq ▸ axes.perm_order b)

/-- If nothing is said of the weight, the URL asks for the further axes alone. -/
theorem asksFor_further (family display : String) (h : axes.weights = none) :
    ∃ keys, AsksFor (stylesheetUrl family axes display) family display keys
      (· = axes.further.getD []) := by
  have hvariants : axes.variants =
      if (axes.further.getD []).isEmpty then [] else [axes.further.getD []] := by
    unfold Axes.variants
    rw [h]
  by_cases hnone : axes.further.getD [] = []
  · -- a URL without keys asks for the variant without axes
    rw [if_pos (List.isEmpty_iff.mpr hnone)] at hvariants
    refine ⟨[], [[]], id, fun variant => ?_, fun variant hvariant => ?_, List.nodup_singleton _,
      stylesheetUrl_of_nil family display hvariants _⟩
    · rw [hnone, List.mem_singleton]
    · obtain rfl := List.mem_singleton.mp hvariant
      exact ⟨.refl _, rfl⟩
  · rw [if_neg fun hempty => hnone (List.isEmpty_iff.mp hempty)] at hvariants
    have hmem : ∀ variant, variant ∈ axes.variants ↔ variant = axes.further.getD [] :=
      fun variant => by rw [hvariants, List.mem_singleton]
    have hasks := asksFor_variants family display ((hmem _).mpr rfl)
      (fun variant hvariant => congrArg _ ((hmem variant).mp hvariant)) hnone
      (hvariants ▸ List.pairwise_singleton _ _)
    exact ⟨_, hasks.congr hmem⟩

end

namespace Options.IsSound

variable {options : Options} {catalog : Catalog} {fields : Json.Fields} {axes : Axes}
  (hsound : options.IsSound catalog fields) (h : options.wantedAxes catalog = .ok axes)
include hsound h

/-- An accepted call has a list of weights, or the range of its weight and the selected axes. -/
theorem wantedAxes_cases :
    axes.slants = slantsOf options.styles ∧ axes.further.getD [] = options.selected catalog ∧
    ((variableWeight ∉ options.weights ∧ axes.weights = some options.weights) ∨
      (options.weights = [variableWeight] ∧ axes.weights =
        (weightRange? (catalog.axesOf options.family)).map fun range => [range])) := by
  rcases hsound.variableAlone with hvariable | hstatic
  · obtain ⟨-, rfl⟩ := (wantedAxes_of_variable (hvariable ▸ rfl)).mp h
    refine ⟨rfl, ?_, .inr ⟨hvariable, rfl⟩⟩
    unfold Options.selected
    dsimp only
    split
    · rename_i hnone
      exact (List.isEmpty_iff.mp hnone).symm
    · rfl
  · have hhead : options.weights.head? ≠ some variableWeight :=
      fun hhead => hstatic (List.mem_of_head? hhead)
    rw [wantedAxes_of_static hhead] at h
    obtain rfl := Except.ok.inj h
    refine ⟨rfl, ?_, .inl ⟨hstatic, rfl⟩⟩
    -- axes are selected of variable fonts only
    have haxes : options.axes = none := by
      by_contra hsome
      exact hstatic (hsound.axes hsome ▸ List.mem_singleton_self _)
    unfold Options.selected selectedRanges
    rw [haxes]
    simp

theorem mem_weightTuples {weight : Variant} :
    weight ∈ weightTuples axes.weights ↔
      AsksWeight options.weights (catalog.axesOf options.family) weight := by
  obtain ⟨-, -, ⟨hstatic, hweights⟩ | ⟨hvariable, hweights⟩⟩ := hsound.wantedAxes_cases h
  · rw [hweights]
    exact mem_weightTuples_of_static hstatic _
  · rw [hweights, hvariable]
    exact mem_weightTuples_of_variable _

theorem nodup_weights {weights : List String} (hsome : axes.weights = some weights) :
    weights ≠ [] ∧ weights.Nodup := by
  obtain ⟨-, -, ⟨-, hweights⟩ | ⟨-, hweights⟩⟩ := hsound.wantedAxes_cases h
  · obtain rfl := Option.some_inj.mp (hsome.symm.trans hweights)
    exact hsound.weights
  · obtain ⟨range, -, rfl⟩ := Option.map_eq_some_iff.mp (hweights.symm.trans hsome)
    exact ⟨List.cons_ne_nil _ _, List.nodup_singleton _⟩

/-- If something is said of the weight, the variants are those that the call asks for. -/
theorem mem_variants {weights : List String} (hsome : axes.weights = some weights)
    (variant : Variant) : variant ∈ axes.variants ↔ options.Asks catalog variant := by
  obtain ⟨hslants, hfurther, -⟩ := hsound.wantedAxes_cases h
  have hweight : ∀ weight, AsksWeight options.weights (catalog.axesOf options.family) weight ↔
      ∃ single ∈ weights, [("wght", single)] = weight := fun weight => by
    rw [← hsound.mem_weightTuples h, hsome]
    exact List.mem_map
  rw [variants_of_weights hsome, hslants, hfurther, List.mem_flatMap]
  constructor
  · rintro ⟨single, hsingle, hvariant⟩
    obtain ⟨slant, hslant, rfl⟩ := List.mem_map.mp hvariant
    exact ⟨slant, _, mem_slantTuples.mp hslant, (hweight _).mpr ⟨single, hsingle, rfl⟩, rfl⟩
  · rintro ⟨slant, weight, hslant, hasked, rfl⟩
    obtain ⟨single, hsingle, rfl⟩ := (hweight weight).mp hasked
    exact ⟨single, hsingle, List.mem_map.mpr ⟨slant, mem_slantTuples.mpr hslant, rfl⟩⟩

/-- If nothing is said of the weight, no weight is asked for. -/
theorem asksWeight_of_none (hnone : axes.weights = none) (weight : Variant) :
    AsksWeight options.weights (catalog.axesOf options.family) weight ↔ weight = [] := by
  rw [← hsound.mem_weightTuples h, hnone]
  exact List.mem_singleton

theorem exists_asksWeight :
    ∃ weight, AsksWeight options.weights (catalog.axesOf options.family) weight := by
  have hsome : weightTuples axes.weights ≠ [] := by
    cases hweights : axes.weights with
    | none => exact List.cons_ne_nil _ _
    | some weights =>
        intro hnil
        exact (hsound.nodup_weights h hweights).1 (List.map_eq_nil_iff.mp hnil)
  obtain ⟨weight, hweight⟩ := List.exists_mem_of_ne_nil _ hsome
  exact ⟨weight, (hsound.mem_weightTuples h).mp hweight⟩

/-- If something is said of the weight, the URL asks for all that the call asks for. -/
theorem asksFor_weights {weights : List String} (hweights : axes.weights = some weights) :
    ∃ keys, AsksFor (stylesheetUrl options.family axes options.display) options.family
      options.display keys (options.Asks catalog) := by
  have hvariants := hsound.mem_variants h hweights
  obtain ⟨hslants, -, -⟩ := hsound.wantedAxes_cases h
  obtain ⟨first, hfirst⟩ : ∃ first, first ∈ axes.variants := by
    obtain ⟨weight, hweight⟩ := hsound.exists_asksWeight h
    obtain ⟨slant, hslant⟩ := exists_asksSlant options.styles
    exact ⟨_, (hvariants _).mpr ⟨slant, weight, hslant, hweight, rfl⟩⟩
  have hapart : axes.variants.Pairwise fun a b => ¬ a.Perm b :=
    pairwise_variants hweights (hsound.nodup_weights h hweights).2
      (hslants ▸ pairwise_slantTuples options.styles)
  have hasks := asksFor_variants options.family options.display hfirst
    (fun variant hvariant => keys_variants hweights hvariant hfirst)
    (ne_nil_of_mem_variants hweights hfirst) hapart
  exact ⟨_, hasks.congr hvariants⟩

/-- A URL that asks for all that the call asks for has the slant among its keys if the letters
are to be slanted. -/
theorem mem_keys {url family display : String} {keys : List String}
    (hasks : AsksFor url family display keys (options.Asks catalog))
    (hitalic : "italic" ∈ options.styles) : "ital" ∈ keys := by
  obtain ⟨weight, hweight⟩ := hsound.exists_asksWeight h
  have hslanted : options.Asks catalog ([("ital", "1")] ++ weight ++ options.selected catalog) :=
    ⟨_, weight, .slanted hitalic, hweight, rfl⟩
  have hital : ("ital", "1") ∈ [("ital", "1")] ++ weight ++ options.selected catalog := by simp
  exact hasks.mem_keys hslanted hital

/-- If nothing is said of the weight and the letters are not to be slanted, only the selected
axes are asked for. -/
theorem asks_iff_of_none (hnone : axes.weights = none) (hitalic : "italic" ∉ options.styles)
    (variant : Variant) :
    variant = options.selected catalog ↔ options.Asks catalog variant := by
  have hweight := hsound.asksWeight_of_none h hnone
  constructor
  · rintro rfl
    exact ⟨[], [], .unsaid hitalic, (hweight []).mpr rfl, rfl⟩
  · rintro ⟨slant, weight, hslant, hasked, rfl⟩
    obtain rfl := (hweight weight).mp hasked
    cases hslant with
    | upright hasked => exact absurd hasked hitalic
    | slanted hasked => exact absurd hasked hitalic
    | unsaid => rfl

end Options.IsSound

/-- **The URL of an accepted call asks for everything that the call asks for**: for each variant
once, each with its values in the order of the keys, and with the slant among the keys if the
letters are to be slanted.  If axes of the family are listed and the weight is not one of them,
a variable font has no weight to ask for; then the URL asks for the selected axes alone, which
is all that the call asks for only if the letters are not to be slanted. -/
theorem url_asks_for_variants {function : String} {argument : Option Json.Value}
    {catalog : Catalog} {options : Options} {axes : Axes}
    (hcheck : Options.check function argument catalog = .ok options)
    (hwanted : options.wantedAxes catalog = .ok axes) :
    (("italic" ∈ options.styles →
        ¬ AsksWeight options.weights (catalog.axesOf options.family) []) →
      ∃ keys, AsksFor (stylesheetUrl options.family axes options.display) options.family
        options.display keys (options.Asks catalog) ∧
        ("italic" ∈ options.styles → "ital" ∈ keys)) ∧
    (AsksWeight options.weights (catalog.axesOf options.family) [] →
      ∃ keys, AsksFor (stylesheetUrl options.family axes options.display) options.family
        options.display keys (· = options.selected catalog)) := by
  obtain ⟨-, -, fields, -, hread⟩ := check_eq_ok_iff.mp hcheck
  have hsound := hread.isSound
  cases hweights : axes.weights with
  | none =>
      have hunsaid : AsksWeight options.weights (catalog.axesOf options.family) [] :=
        (hsound.asksWeight_of_none hwanted hweights []).mpr rfl
      obtain ⟨keys, hasks⟩ := asksFor_further options.family options.display hweights
      obtain ⟨-, hfurther, -⟩ := hsound.wantedAxes_cases hwanted
      rw [hfurther] at hasks
      refine ⟨fun hsaid => ?_, fun _ => ⟨keys, hasks⟩⟩
      have hitalic : "italic" ∉ options.styles := fun hitalic => hsaid hitalic hunsaid
      exact ⟨keys, hasks.congr (hsound.asks_iff_of_none hwanted hweights hitalic),
        fun h => absurd h hitalic⟩
  | some weights =>
      obtain ⟨keys, hasks⟩ := hsound.asksFor_weights hwanted hweights
      refine ⟨fun _ => ⟨keys, hasks, hsound.mem_keys hwanted hasks⟩, fun hunsaid => ?_⟩
      -- every weight that the URL has is a weight
      have hnil := (hsound.mem_weightTuples hwanted).mpr hunsaid
      rw [hweights] at hnil
      obtain ⟨_, -, hnil⟩ := List.mem_map.mp hnil
      cases hnil

/-- The call with two weights and two styles asks for four variants. -/
theorem variants_of_twoWeights_are_asked_for :
    Options.check "Optical" (some (.object twoWeightsFields)) opticalCatalog =
      .ok twoWeightsOptions ∧
    twoWeightsOptions.wantedAxes opticalCatalog =
      .ok ⟨some ["700", "400"], some ["0", "1"], none⟩ ∧
    ∃ keys, AsksFor (stylesheetUrl "Optical" ⟨some ["700", "400"], some ["0", "1"], none⟩ "swap")
        "Optical" "swap" keys (twoWeightsOptions.Asks opticalCatalog) ∧ "ital" ∈ keys := by
  have hwanted : twoWeightsOptions.wantedAxes opticalCatalog =
      .ok ⟨some ["700", "400"], some ["0", "1"], none⟩ := rfl
  refine ⟨check_twoWeightsFields, hwanted, ?_⟩
  have hsaid : ¬ AsksWeight twoWeightsOptions.weights (opticalCatalog.axesOf "Optical") [] := by
    intro hunsaid
    cases hunsaid with
    | unsaid hvariable => exact absurd hvariable (by decide)
  obtain ⟨keys, hasks, hital⟩ :=
    (url_asks_for_variants check_twoWeightsFields hwanted).1 fun _ => hsaid
  exact ⟨keys, hasks, hital (by decide)⟩

/-- Options for slanted letters of a variable font. -/
def slantedFields : Json.Fields :=
  [("style", .list [.text "italic"]), ("preload", .boolean false)]

/-- What they are read as. -/
def slantedOptions : Options where
  family := "Optical"
  weights := ["variable"]
  styles := ["italic"]
  display := "swap"
  preload := false
  axes := none
  fallback := none
  adjustsFallback := true
  variableName := none
  subsets := []

theorem axesOf_opticalCatalog : opticalCatalog.axesOf "Optical" = [⟨"opsz", 14, 32⟩] := rfl

theorem selected_slantedOptions : slantedOptions.selected opticalCatalog = [] := by
  simp [Options.selected, slantedOptions, axesOf_opticalCatalog, selectedRanges]

/-- **The slant is lost** if the axes of a family are known and its weight is not one of them:
the call is accepted and its slant is among the axes that are wanted, but not in the URL. -/
theorem slant_is_lost_without_weight_axis :
    Options.check "Optical" (some (.object slantedFields)) opticalCatalog = .ok slantedOptions ∧
    slantedOptions.wantedAxes opticalCatalog = .ok ⟨none, some ["1"], none⟩ ∧
    stylesheetUrl "Optical" ⟨none, some ["1"], none⟩ "swap" =
      "https://fonts.googleapis.com/css2?family=Optical&display=swap" ∧
    ¬ ∃ keys, AsksFor (stylesheetUrl "Optical" ⟨none, some ["1"], none⟩ "swap") "Optical" "swap"
      keys (slantedOptions.Asks opticalCatalog) := by
  have hcheck : Options.check "Optical" (some (.object slantedFields)) opticalCatalog =
      .ok slantedOptions := ok_of_toOption (by decide +kernel)
  have hwanted : slantedOptions.wantedAxes opticalCatalog = .ok ⟨none, some ["1"], none⟩ := rfl
  have hurl : stylesheetUrl "Optical" ⟨none, some ["1"], none⟩ "swap" =
      "https://fonts.googleapis.com/css2?family=Optical&display=swap" := by decide +kernel
  refine ⟨hcheck, hwanted, hurl, ?_⟩
  rintro ⟨keys, hasks⟩
  have hslanted : slantedOptions.Asks opticalCatalog [("ital", "1")] := by
    refine ⟨[("ital", "1")], [], .slanted (by decide), ?_, ?_⟩
    · rw [show slantedOptions.family = "Optical" from rfl, axesOf_opticalCatalog]
      exact .unsaid (by decide) (List.cons_ne_nil _ _) (by simp)
    · rw [selected_slantedOptions]
      rfl
  have hkeys : keys ≠ [] := List.ne_nil_of_mem (hasks.mem_keys hslanted List.mem_cons_self)
  obtain ⟨listed, order, -, -, -, htext⟩ := hasks
  -- behind the family the URL goes on with `&`, one with keys with `:`
  have hnext := congrArg (fun url : String => url.toList[48]?) (hurl.symm.trans htext)
  have hfamily : Text.replaceChar ' ' '+' "Optical".toList = "Optical".toList := by decide
  unfold urlText at hnext
  rw [if_neg hkeys, hfamily] at hnext
  simp at hnext

end FontHosting.Google
