import FontHosting.Proofs.Google.Reordering

/-!
# Where the comparison of values is an order

Two values with a comma and the same text in front of it are compared by the numbers behind it,
all others by the numbers that they start with.  So there are values between which a third one
stands that starts with the same number but has not that text in front: it ties with both of
them, although one of the two comes after the other (`Crossed`).  The third one may have no comma,
or spell the number in another way, such as `0400,1` between `400,2` and `400,0`.

Nothing else is wrong with the comparison.  Of two values it says the same either way round, and
it fails to carry over from two pairs to a third one exactly where values are crossed
(`notAfter_trans_iff`).  Values that are not crossed are listed in ascending order, and in one
way only.  Those of a call are not, if it asks for slanted letters, or if none of its weights has
a comma (`values_ascend_unless_crossed`).
-/

namespace FontHosting.Google

/-! ## The comparison -/

/-- The number behind the first comma of a value. -/
def secondNumber (value : String) : Int :=
  (ofLex (valueRank value)).2

/-- A value does not come after another. -/
def NotAfter (a b : String) : Prop :=
  compareValues a b ≠ .gt

section
variable {a b c : String}

theorem ShareFront.symm (h : ShareFront a b) : ShareFront b a := by
  obtain ⟨front, first, second, ha, hb⟩ := h
  exact ⟨front, second, first, hb, ha⟩

theorem ShareFront.trans (hab : ShareFront a b) (hbc : ShareFront b c) : ShareFront a c := by
  obtain ⟨front, first, second, ha, hb⟩ := hab
  obtain ⟨other, third, fourth, hb', hc⟩ := hbc
  obtain ⟨rfl, -⟩ := Prod.mk.inj (Option.some_inj.mp (hb.symm.trans hb'))
  exact ⟨front, first, fourth, ha, hc⟩

theorem leadingInt_of_splitOnce? {front rest : List Char}
    (h : Text.splitOnce? [','] a.toList = some (front, rest)) :
    leadingInt a.toList = leadingInt front := by
  rw [Text.eq_of_splitOnce? h, List.singleton_append, leadingInt_append_comma]

theorem ShareFront.leadingInt_eq (h : ShareFront a b) :
    leadingInt a.toList = leadingInt b.toList := by
  obtain ⟨front, first, second, ha, hb⟩ := h
  rw [leadingInt_of_splitOnce? ha, leadingInt_of_splitOnce? hb]

theorem secondNumber_of_splitOnce? {front rest : List Char}
    (h : Text.splitOnce? [','] a.toList = some (front, rest)) :
    secondNumber a = leadingInt rest := by
  unfold secondNumber valueRank
  rw [h]
  rfl

/-- Values that are alike up to a comma are compared by the numbers behind it. -/
theorem ShareFront.compareValues (h : ShareFront a b) :
    compareValues a b = compare (secondNumber a) (secondNumber b) := by
  obtain ⟨front, first, second, ha, hb⟩ := h
  rw [secondNumber_of_splitOnce? ha, secondNumber_of_splitOnce? hb]
  unfold Google.compareValues
  rw [ha, hb]
  exact if_pos rfl

/-- All others are compared by the numbers in front. -/
theorem compareValues_of_not_shareFront (h : ¬ ShareFront a b) :
    compareValues a b = compare (leadingInt a.toList) (leadingInt b.toList) := by
  unfold compareValues
  split
  · rename_i aFront aRest bFront bRest ha hb
    rw [leadingInt_of_splitOnce? ha, leadingInt_of_splitOnce? hb, if_neg]
    rintro rfl
    exact h ⟨_, _, _, ha, hb⟩
  · rfl

theorem compareValues_swap (a b : String) : compareValues b a = (compareValues a b).swap := by
  by_cases h : ShareFront a b
  · rw [h.compareValues, h.symm.compareValues]
    exact Std.OrientedOrd.eq_swap
  · rw [compareValues_of_not_shareFront h,
      compareValues_of_not_shareFront fun hback => h hback.symm]
    exact Std.OrientedOrd.eq_swap

theorem ShareFront.notAfter_iff (h : ShareFront a b) :
    NotAfter a b ↔ secondNumber a ≤ secondNumber b := by
  unfold NotAfter
  rw [h.compareValues, compare_le_iff_le.symm]

theorem notAfter_iff_of_not_shareFront (h : ¬ ShareFront a b) :
    NotAfter a b ↔ leadingInt a.toList ≤ leadingInt b.toList := by
  unfold NotAfter
  rw [compareValues_of_not_shareFront h, compare_le_iff_le.symm]

/-- A value that does not come after another does not start with a larger number. -/
theorem NotAfter.leadingInt_le (h : NotAfter a b) : leadingInt a.toList ≤ leadingInt b.toList := by
  by_cases hshare : ShareFront a b
  · exact hshare.leadingInt_eq.le
  · exact (notAfter_iff_of_not_shareFront hshare).mp h

/-! ## Crossed values -/

/-- The first of three values comes after the third one, being alike up to a comma, and the
second one, which is not, starts with the same number. -/
structure Crossed (a b c : String) : Prop where
  alike : ShareFront a c
  apart : ¬ ShareFront a b
  level : leadingInt b.toList = leadingInt a.toList
  after : secondNumber c < secondNumber a

/-- **The comparison carries over except between crossed values.** -/
theorem notAfter_trans_iff (hab : NotAfter a b) (hbc : NotAfter b c) :
    NotAfter a c ↔ ¬ Crossed a b c := by
  constructor
  · intro hac hcrossed
    exact absurd (hcrossed.alike.notAfter_iff.mp hac) (not_le.mpr hcrossed.after)
  · intro hcrossed
    by_cases hac : ShareFront a c
    · rw [hac.notAfter_iff]
      by_cases hshare : ShareFront a b
      · exact (hshare.notAfter_iff.mp hab).trans
          ((hshare.symm.trans hac).notAfter_iff.mp hbc)
      · -- the number in front of the second value lies between two that are the same
        have hlevel : leadingInt b.toList = leadingInt a.toList :=
          le_antisymm (hac.leadingInt_eq ▸ hbc.leadingInt_le) hab.leadingInt_le
        exact not_lt.mp fun hafter => hcrossed ⟨hac, hshare, hlevel, hafter⟩
    · exact (notAfter_iff_of_not_shareFront hac).mpr (hab.leadingInt_le.trans hbc.leadingInt_le)

end

/-- No three of some values are crossed. -/
def Uncrossed (values : List String) : Prop :=
  ∀ a ∈ values, ∀ b ∈ values, ∀ c ∈ values, ¬ Crossed a b c

theorem valueBefore_eq_false_iff {a b : String} : valueBefore b a = false ↔ NotAfter a b := by
  unfold valueBefore NotAfter
  rw [compareValues_swap a b, beq_eq_false_iff_ne]
  cases compareValues a b <;> decide

/-- **Values that are not crossed are compared by an order.** -/
theorem Uncrossed.orders {values : List String} (h : Uncrossed values) :
    Orders valueBefore values where
  asymm a _ b _ hab := by
    rw [valueBefore_eq_false_iff, NotAfter]
    rw [valueBefore, beq_iff_eq] at hab
    rw [hab]
    decide
  trans a ha b hb c hc hab hbc := by
    rw [valueBefore_eq_false_iff] at hab hbc ⊢
    exact (notAfter_trans_iff hbc hab).mpr (h c hc b hb a ha)

/-- Crossed values are three. -/
theorem Crossed.length_le {a b c : String} (h : Crossed a b c) {values : List String}
    (ha : a ∈ values) (hb : b ∈ values) (hc : c ∈ values) : 3 ≤ values.length := by
  have hself : ShareFront a a := h.alike.trans h.alike.symm
  have hnodup : [a, b, c].Nodup := by
    have hab : a ≠ b := fun heq => h.apart (heq ▸ hself)
    have hac : a ≠ c := fun heq => absurd h.after (heq ▸ lt_irrefl _)
    have hbc : b ≠ c := fun heq => h.apart (heq ▸ h.alike)
    simp [hab, hac, hbc]
  have hsub : [a, b, c] ⊆ values := by
    simp [ha, hb, hc]
  exact (List.subperm_of_subset hnodup hsub).length_le

/-! ## The values of a URL -/

/-- The values that the URL of some axes has, before they are sorted. -/
def Axes.values (axes : Axes) : List String :=
  axes.variants.map fun variant => renderVariant (axes.order variant)

section
variable {axes : Axes}

theorem variants_of_no_weights (h : axes.weights = none) :
    axes.variants =
      if (axes.further.getD []).isEmpty then [] else [axes.further.getD []] := by
  unfold Axes.variants
  rw [h]

theorem eq_of_mem_variants_of_no_weights (h : axes.weights = none) {variant : Variant}
    (hvariant : variant ∈ axes.variants) : variant = axes.further.getD [] ∧ variant ≠ [] := by
  rw [variants_of_no_weights h] at hvariant
  split at hvariant
  · exact absurd hvariant List.not_mem_nil
  · rename_i hsome
    obtain rfl := List.mem_singleton.mp hvariant
    exact ⟨rfl, fun hnil => hsome (List.isEmpty_iff.mpr hnil)⟩

/-- Every URL has its values sorted. -/
theorem exists_urlText_sorted (axes : Axes) (family display : String) :
    ∃ keys listed, stylesheetUrl family axes display = urlText family display keys listed ∧
      listed.map renderVariant = sortValues axes.values := by
  have hsorted : (axes.listed.map axes.order).map renderVariant = sortValues axes.values := by
    rw [sortValues, Axes.values, sortBy_map, List.map_map]
    rfl
  have hurl : ∃ keys, stylesheetUrl family axes display =
      urlText family display keys (axes.listed.map axes.order) := by
    cases hfirst : axes.variants with
    | nil => exact ⟨[], stylesheetUrl_of_nil family display hfirst _⟩
    | cons first rest =>
        have hmem : first ∈ axes.variants := hfirst ▸ List.mem_cons_self
        cases hweights : axes.weights with
        | some weights =>
            exact ⟨_, stylesheetUrl_of_keys family display hmem
              (fun _ hvariant => keys_variants hweights hvariant hmem)
              (ne_nil_of_mem_variants hweights hmem)⟩
        | none =>
            obtain ⟨honly, hsome⟩ := eq_of_mem_variants_of_no_weights hweights hmem
            refine ⟨_, stylesheetUrl_of_keys family display hmem (fun variant hvariant => ?_) hsome⟩
            rw [(eq_of_mem_variants_of_no_weights hweights hvariant).1, honly]
  obtain ⟨keys, hurl⟩ := hurl
  exact ⟨keys, _, hurl, hsorted⟩

end

theorem length_slantTuples_le (styles : List String) :
    (slantTuples (slantsOf styles)).length ≤ 2 := by
  unfold slantsOf
  split
  · split <;> decide
  · decide

/-- A URL of a variable font has two values at most. -/
theorem length_values_le {axes : Axes} {styles : List String} {range : Option String}
    (hweights : axes.weights = range.map fun range => [range])
    (hslants : axes.slants = slantsOf styles) : axes.values.length ≤ 2 := by
  rw [Axes.values, List.length_map]
  cases range with
  | none =>
      rw [variants_of_no_weights hweights]
      split
      · exact Nat.zero_le _
      · exact Nat.le_succ 1
  | some range =>
      rw [variants_of_weights hweights, List.flatMap_singleton, List.length_map, hslants]
      exact length_slantTuples_le styles

theorem not_shareFront_of_notMem_comma {a b : String} (h : ',' ∉ a.toList) :
    ¬ ShareFront a b := by
  rintro ⟨front, first, second, ha, -⟩
  refine h ?_
  rw [Text.eq_of_splitOnce? ha]
  simp

/-- A call asks for slanted letters, or for weights without a comma. -/
def Options.AsksPlainly (options : Options) : Prop :=
  "italic" ∈ options.styles ∨ ∀ weight ∈ options.weights, ',' ∉ weight.toList

/-- The values of single weights are not crossed if the letters are slanted, as the values that
start with the same number then start with the same slant, or if no weight has a comma. -/
theorem uncrossed_of_weights {options : Options} (h : options.AsksPlainly) :
    Uncrossed (Axes.values ⟨some options.weights, slantsOf options.styles, none⟩) := by
  rintro a ha b hb c - hcrossed
  obtain ⟨aVariant, haVariant, rfl⟩ := List.mem_map.mp ha
  obtain ⟨bVariant, hbVariant, rfl⟩ := List.mem_map.mp hb
  obtain ⟨aWeight, haWeight, hacases⟩ := exists_of_mem_variants haVariant
  obtain ⟨bWeight, -, hbcases⟩ := exists_of_mem_variants hbVariant
  rcases hacases with ⟨hplain, rfl⟩ | ⟨hitalic, aSlant, haSlant, rfl⟩
  · have hcomma := h.resolve_left hplain aWeight haWeight
    exact not_shareFront_of_notMem_comma hcomma hcrossed.alike
  · rcases hbcases with ⟨hother, -⟩ | ⟨-, bSlant, hbSlant, rfl⟩
    · exact hother hitalic
    · have hlevel : leadingInt (renderVariant [("ital", bSlant), ("wght", bWeight)]).toList =
          leadingInt (renderVariant [("ital", aSlant), ("wght", aWeight)]).toList :=
        hcrossed.level
      rw [toList_renderVariant, toList_renderVariant, leadingInt_append_comma,
        leadingInt_append_comma] at hlevel
      obtain rfl := hbSlant.eq_of_leadingInt haSlant hlevel
      exact hcrossed.apart
        ⟨_, _, _, haSlant.splitOnce?_render aWeight, hbSlant.splitOnce?_render bWeight⟩

/-- **The values of a call are not crossed**, if it asks for slanted letters or for weights
without a comma. -/
theorem Options.IsSound.uncrossed_values {options : Options} {catalog : Catalog}
    {fields : Json.Fields} {axes : Axes} (hsound : options.IsSound catalog fields)
    (haxes : options.wantedAxes catalog = .ok axes) (h : options.AsksPlainly) :
    Uncrossed axes.values := by
  obtain ⟨hslants, -, ⟨hstatic, -⟩ | ⟨-, hrange⟩⟩ := hsound.wantedAxes_cases haxes
  · rw [wantedAxes_of_static fun hhead => hstatic (List.mem_of_head? hhead)] at haxes
    obtain rfl := Except.ok.inj haxes
    exact uncrossed_of_weights h
  · -- crossed values are three, but a variable font has two at most
    intro a ha b hb c hc hcrossed
    have hthree := hcrossed.length_le ha hb hc
    have htwo := length_values_le hrange hslants
    omega

/-! ## The sorted values -/

/-- **The comparison of values is an order except between crossed values.**  It says the same of
two values either way round.  If a value does not come after a second one and that not after a
third one, the first does not come after the third unless they are crossed.  Values that are not
crossed have one ascending list in which those that tie stay as they were, and that is what they
are sorted to; and the values of the URL of an accepted call are such, if it asks for slanted
letters or for weights without a comma. -/
theorem values_ascend_unless_crossed (a b c : String) (values sorted : List String) :
    compareValues b a = (compareValues a b).swap ∧
    (NotAfter a b → NotAfter b c → (NotAfter a c ↔ ¬ Crossed a b c)) ∧
    (Uncrossed values → (IsSorted valueBefore values sorted ↔ sorted = sortValues values)) ∧
    ∀ function argument catalog options axes,
      Options.check function argument catalog = .ok options →
      options.wantedAxes catalog = .ok axes → options.AsksPlainly →
        ∃ keys listed,
          stylesheetUrl options.family axes options.display =
            urlText options.family options.display keys listed ∧
          IsSorted valueBefore axes.values (listed.map renderVariant) := by
  refine ⟨compareValues_swap a b, notAfter_trans_iff,
    fun huncrossed => huncrossed.orders.isSorted_iff, ?_⟩
  intro function argument catalog options axes hcheck haxes hplainly
  obtain ⟨-, -, fields, -, hread⟩ := check_eq_ok_iff.mp hcheck
  obtain ⟨keys, listed, hurl, hlisted⟩ := exists_urlText_sorted axes options.family options.display
  have huncrossed := hread.isSound.uncrossed_values haxes hplainly
  exact ⟨keys, listed, hurl, huncrossed.orders.isSorted_iff.mpr hlisted⟩

/-- Between the values `400,2` and `400,1`, which are compared by the numbers behind the comma, a
value stands that ties with both: `0400,0`, which spells the same number in another way, or `400`,
which has no comma.  So neither list is sorted. -/
theorem comparison_is_not_transitive :
    NotAfter "400,2" "0400,0" ∧ NotAfter "0400,0" "400,1" ∧ ¬ NotAfter "400,2" "400,1" ∧
    sortValues ["400,2", "0400,0", "400,1"] = ["400,2", "0400,0", "400,1"] ∧
    NotAfter "400,2" "400" ∧ NotAfter "400" "400,1" ∧
    sortValues ["400,2", "400", "400,1"] = ["400,2", "400", "400,1"] := by
  unfold NotAfter
  decide +kernel

end FontHosting.Google
