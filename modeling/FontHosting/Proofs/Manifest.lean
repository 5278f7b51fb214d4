import FontHosting.Manifest
import FontHosting.Proofs.Table

/-!
# What a manifest lists

A module may have an entry that lists nothing, so two questions are kept apart:
whether a module has an entry, which is `Manifest.get?`, and whether an asset is
listed under it, which is `Lists`.  Every change of a manifest is described by what it
does to `Lists`.

Where it is enough that nothing is gained, `Reduces` says so of the entries themselves, as lists.
Every manifest that is built by `record` and reduced is `Neat`: its entries have no duplicates and
list nothing but files that are to be loaded early.
-/

namespace FontHosting.Manifest

/-- An asset is listed under the path of a module. -/
def Lists (manifest : Manifest) (path asset : String) : Prop :=
  ∃ entry, manifest.get? path = some entry ∧ asset ∈ entry

theorem mem_addNew {items added : List String} {item : String} :
    item ∈ addNew items added ↔ item ∈ items ∨ item ∈ added := by
  unfold addNew
  induction added generalizing items with
  | nil => simp
  | cons first rest ih =>
      rw [List.foldl_cons, ih]
      by_cases hfirst : items.contains first = true
      · have hmem : first ∈ items := List.contains_iff_mem.mp hfirst
        rw [if_pos hfirst, List.mem_cons]
        constructor
        · rintro (h | h)
          · exact Or.inl h
          · exact Or.inr (Or.inr h)
        · rintro (h | rfl | h)
          · exact Or.inl h
          · exact Or.inl hmem
          · exact Or.inr h
      · rw [if_neg hfirst, List.mem_append, List.mem_singleton, List.mem_cons, or_assoc]

theorem addNew_eq_self {items added : List String} (h : ∀ item ∈ added, item ∈ items) :
    addNew items added = items := by
  unfold addNew
  induction added with
  | nil => rfl
  | cons first rest ih =>
      rw [List.foldl_cons, if_pos (List.contains_iff_mem.mpr (h first List.mem_cons_self))]
      exact ih fun item hitem => h item (List.mem_cons_of_mem _ hitem)

theorem lists_record {manifest : Manifest} {path : String} {assets : List String}
    {other asset : String} :
    (manifest.record path assets).Lists other asset ↔
      manifest.Lists other asset ∨
        other = path ∧ asset ∈ assets ∧ Asset.isPreloadable asset = true := by
  unfold record Lists get?
  split
  · rename_i hempty
    simp [List.isEmpty_iff.mp hempty]
  · simp only [Table.get?_insert]
    by_cases hother : other = path
    · subst hother
      simp only [if_true, Option.some.injEq, exists_eq_left', true_and, mem_addNew,
        List.mem_filter]
      cases manifest.entries.get? other <;> simp
    · simp [hother]

theorem lists_retract {manifest : Manifest} {path : String} {assets : List String}
    {other asset : String} :
    (manifest.retract path assets).Lists other asset ↔
      manifest.Lists other asset ∧ ¬ (other = path ∧ asset ∈ assets) := by
  unfold retract Lists get?
  cases hentry : manifest.entries.get? path with
  | none =>
      have hother : ∀ entry, manifest.entries.get? other = some entry → other ≠ path := by
        rintro entry hsome rfl
        rw [hentry] at hsome
        cases hsome
      constructor
      · rintro ⟨entry, hsome, hmem⟩
        exact ⟨⟨entry, hsome, hmem⟩, fun h => hother entry hsome h.1⟩
      · exact fun h => h.1
  | some entry =>
      simp only [Table.get?_insert]
      by_cases hother : other = path
      · subst hother
        simp [hentry]
      · simp [hother]

theorem lists_remove {manifest : Manifest} {path other asset : String} :
    (manifest.remove path).Lists other asset ↔ manifest.Lists other asset ∧ other ≠ path := by
  unfold remove Lists get?
  simp only [Table.get?_erase]
  by_cases hother : other = path <;> simp [hother]

/-! ## The entry of a module -/

theorem get?_retract {manifest : Manifest} {path : String} {assets : List String}
    {other : String} :
    (manifest.retract path assets).get? other =
      if other = path then
        (manifest.get? path).map fun entry => entry.filter fun asset => !assets.contains asset
      else manifest.get? other := by
  unfold retract get?
  cases hentry : manifest.entries.get? path with
  | none =>
      by_cases hother : other = path
      · rw [if_pos hother, hother, hentry]
        rfl
      · rw [if_neg hother]
  | some entry =>
      rw [Table.get?_insert]
      rfl

theorem get?_remove {manifest : Manifest} {path other : String} :
    (manifest.remove path).get? other = if other = path then none else manifest.get? other :=
  Table.get?_erase _ _ _

/-- A module has an entry. -/
def HasEntry (manifest : Manifest) (path : String) : Prop :=
  ∃ entry, manifest.get? path = some entry

theorem hasEntry_record {manifest : Manifest} {path : String} {assets : List String}
    {other : String} :
    (manifest.record path assets).HasEntry other ↔
      manifest.HasEntry other ∨ other = path ∧ assets ≠ [] := by
  unfold record HasEntry get?
  split
  · rename_i hempty
    simp [List.isEmpty_iff.mp hempty]
  · rename_i hsome
    have hassets : assets ≠ [] := fun h => hsome (List.isEmpty_iff.mpr h)
    simp only [Table.get?_insert]
    by_cases hother : other = path <;> simp [hother, hassets]

theorem isUsingSizeAdjust_record {manifest : Manifest} {path : String} {assets : List String} :
    (manifest.record path assets).isUsingSizeAdjust =
      (manifest.isUsingSizeAdjust || assets.any Asset.isSizeAdjusted) := by
  unfold record
  dsimp only
  split <;> rfl

/-- **To take up assets that are known already changes nothing.** -/
theorem record_eq_self {manifest : Manifest} {path : String} {assets : List String}
    (hadjusted : assets.any Asset.isSizeAdjusted = true → manifest.isUsingSizeAdjust = true)
    (hentry : assets ≠ [] → manifest.HasEntry path)
    (hlisted : ∀ asset ∈ assets, Asset.isPreloadable asset = true →
      manifest.Lists path asset) : manifest.record path assets = manifest := by
  have hflag : (manifest.isUsingSizeAdjust || assets.any Asset.isSizeAdjusted) =
      manifest.isUsingSizeAdjust := by
    cases hany : assets.any Asset.isSizeAdjusted with
    | false => exact Bool.or_false _
    | true => rw [hadjusted hany]; rfl
  unfold record
  dsimp only
  rw [hflag]
  split
  · rfl
  · rename_i hsome
    obtain ⟨entry, hget⟩ := hentry fun h => hsome (List.isEmpty_iff.mpr h)
    have hknown : addNew entry (assets.filter Asset.isPreloadable) = entry := by
      refine addNew_eq_self fun asset hasset => ?_
      obtain ⟨hmem, hpreloadable⟩ := List.mem_filter.mp hasset
      obtain ⟨own, hown, hlists⟩ := hlisted asset hmem hpreloadable
      rw [hget] at hown
      exact Option.some_inj.mp hown ▸ hlists
    have hget : manifest.entries.get? path = some entry := hget
    rw [hget, Option.getD_some, hknown, Table.insert_eq_self hget]

theorem get?_record_of_ne {manifest : Manifest} {path other : String} (hother : other ≠ path)
    (assets : List String) : (manifest.record path assets).get? other = manifest.get? other := by
  unfold record get?
  split
  · rfl
  · exact (Table.get?_insert _ _ _ _).trans (if_neg hother)

/-! ## Neat manifests -/

theorem nodup_addNew {items : List String} (h : items.Nodup) (added : List String) :
    (addNew items added).Nodup := by
  unfold addNew
  induction added generalizing items with
  | nil => exact h
  | cons first rest ih =>
      rw [List.foldl_cons]
      split
      · exact ih h
      · rename_i hnew
        refine ih (List.nodup_append.mpr ⟨h, List.pairwise_singleton _ _, ?_⟩)
        rintro item hitem _ hfirst rfl
        rw [List.mem_singleton.mp hfirst] at hitem
        exact hnew (List.contains_iff_mem.mpr hitem)

theorem get?_record_self {manifest : Manifest} {path : String} {assets : List String} :
    (manifest.record path assets).get? path =
      if assets = [] then manifest.get? path
      else some (addNew ((manifest.get? path).getD []) (assets.filter Asset.isPreloadable)) := by
  unfold record get?
  simp only [List.isEmpty_iff]
  split
  · rfl
  · exact (Table.get?_insert _ _ _ _).trans (if_pos rfl)

/-- A manifest has lost entries, or some of what they list, and nothing else. -/
structure Reduces (before after : Manifest) : Prop where
  flag : after.isUsingSizeAdjust = before.isUsingSizeAdjust
  entries : ∀ path entry, after.get? path = some entry →
    ∃ old, before.get? path = some old ∧ entry.Sublist old

namespace Reduces

variable {before middle after : Manifest}

theorem refl (manifest : Manifest) : Reduces manifest manifest :=
  ⟨rfl, fun _ entry hget => ⟨entry, hget, .refl entry⟩⟩

theorem trans (hfirst : Reduces before middle) (hsecond : Reduces middle after) :
    Reduces before after := by
  refine ⟨hsecond.flag.trans hfirst.flag, fun path entry hget => ?_⟩
  obtain ⟨old, hold, hsub⟩ := hsecond.entries path entry hget
  obtain ⟨older, holder, hsubOlder⟩ := hfirst.entries path old hold
  exact ⟨older, holder, hsub.trans hsubOlder⟩

theorem lists (h : Reduces before after) {path asset : String} (hlisted : after.Lists path asset) :
    before.Lists path asset := by
  obtain ⟨entry, hget, hasset⟩ := hlisted
  obtain ⟨old, hold, hsub⟩ := h.entries path entry hget
  exact ⟨old, hold, hsub.subset hasset⟩

theorem retract (manifest : Manifest) (path : String) (assets : List String) :
    Reduces manifest (manifest.retract path assets) := by
  refine ⟨?_, fun other entry hget => ?_⟩
  · unfold Manifest.retract
    split <;> rfl
  · rw [get?_retract] at hget
    split at hget
    · rename_i hother
      obtain ⟨old, hold, rfl⟩ := Option.map_eq_some_iff.mp hget
      exact ⟨old, hother ▸ hold, List.filter_sublist⟩
    · exact ⟨entry, hget, .refl entry⟩

theorem remove (manifest : Manifest) (path : String) :
    Reduces manifest (manifest.remove path) := by
  refine ⟨rfl, fun other entry hget => ?_⟩
  rw [get?_remove] at hget
  split at hget
  · cases hget
  · exact ⟨entry, hget, .refl entry⟩

end Reduces

/-- The entries have no duplicates, and list files that are to be loaded early. -/
structure Neat (manifest : Manifest) : Prop where
  nodup : ∀ path entry, manifest.get? path = some entry → entry.Nodup
  isPreloadable : ∀ path asset, manifest.Lists path asset → Asset.isPreloadable asset = true

namespace Neat

variable {manifest : Manifest}

theorem empty : Neat Manifest.empty where
  nodup path entry h := by cases h
  isPreloadable path asset h := by obtain ⟨_, h, -⟩ := h; cases h

theorem reduces (h : Neat manifest) {after : Manifest} (hreduces : Reduces manifest after) :
    Neat after where
  nodup path entry hget := by
    obtain ⟨old, hold, hsub⟩ := hreduces.entries path entry hget
    exact hsub.nodup (h.nodup path old hold)
  isPreloadable path asset hlists := h.isPreloadable path asset (hreduces.lists hlists)

theorem record (h : Neat manifest) (path : String) (assets : List String) :
    Neat (manifest.record path assets) where
  nodup other entry hget := by
    by_cases hother : other = path
    · subst hother
      rw [get?_record_self] at hget
      split at hget
      · exact h.nodup other entry hget
      · obtain rfl := Option.some_inj.mp hget
        refine nodup_addNew ?_ _
        cases hold : manifest.get? other with
        | none => exact List.nodup_nil
        | some old => exact h.nodup other old hold
    · rw [get?_record_of_ne hother] at hget
      exact h.nodup other entry hget
  isPreloadable other asset hlists := by
    rcases lists_record.mp hlists with hbefore | ⟨-, -, hpreloadable⟩
    · exact h.isPreloadable other asset hbefore
    · exact hpreloadable

end Neat

/-! ## Hints -/

theorem contains_once {values : List String} {value : String} :
    (Table.ofList (values.map fun value => (value, ()))).contains value = true ↔
      value ∈ values := by
  rw [Table.contains_ofList]
  simp

theorem mem_sortedOnce {values : List String} {value : String} :
    value ∈ sortedOnce values ↔ value ∈ values := by
  refine Iff.trans ?_ contains_once
  rw [sortedOnce, Table.keys, List.mem_map, Table.contains_iff]
  constructor
  · rintro ⟨⟨key, found⟩, hentry, rfl⟩
    exact ⟨found, Table.mem_entries_iff.mp hentry⟩
  · rintro ⟨found, hget⟩
    exact ⟨(value, found), Table.mem_entries_iff.mpr hget, rfl⟩

/-- What is to be loaded early are the public URLs of what is listed. -/
theorem exists_lists_of_mem {manifest : Manifest} {base : Asset.UrlBase} {path url : String}
    {fonts : List String} (h : manifest.preloadableFonts base path = some fonts)
    (hurl : url ∈ fonts) : ∃ asset, manifest.Lists path asset ∧ base.url asset = url := by
  obtain ⟨entry, hentry, rfl⟩ := Option.map_eq_some_iff.mp h
  obtain ⟨asset, hasset, rfl⟩ := List.mem_map.mp (mem_sortedOnce.mp hurl)
  exact ⟨asset, ⟨entry, hentry, hasset⟩, rfl⟩

/-- Every link to a file is that of a public URL. -/
theorem exists_mem_of_mem_preload {manifest : Manifest} {base : Asset.UrlBase} {path : String}
    {link : Preload} (h : link ∈ (manifest.hints base path).preload) :
    ∃ fonts, manifest.preloadableFonts base path = some fonts ∧
      ∃ url ∈ fonts, preloadOf? url = some link := by
  unfold hints at h
  split at h
  · cases h
  · cases h
  · rename_i fonts _ hfonts
    exact ⟨fonts, hfonts, List.mem_filterMap.mp h⟩

theorem href_of_preloadOf? {url : String} {link : Preload} (h : preloadOf? url = some link) :
    link.href = Url.encodePath url := by
  obtain ⟨extension, -, rfl⟩ := Option.map_eq_some_iff.mp h
  rfl

/-- The order and the number of the texts do not matter once they are sorted. -/
theorem sortedOnce_congr {first second : List String}
    (h : ∀ value, value ∈ first ↔ value ∈ second) : sortedOnce first = sortedOnce second := by
  unfold sortedOnce
  refine congrArg Table.keys (Table.ext_get? fun key => Option.ext fun found => ?_)
  have hfound : ∀ table : Table Unit,
      table.get? key = some found ↔ table.contains key = true := by
    intro table
    rw [Table.contains_iff]
    exact ⟨fun hget => ⟨found, hget⟩, fun hget => hget.elim fun _ hother => hother⟩
  rw [hfound, hfound, contains_once, contains_once]
  exact h key

/-- **What the page of a module should load early depends only on whether the module has an
entry and on what is listed under it.** -/
theorem preloadableFonts_congr {first second : Manifest} {path : String}
    (hentry : first.HasEntry path ↔ second.HasEntry path)
    (hlists : ∀ asset, first.Lists path asset ↔ second.Lists path asset)
    (base : Asset.UrlBase) :
    first.preloadableFonts base path = second.preloadableFonts base path := by
  unfold HasEntry at hentry
  unfold Lists at hlists
  unfold preloadableFonts
  cases hfirst : first.get? path with
  | none =>
      cases hsecond : second.get? path with
      | none => rfl
      | some entry =>
          obtain ⟨_, hget⟩ := hentry.mpr ⟨entry, hsecond⟩
          rw [hfirst] at hget
          cases hget
  | some entry =>
      cases hsecond : second.get? path with
      | none =>
          obtain ⟨_, hget⟩ := hentry.mp ⟨entry, hfirst⟩
          rw [hsecond] at hget
          cases hget
      | some other =>
          simp only [hfirst, hsecond, Option.some.injEq, exists_eq_left'] at hlists
          refine congrArg some (sortedOnce_congr fun url => ?_)
          simp only [List.mem_map, hlists]

/-- The texts are in strictly ascending order. -/
theorem pairwise_sortedOnce (values : List String) : (sortedOnce values).Pairwise (· < ·) :=
  List.pairwise_map.mpr (Table.ofList (values.map fun value => (value, ()))).sorted

theorem pairwise_preloadableFonts {manifest : Manifest} {base : Asset.UrlBase} {path : String}
    {fonts : List String} (h : manifest.preloadableFonts base path = some fonts) :
    fonts.Pairwise (· < ·) := by
  obtain ⟨entry, -, rfl⟩ := Option.map_eq_some_iff.mp h
  exact pairwise_sortedOnce _

end FontHosting.Manifest
