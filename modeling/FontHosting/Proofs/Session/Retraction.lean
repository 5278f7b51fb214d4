import FontHosting.Proofs.Manifest
import FontHosting.Proofs.Stylesheet.Collection
import FontHosting.Session.Retraction

/-!
# What retracting stylesheets changes

`retract` and `invalidate` drop the stylesheets of several keys and then take their
files out of the manifest and out of the store.  Both are a `Drop`: the stylesheets and
environments of exactly those keys are gone, and a stored file is gone exactly if a
dropped stylesheet referred to it and no other one does (`drop_retract`,
`drop_invalidate`).

They differ in the manifest.  `lists_invalidate` and `lists_retract` say what each leaves
listed; an asset that a stylesheet of its module still has is never taken away.
-/

namespace FontHosting.Session

open Asset (UrlBase)
open Loader (NamesByContent)
open Stylesheet (Collection Loaded key?)

variable {session : Session}

/-! ## The parts of a retraction -/

theorem mem_staleAssets {collection : Collection} {dropped : Loaded} {asset : String} :
    asset ∈ staleAssets collection dropped ↔
      asset ∈ dropped.assets ∧ ¬ collection.HasAsset dropped.module asset := by
  unfold staleAssets
  rw [List.mem_filter, Bool.not_eq_true', ← Bool.not_eq_true, List.contains_iff_mem,
    List.mem_flatMap]
  refine and_congr_right fun _ => not_congr ?_
  constructor
  · rintro ⟨⟨key, loaded⟩, hmem, hasset⟩
    obtain ⟨hget, hmodule⟩ := Collection.mem_entriesOf.mp hmem
    exact ⟨key, loaded, hget, hmodule, hasset⟩
  · rintro ⟨key, loaded, hget, hmodule, hasset⟩
    exact ⟨(key, loaded), Collection.mem_entriesOf.mpr ⟨hget, hmodule⟩, hasset⟩

theorem lists_retractAssets {dropped : List Loaded} {path asset : String} :
    (session.retractAssets dropped).manifest.Lists path asset ↔
      session.manifest.Lists path asset ∧
        ((∃ loaded ∈ dropped, loaded.module = path ∧ asset ∈ loaded.assets) →
          session.collection.HasAsset path asset) := by
  have hfold : ∀ manifest : Manifest,
      (dropped.foldl (fun manifest loaded =>
        manifest.retract loaded.module (staleAssets session.collection loaded))
        manifest).Lists path asset ↔
      manifest.Lists path asset ∧
        ∀ loaded ∈ dropped, loaded.module = path → asset ∈ loaded.assets →
          session.collection.HasAsset path asset := by
    induction dropped with
    | nil => simp
    | cons first rest ih =>
        intro manifest
        rw [List.foldl_cons, ih, Manifest.lists_retract, mem_staleAssets, List.forall_mem_cons,
          and_assoc]
        refine and_congr_right fun _ => and_congr_left fun _ => ?_
        constructor
        · rintro h rfl hasset
          by_contra hgone
          exact h ⟨rfl, hasset, hgone⟩
        · rintro h ⟨rfl, hasset, hgone⟩
          exact hgone (h rfl hasset)
  unfold retractAssets
  rw [hfold]
  refine and_congr_right fun _ => ?_
  constructor
  · rintro h ⟨loaded, hmem, hmodule, hasset⟩
    exact h loaded hmem hmodule hasset
  · intro h loaded hmem hmodule hasset
    exact h ⟨loaded, hmem, hmodule, hasset⟩

theorem reduces_retractAssets (session : Session) (lost : List Loaded) :
    session.manifest.Reduces (session.retractAssets lost).manifest := by
  have hfold : ∀ manifest : Manifest,
      manifest.Reduces (lost.foldl (fun manifest loaded =>
        manifest.retract loaded.module (staleAssets session.collection loaded)) manifest) := by
    induction lost with
    | nil => exact .refl
    | cons first rest ih =>
        intro manifest
        exact (Manifest.Reduces.retract manifest _ _).trans (ih _)
  exact hfold session.manifest

theorem reduces_retract (session : Session) (module : String) (keys : List String) (all : Bool) :
    session.manifest.Reduces (session.retract module keys all).manifest := by
  unfold retract
  dsimp only
  split
  · exact Manifest.Reduces.remove session.manifest module
  · exact reduces_retractAssets (session.drop keys).1 _

theorem reduces_invalidate (session : Session) (keys : List String) :
    session.manifest.Reduces (session.invalidate keys).manifest :=
  reduces_retractAssets (session.drop keys).1 _

theorem get?_store_releaseUrls {dropped : List Loaded} {url : String} {font : Asset.StoredFont} :
    (session.releaseUrls dropped).collection.store.get? url = some font ↔
      session.collection.store.get? url = some font ∧
        (session.collection.references url = true ∨ ∀ loaded ∈ dropped, url ∉ loaded.urls) := by
  unfold releaseUrls
  simp only [Table.get?_foldl_erase, List.mem_filter, List.mem_flatMap, Bool.not_eq_true']
  by_cases hreferenced : session.collection.references url = true
  · simp [hreferenced]
  · by_cases hdropped : ∃ loaded ∈ dropped, url ∈ loaded.urls
    · rw [if_pos ⟨hdropped, Bool.eq_false_iff.mpr hreferenced⟩]
      obtain ⟨loaded, hmem, hurl⟩ := hdropped
      constructor
      · intro h
        cases h
      · rintro ⟨-, h | h⟩
        · exact absurd h hreferenced
        · exact absurd hurl (h loaded hmem)
    · rw [if_neg fun h => hdropped h.1]
      constructor
      · exact fun h => ⟨h, Or.inr fun loaded hmem hurl => hdropped ⟨loaded, hmem, hurl⟩⟩
      · exact fun h => h.1

/-! ## Dropping several keys -/

/-- The stylesheets of several keys were dropped, and what they alone referred to was taken
out of the store. -/
structure Drop (keys : List String) (before after : Collection) : Prop where
  stylesheets : ∀ key, after.stylesheets.get? key =
    if key ∈ keys then none else before.stylesheets.get? key
  environments : ∀ seen, seen ∈ after.environments ↔ seen ∈ before.environments ∧ seen.1 ∉ keys
  store : ∀ url font, after.store.get? url = some font ↔
    before.store.get? url = some font ∧ (after.references url = true ∨
      ∀ key ∈ keys, ∀ loaded, before.stylesheets.get? key = some loaded → url ∉ loaded.urls)

variable {keys : List String}

/-- Dropping and releasing, with any change of the manifest in between. -/
private theorem drop_releaseUrls (hkeys : ∀ key ∈ keys, key? key = some key)
    (manifest : Manifest) :
    Drop keys session.collection ((Session.mk (session.drop keys).1.collection session.records
      manifest session.isFinished).releaseUrls (session.drop keys).2).collection where
  stylesheets := Collection.get?_removeAll hkeys
  environments _ := Collection.mem_environments_removeAll hkeys
  store url font := by
    rw [get?_store_releaseUrls]
    have hstore : (session.drop keys).1.collection.store = session.collection.store :=
      (Collection.keepsFiles_removeAll keys).store
    have hdropped : (∀ loaded ∈ (session.drop keys).2, url ∉ loaded.urls) ↔
        ∀ key ∈ keys, ∀ loaded, session.collection.stylesheets.get? key = some loaded →
          url ∉ loaded.urls := by
      constructor
      · intro h key hkey loaded hget
        exact h loaded ((Collection.mem_dropped_removeAll hkeys).mpr ⟨key, hkey, hget⟩)
      · intro h loaded hmem
        obtain ⟨key, hkey, hget⟩ := (Collection.mem_dropped_removeAll hkeys).mp hmem
        exact h key hkey loaded hget
    rw [← hstore, ← hdropped]
    rfl

theorem drop_invalidate (hkeys : ∀ key ∈ keys, key? key = some key) :
    Drop keys session.collection (session.invalidate keys).collection :=
  drop_releaseUrls hkeys _

theorem drop_retract (session : Session) (hkeys : ∀ key ∈ keys, key? key = some key)
    (module : String) (all : Bool) :
    Drop keys session.collection (session.retract module keys all).collection := by
  unfold retract
  dsimp only
  split
  · exact drop_releaseUrls hkeys _
  · exact drop_releaseUrls hkeys _

/-- A stylesheet that nobody waits for any more is dropped like this. -/
theorem drop_discard (session : Session) (hkeys : ∀ key ∈ keys, key? key = some key) :
    Drop keys session.collection
      ((session.drop keys).1.releaseUrls (session.drop keys).2).collection :=
  drop_releaseUrls hkeys _

@[simp] theorem records_invalidate : (session.invalidate keys).records = session.records := rfl

@[simp] theorem isFinished_invalidate :
    (session.invalidate keys).isFinished = session.isFinished := rfl

@[simp] theorem records_retract {module : String} {all : Bool} :
    (session.retract module keys all).records = session.records := by
  unfold retract
  dsimp only
  split <;> rfl

@[simp] theorem isFinished_retract {module : String} {all : Bool} :
    (session.retract module keys all).isFinished = session.isFinished := by
  unfold retract
  dsimp only
  split <;> rfl

namespace Drop

variable {before after : Collection}

theorem nil : Drop [] before before where
  stylesheets key := by simp
  environments seen := by simp
  store url font := by simp

theorem get?_eq_some (h : Drop keys before after) {key : String} {loaded : Loaded} :
    after.stylesheets.get? key = some loaded ↔
      before.stylesheets.get? key = some loaded ∧ key ∉ keys := by
  rw [h.stylesheets]
  by_cases hkey : key ∈ keys <;> simp [hkey]

theorem contains (h : Drop keys before after) {key : String} :
    after.stylesheets.contains key = true ↔
      before.stylesheets.contains key = true ∧ key ∉ keys := by
  unfold Table.contains
  rw [h.stylesheets]
  by_cases hkey : key ∈ keys <;> simp [hkey]

/-- What is referred to in the end was referred to before. -/
theorem references (h : Drop keys before after) {url : String}
    (hreferenced : after.references url = true) : before.references url = true := by
  obtain ⟨key, loaded, hget, hurl⟩ := Collection.references_iff.mp hreferenced
  exact Collection.references_iff.mpr ⟨key, loaded, (h.get?_eq_some.mp hget).1, hurl⟩

/-- A file that a stylesheet still refers to stays. -/
theorem contains_store (h : Drop keys before after) {url : String}
    (hreferenced : after.references url = true) (hstored : before.store.contains url = true) :
    after.store.contains url = true := by
  obtain ⟨font, hfont⟩ := Table.contains_iff.mp hstored
  exact Table.contains_iff.mpr ⟨font, (h.store url font).mpr ⟨hfont, Or.inl hreferenced⟩⟩

theorem names (h : Drop keys before after) {base : UrlBase}
    (hnames : NamesByContent base before.store) : NamesByContent base after.store :=
  fun url font hget => hnames url font ((h.store url font).mp hget).1

end Drop

/-! ## The manifest -/

/-- A stylesheet that is about to be dropped has an asset. -/
def Loses (session : Session) (keys : List String) (module asset : String) : Prop :=
  ∃ key ∈ keys, ∃ loaded, session.collection.stylesheets.get? key = some loaded ∧
    loaded.module = module ∧ asset ∈ loaded.assets

theorem loses_iff (hkeys : ∀ key ∈ keys, key? key = some key) {module asset : String} :
    (∃ loaded ∈ (session.drop keys).2, loaded.module = module ∧ asset ∈ loaded.assets) ↔
      session.Loses keys module asset := by
  constructor
  · rintro ⟨loaded, hmem, h⟩
    obtain ⟨key, hkey, hget⟩ := (Collection.mem_dropped_removeAll hkeys).mp hmem
    exact ⟨key, hkey, loaded, hget, h⟩
  · rintro ⟨key, hkey, loaded, hget, h⟩
    exact ⟨loaded, (Collection.mem_dropped_removeAll hkeys).mpr ⟨key, hkey, hget⟩, h⟩

/-- **Invalidation unlists exactly the assets of dropped stylesheets that no stylesheet of
their module has any more.** -/
theorem lists_invalidate (hkeys : ∀ key ∈ keys, key? key = some key) {path asset : String} :
    (session.invalidate keys).manifest.Lists path asset ↔
      session.manifest.Lists path asset ∧
        (session.Loses keys path asset →
          (session.invalidate keys).collection.HasAsset path asset) := by
  rw [← loses_iff hkeys]
  exact lists_retractAssets

/-- The entry of a module is taken away: the module imports nothing, or has no stylesheet. -/
def Clears (session : Session) (module : String) (keys : List String) (all : Bool) : Prop :=
  all = true ∨ ((session.drop keys).1.collection.entriesOf module).isEmpty = true

theorem entriesOf_retract {module other : String} {all : Bool} :
    (session.retract module keys all).collection.entriesOf other =
      (session.drop keys).1.collection.entriesOf other := by
  unfold retract
  dsimp only
  split <;> rfl

theorem not_clears {module asset : String}
    (hasset : (session.retract module keys false).collection.HasAsset module asset) :
    ¬ session.Clears module keys false := by
  obtain ⟨key, loaded, hget, hmodule, -⟩ := hasset
  have hmem := Collection.mem_entriesOf.mpr ⟨hget, hmodule⟩
  rw [entriesOf_retract] at hmem
  rintro (hall | hempty)
  · cases hall
  · rw [List.isEmpty_iff.mp hempty] at hmem
    cases hmem

theorem lists_retract_of_clears {module : String} {all : Bool}
    (hclears : session.Clears module keys all) {path asset : String} :
    (session.retract module keys all).manifest.Lists path asset ↔
      session.manifest.Lists path asset ∧ path ≠ module := by
  unfold retract
  dsimp only
  rw [if_pos (Bool.or_eq_true_iff.mpr hclears)]
  exact Manifest.lists_remove

/-- **Retraction unlists in the same way** from a module whose entry stays. -/
theorem lists_retract (hkeys : ∀ key ∈ keys, key? key = some key) {module : String} {all : Bool}
    (hclears : ¬ session.Clears module keys all) {path asset : String} :
    (session.retract module keys all).manifest.Lists path asset ↔
      session.manifest.Lists path asset ∧
        (session.Loses keys path asset →
          (session.retract module keys all).collection.HasAsset path asset) := by
  rw [← loses_iff hkeys]
  unfold retract
  dsimp only
  rw [if_neg fun h => hclears (Bool.or_eq_true_iff.mp h)]
  exact lists_retractAssets

end FontHosting.Session
