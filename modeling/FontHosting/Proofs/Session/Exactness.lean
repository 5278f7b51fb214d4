import FontHosting.Proofs.Session.Serving

/-!
# Retraction is exact

Four operations drop stylesheets: a module that is transformed again or removed loses
those of the imports it has no more, and a module or a font file that has changed loses
those that depend on it.  `Operation.Drops` says which ones, without looking at how they
are found.

`Exact` is what such an operation does to the rest of a session, and no more than that: a
URL leaves the store exactly if a dropped stylesheet refers to it and no other one does,
and an asset leaves the entry of a module exactly if a dropped stylesheet of the module
has it and no other one of the module has.  Only a module that imports nothing any more,
or has no stylesheet left, may lose its entry as a whole.

The lemmas of `Retraction` describe the parts of an operation by the keys that it drops.
What is added here is the order of an entry (`get?_retractAssets`), and which stylesheets
the keys stand for: a key of an import tells its module (`Filed`), so the keys of a module
are the keys of its stylesheets.
-/

namespace FontHosting.Session

open Stylesheet (BelongsTo Collection Loaded key?)

variable {project : Project} {session before after : Session}
  {dropped : String → Loaded → Prop} {mayEnd : String → Prop}

/-! ## What goes with dropped stylesheets -/

/-- An asset goes with the dropped stylesheets of a module: one of them has it, and none of
those that stay. -/
def Goes (before after : Session) (dropped : String → Loaded → Prop) (path asset : String) : Prop :=
  (∃ key loaded, before.collection.stylesheets.get? key = some loaded ∧ dropped key loaded ∧
    loaded.module = path ∧ asset ∈ loaded.assets) ∧
  ¬ after.collection.HasAsset path asset

open Classical in
/-- The entry of a module loses exactly the assets that go, and keeps the others in order. -/
def Unlists (before after : Session) (dropped : String → Loaded → Prop) (path : String) : Prop :=
  after.manifest.get? path = (before.manifest.get? path).map fun entry =>
    entry.filter fun asset => !decide (Goes before after dropped path asset)

/-- Some stylesheets were dropped, and nothing else was done than what that requires. -/
structure Exact (before after : Session) (dropped : String → Loaded → Prop)
    (mayEnd : String → Prop) : Prop where
  stylesheets : ∀ key loaded, after.collection.stylesheets.get? key = some loaded ↔
    before.collection.stylesheets.get? key = some loaded ∧ ¬ dropped key loaded
  released : ∀ url,
    (before.collection.store.contains url = true ∧ ¬ after.collection.store.contains url = true) ↔
      (∃ key loaded, before.collection.stylesheets.get? key = some loaded ∧ dropped key loaded ∧
        url ∈ loaded.urls) ∧
      ¬ ∃ key loaded, after.collection.stylesheets.get? key = some loaded ∧ url ∈ loaded.urls
  stored : ∀ url, after.collection.store.contains url = true →
    before.collection.store.contains url = true
  entries : ∀ path, Unlists before after dropped path ∨
    mayEnd path ∧ after.manifest.get? path = none ∧
      ∀ key loaded, after.collection.stylesheets.get? key = some loaded → loaded.module ≠ path

open Classical in
/-- The imports are the ones that were recorded before, and exactly those whose stylesheet was
dropped are marked as waiting. -/
def Waits (before after : Session) (dropped : String → Loaded → Prop) : Prop :=
  ∀ module, after.records.get? module = (before.records.get? module).map fun records =>
    records.map fun record => { record with
      isResolved := record.isResolved && !decide (∃ loaded,
        before.collection.stylesheets.get? record.key = some loaded ∧ dropped record.key loaded) }

/-- An entry of a module of which nothing was dropped has lost exactly what it should if it is
as it was. -/
theorem unlists_iff_of_spared {path : String}
    (hspared : ∀ key loaded, before.collection.stylesheets.get? key = some loaded →
      dropped key loaded → loaded.module ≠ path) :
    Unlists before after dropped path ↔
      after.manifest.get? path = before.manifest.get? path := by
  have hstays : ∀ asset, ¬ Goes before after dropped path asset := by
    intro asset hgoes
    obtain ⟨⟨key, loaded, hget, hdropped, hmodule, -⟩, -⟩ := hgoes
    exact hspared key loaded hget hdropped hmodule
  unfold Unlists
  cases before.manifest.get? path with
  | none => rfl
  | some entry => simp [hstays]

/-! ## The entries of the manifest -/

open Classical in
/-- Taking the assets of dropped stylesheets out of an entry keeps the others in order. -/
theorem get?_retractAssets (session : Session) (lost : List Loaded) {path : String}
    {gone : String → Prop}
    (hgone : ∀ asset, gone asset ↔
      (∃ loaded ∈ lost, loaded.module = path ∧ asset ∈ loaded.assets) ∧
        ¬ session.collection.HasAsset path asset) :
    (session.retractAssets lost).manifest.get? path =
      (session.manifest.get? path).map fun entry => entry.filter fun asset =>
        !decide (gone asset) := by
  have hfold : ∀ manifest : Manifest,
      (lost.foldl (fun manifest loaded =>
        manifest.retract loaded.module (staleAssets session.collection loaded))
        manifest).get? path =
      (manifest.get? path).map fun entry => entry.filter fun asset => !decide (gone asset) := by
    induction lost generalizing gone with
    | nil =>
        intro manifest
        have hstays : ∀ asset, ¬ gone asset := by
          intro asset hlost
          obtain ⟨⟨_, hmem, -⟩, -⟩ := (hgone asset).mp hlost
          cases hmem
        rw [List.foldl_nil]
        cases manifest.get? path with
        | none => rfl
        | some entry => simp [hstays]
    | cons first rest ih =>
        intro manifest
        rw [List.foldl_cons, ih (fun asset => Iff.rfl), Manifest.get?_retract]
        by_cases hpath : path = first.module
        · rw [if_pos hpath, ← hpath, Option.map_map]
          refine congrArg (Option.map · _) (funext fun entry => ?_)
          rw [Function.comp_apply, List.filter_filter]
          refine List.filter_congr fun asset _ => ?_
          rw [Bool.eq_iff_iff]
          simp only [Bool.and_eq_true, Bool.not_eq_true', ← Bool.not_eq_true, decide_eq_true_iff,
            List.contains_iff_mem, mem_staleAssets, ← hpath, hgone, List.mem_cons,
            exists_eq_or_imp]
          rw [true_and, or_and_right, not_or]
          exact and_comm
        · rw [if_neg hpath]
          refine congrArg (Option.map · _) (funext fun entry => ?_)
          refine List.filter_congr fun asset _ => ?_
          have hfirst : ¬ (first.module = path ∧ asset ∈ first.assets) :=
            fun h => hpath h.1.symm
          refine congrArg (! ·) (decide_eq_decide.mpr ?_)
          rw [hgone]
          simp only [List.mem_cons, exists_eq_or_imp, hfirst, false_or]
  exact hfold session.manifest

/-- What the keys that are dropped stand for. -/
structure Denotes (before : Session) (keys : List String) (dropped : String → Loaded → Prop) :
    Prop where
  isKey : ∀ key ∈ keys, key? key = some key
  mem_iff : ∀ key loaded, before.collection.stylesheets.get? key = some loaded →
    (key ∈ keys ↔ dropped key loaded)

theorem Denotes.loses_iff {keys : List String} (h : Denotes before keys dropped)
    {path asset : String} :
    (∃ loaded ∈ (before.drop keys).2, loaded.module = path ∧ asset ∈ loaded.assets) ↔
      ∃ key loaded, before.collection.stylesheets.get? key = some loaded ∧ dropped key loaded ∧
        loaded.module = path ∧ asset ∈ loaded.assets := by
  constructor
  · intro hlost
    obtain ⟨key, hkey, loaded, hget, hown⟩ := (Session.loses_iff h.isKey).mp hlost
    exact ⟨key, loaded, hget, (h.mem_iff key loaded hget).mp hkey, hown⟩
  · intro hlost
    obtain ⟨key, loaded, hget, hdropped, hown⟩ := hlost
    exact (Session.loses_iff h.isKey).mpr
      ⟨key, (h.mem_iff key loaded hget).mpr hdropped, loaded, hget, hown⟩

theorem unlists_invalidate {keys : List String} (h : Denotes session keys dropped)
    (path : String) : Unlists session (session.invalidate keys) dropped path := by
  refine get?_retractAssets (session.drop keys).1 (session.drop keys).2 fun asset => ?_
  rw [h.loses_iff]
  rfl

theorem unlists_retract {keys : List String} {module : String} {all : Bool}
    (h : Denotes session keys dropped) (hclears : ¬ session.Clears module keys all)
    (path : String) : Unlists session (session.retract module keys all) dropped path := by
  unfold retract
  dsimp only
  rw [if_neg fun hcleared => hclears (Bool.or_eq_true_iff.mp hcleared)]
  refine get?_retractAssets (session.drop keys).1 (session.drop keys).2 fun asset => ?_
  rw [h.loses_iff]
  rfl

theorem get?_manifest_retract_of_clears {keys : List String} {module : String} {all : Bool}
    (hclears : session.Clears module keys all) (path : String) :
    (session.retract module keys all).manifest.get? path =
      if path = module then none else session.manifest.get? path := by
  unfold retract
  dsimp only
  rw [if_pos (Bool.or_eq_true_iff.mpr hclears)]
  exact Manifest.get?_remove

/-! ## Dropping several keys -/

namespace Exact

/-- Dropping the keys of stylesheets is exact as far as the collection goes. -/
theorem of_drop {keys : List String} (hserved : Served project before)
    (hdenotes : Denotes before keys dropped)
    (hdrop : Drop keys before.collection after.collection)
    (hentries : ∀ path, Unlists before after dropped path ∨
      mayEnd path ∧ after.manifest.get? path = none ∧
        ∀ key loaded, after.collection.stylesheets.get? key = some loaded →
          loaded.module ≠ path) :
    Exact before after dropped mayEnd := by
  refine ⟨fun key loaded => ?_, fun url => ?_, fun url hurl => ?_, hentries⟩
  · rw [hdrop.get?_eq_some]
    exact and_congr_right fun hget => not_congr (hdenotes.mem_iff key loaded hget)
  · constructor
    · intro hgone
      obtain ⟨hbefore, hafter⟩ := hgone
      obtain ⟨font, hfont⟩ := Table.contains_iff.mp hbefore
      have hnot : ¬ (after.collection.references url = true ∨ ∀ key ∈ keys, ∀ loaded,
          before.collection.stylesheets.get? key = some loaded → url ∉ loaded.urls) := by
        intro hkept
        exact hafter (Table.contains_iff.mpr ⟨font, (hdrop.store url font).mpr ⟨hfont, hkept⟩⟩)
      obtain ⟨hunreferenced, hdropped⟩ := not_or.mp hnot
      push Not at hdropped
      obtain ⟨key, hkey, loaded, hget, hown⟩ := hdropped
      refine ⟨⟨key, loaded, hget, (hdenotes.mem_iff key loaded hget).mp hkey, hown⟩, ?_⟩
      rwa [← Collection.references_iff]
    · intro hreleased
      obtain ⟨⟨key, loaded, hget, hdropped, hown⟩, hunreferenced⟩ := hreleased
      have hreferenced := Collection.references_iff.mpr ⟨key, loaded, hget, hown⟩
      refine ⟨hserved.stored url hreferenced, fun hafter => ?_⟩
      obtain ⟨font, hfont⟩ := Table.contains_iff.mp hafter
      obtain ⟨-, hkept⟩ := (hdrop.store url font).mp hfont
      rcases hkept with hkept | hspared
      · exact hunreferenced (Collection.references_iff.mp hkept)
      · exact hspared key ((hdenotes.mem_iff key loaded hget).mpr hdropped) loaded hget hown
  · obtain ⟨font, hfont⟩ := Table.contains_iff.mp hurl
    exact Table.contains_iff.mpr ⟨font, ((hdrop.store url font).mp hfont).1⟩

/-- Records and the mark of a finished session do not matter. -/
theorem congr {first second : Session} (h : Exact before after dropped mayEnd)
    (hbefore : first.collection = before.collection)
    (hlisted : first.manifest = before.manifest)
    (hafter : second.collection = after.collection)
    (hmanifest : second.manifest = after.manifest) : Exact first second dropped mayEnd := by
  obtain ⟨⟩ := first
  obtain ⟨⟩ := second
  cases hbefore
  cases hlisted
  cases hafter
  cases hmanifest
  exact ⟨h.stylesheets, h.released, h.stored, h.entries⟩

theorem settle {α : Type} (h : Exact before after dropped mayEnd) (answer : α) :
    Exact before (after.settle answer).session dropped mayEnd := by
  unfold Session.settle
  split
  · exact h.congr rfl rfl rfl rfl
  · exact h

/-- An operation that changes nothing has dropped nothing. -/
theorem refl (hnone : ∀ key loaded, session.collection.stylesheets.get? key = some loaded →
    ¬ dropped key loaded) : Exact session session dropped mayEnd := by
  refine ⟨fun key loaded => ?_, fun url => ?_, fun _ hurl => hurl, fun path => ?_⟩
  · exact (and_iff_left_of_imp (hnone key loaded)).symm
  · constructor
    · intro hgone
      exact absurd hgone.1 hgone.2
    · intro hreleased
      obtain ⟨⟨key, loaded, hget, hdropped, -⟩, -⟩ := hreleased
      exact absurd hdropped (hnone key loaded hget)
  · refine Or.inl ((unlists_iff_of_spared fun key loaded hget hdropped => ?_).mpr rfl)
    exact absurd hdropped (hnone key loaded hget)

theorem invalidate {keys : List String} (hserved : Served project session)
    (hdenotes : Denotes session keys dropped) :
    Exact session (session.invalidate keys) dropped mayEnd :=
  of_drop hserved hdenotes (drop_invalidate hdenotes.isKey)
    fun path => Or.inl (unlists_invalidate hdenotes path)

/-! ## Modules -/

section
variable {module : String} {specifiers : List String}

/-- The stylesheets of the imports that ended. -/
theorem denotes_ended (hfiled : Filed session) (module : String) (specifiers : List String) :
    Denotes session ((session.ended module specifiers).map Record.key)
      fun key loaded => loaded.module = module ∧
        ∀ specifier ∈ specifiers, key? specifier ≠ some key := by
  have hcurrent : ∀ key, (∀ other ∈ session.currentImports specifiers, other.key ≠ key) ↔
      ∀ specifier ∈ specifiers, key? specifier ≠ some key := by
    intro key
    constructor
    · intro h specifier hspecifier hkey
      exact h _ (mem_currentImports.mpr ⟨specifier, hspecifier, key, hkey, rfl⟩) rfl
    · intro h other hother hkey
      obtain ⟨specifier, hspecifier, own, hown, rfl⟩ := mem_currentImports.mp hother
      exact h specifier hspecifier (hkey ▸ hown)
  constructor
  · intro key hkey
    obtain ⟨record, hrecord, rfl⟩ := List.mem_map.mp hkey
    exact hfiled.isKey (mem_ended.mp hrecord).1
  · intro key loaded hget
    rw [← hcurrent, List.mem_map]
    constructor
    · intro hended
      obtain ⟨record, hrecord, rfl⟩ := hended
      obtain ⟨hhas, hgone⟩ := mem_ended.mp hrecord
      exact ⟨(hfiled.belongsTo hget).unique (hfiled.belongs module record hhas), hgone⟩
    · intro hlost
      obtain ⟨rfl, hgone⟩ := hlost
      obtain ⟨record, hhas, rfl⟩ := hfiled.recorded key loaded hget
      exact ⟨record, mem_ended.mpr ⟨hhas, hgone⟩, rfl⟩

/-- A module whose entry is taken away has no stylesheet left. -/
theorem notMem_of_clears (hafter : Filed (session.replaceImports module specifiers))
    (hclears : (session.openModule module specifiers).Clears module
      ((session.ended module specifiers).map Record.key)
      (session.currentImports specifiers).isEmpty)
    (hended : ¬ ((session.ended module specifiers).isEmpty &&
      !(session.currentImports specifiers).isEmpty) = true) {key : String} {loaded : Loaded}
    (hget : (session.replaceImports module specifiers).collection.stylesheets.get? key =
      some loaded) : loaded.module ≠ module := by
  intro hmodule
  rcases hclears with hall | hempty
  · obtain ⟨record, hrecord, -⟩ := hafter.recorded key loaded hget
    rw [hasRecord_replaceImports, if_pos hmodule, List.isEmpty_iff.mp hall] at hrecord
    cases hrecord
  · have hmem := Collection.mem_entriesOf.mpr ⟨hget, hmodule⟩
    rw [collection_replaceImports] at hmem
    unfold retractEnded at hmem
    dsimp only at hmem
    rw [if_neg hended, entriesOf_retract, List.isEmpty_iff.mp hempty] at hmem
    cases hmem

/-- **Replacing the imports of a module drops the stylesheets of those it has no more**, and
does so exactly. -/
theorem replaceImports (hserved : Served project session) (hfiled : Filed session)
    (hafter : Filed (session.replaceImports module specifiers)) :
    Exact session (session.replaceImports module specifiers)
      (fun key loaded => loaded.module = module ∧
        ∀ specifier ∈ specifiers, key? specifier ≠ some key) (· = module) := by
  have hdenotes := denotes_ended hfiled module specifiers
  have hkeys : ∀ record, session.HasRecord module record → key? record.key = some record.key :=
    fun record hrecord => hfiled.isKey hrecord
  have hdrop := drop_replaceImports hkeys specifiers
  refine of_drop hserved hdenotes hdrop fun path => ?_
  have hentry : (session.replaceImports module specifiers).manifest.get? path =
      (session.retractEnded module specifiers).manifest.get? path := by
    rw [manifest_replaceImports]
  by_cases hended : ((session.ended module specifiers).isEmpty &&
      !(session.currentImports specifiers).isEmpty) = true
  · -- No import has ended, so no stylesheet is dropped.
    refine Or.inl ((unlists_iff_of_spared fun key loaded hget hlost => ?_).mpr ?_)
    · have hkey := (hdenotes.mem_iff key loaded hget).mpr hlost
      rw [List.isEmpty_iff.mp (Bool.and_eq_true_iff.mp hended).1] at hkey
      cases hkey
    · rw [hentry]
      unfold retractEnded
      dsimp only
      rw [if_pos hended]
      rfl
  · by_cases hclears : (session.openModule module specifiers).Clears module
        ((session.ended module specifiers).map Record.key)
        (session.currentImports specifiers).isEmpty
    · have hcleared : (session.replaceImports module specifiers).manifest.get? path =
          if path = module then none else session.manifest.get? path := by
        rw [hentry]
        unfold retractEnded
        dsimp only
        rw [if_neg hended]
        exact get?_manifest_retract_of_clears hclears path
      by_cases hpath : path = module
      · rw [if_pos hpath] at hcleared
        refine Or.inr ⟨hpath, hcleared, fun key loaded hget => ?_⟩
        rw [hpath]
        exact notMem_of_clears hafter hclears hended hget
      · rw [if_neg hpath] at hcleared
        refine Or.inl ((unlists_iff_of_spared fun key loaded _ hlost hmodule => ?_).mpr hcleared)
        exact hpath (hmodule.symm.trans hlost.1)
    · have hopen : Denotes (session.openModule module specifiers)
          ((session.ended module specifiers).map Record.key)
          (fun key loaded => loaded.module = module ∧
            ∀ specifier ∈ specifiers, key? specifier ≠ some key) :=
        ⟨hdenotes.isKey, hdenotes.mem_iff⟩
      have hunlists := unlists_retract hopen hclears path
      have hretract : session.retractEnded module specifiers =
          (session.openModule module specifiers).retract module
            ((session.ended module specifiers).map Record.key)
            (session.currentImports specifiers).isEmpty := by
        unfold retractEnded
        dsimp only
        rw [if_neg hended]
      refine Or.inl ?_
      unfold Unlists Goes at hunlists ⊢
      rw [hentry, collection_replaceImports, hretract]
      exact hunlists

theorem recordImports (hserved : Served project session) (hfiled : Filed session)
    (hspecifiers : ∀ specifier ∈ specifiers, ∀ key, key? specifier = some key →
      BelongsTo key module) :
    Exact session (session.recordImports module specifiers).session
      (fun key loaded => loaded.module = module ∧
        ∀ specifier ∈ specifiers, key? specifier ≠ some key) (· = module) := by
  rw [recordImports_eq]
  exact (replaceImports hserved hfiled (hfiled.replaceImports hspecifiers)).settle _

end

/-! ## Changed files -/

/-- The keys of the imports of a module stand for the stylesheets of the module. -/
theorem denotes_imports (hfiled : Filed session) {module : String} {records : List Record}
    (hget : session.records.get? module = some records) :
    Denotes session (records.map Record.key) fun _ loaded => loaded.module = module := by
  constructor
  · intro key hkey
    obtain ⟨record, hrecord, rfl⟩ := List.mem_map.mp hkey
    exact hfiled.isKey ⟨records, hget, hrecord⟩
  · intro key loaded hloaded
    constructor
    · intro hkey
      obtain ⟨record, hrecord, rfl⟩ := List.mem_map.mp hkey
      have hbelongs := hfiled.belongs module record ⟨records, hget, hrecord⟩
      exact (hfiled.belongsTo hloaded).unique hbelongs
    · intro hmodule
      obtain ⟨record, hhas, rfl⟩ := hfiled.recorded key loaded hloaded
      obtain ⟨own, hown, hrecord⟩ := hhas
      rw [hmodule, hget] at hown
      exact List.mem_map_of_mem (Option.some_inj.mp hown ▸ hrecord)

/-- A module without imports has no stylesheets. -/
theorem module_ne_of_no_imports (hfiled : Filed session) {module : String}
    (hget : session.records.get? module = none) {key : String} {loaded : Loaded}
    (hloaded : session.collection.stylesheets.get? key = some loaded) :
    loaded.module ≠ module := by
  intro hmodule
  obtain ⟨record, ⟨records, hown, -⟩, -⟩ := hfiled.recorded key loaded hloaded
  rw [hmodule, hget] at hown
  cases hown

/-- The keys of the stylesheets that were made from a file. -/
theorem denotes_keysUsing (hfiled : Filed session) (file : String) :
    Denotes session (session.collection.keysUsing file) fun _ loaded =>
      (loaded.fontFiles.any fun used => Text.Path.same used file) = true := by
  constructor
  · intro key hkey
    obtain ⟨loaded, hget, -⟩ := Collection.mem_keysUsing.mp hkey
    exact (hfiled.belongsTo hget).isKey
  · intro key loaded hget
    rw [Collection.mem_keysUsing, hget]
    simp only [Option.some.injEq, exists_eq_left']

theorem invalidateModule (hserved : Served project session) (hfiled : Filed session)
    (id : String) :
    Exact session (session.invalidateModule project id).1
      (fun _ loaded => loaded.module = project.moduleId id) mayEnd := by
  rcases invalidateModule_eq project session id with ⟨hnone, hsame⟩ | ⟨records, hget, hchanged⟩
  · rw [hsame]
    exact refl fun key loaded hloaded => module_ne_of_no_imports hfiled hnone hloaded
  · rw [hchanged]
    have hdenotes := denotes_imports hfiled hget
    refine congr (invalidate (hserved.congr rfl rfl rfl) ?_) rfl rfl rfl rfl
    exact ⟨hdenotes.isKey, hdenotes.mem_iff⟩

theorem invalidateFontFile (hserved : Served project session) (hfiled : Filed session)
    (file : String) :
    Exact session (session.invalidateFontFile file).1
      (fun _ loaded => (loaded.fontFiles.any fun used => Text.Path.same used file) = true)
      mayEnd := by
  have hdenotes := denotes_keysUsing hfiled file
  rcases invalidateFontFile_eq session file with ⟨hnone, hsame⟩ | ⟨-, hchanged⟩
  · rw [hsame]
    refine refl fun key loaded hloaded hused => ?_
    have hkey := (hdenotes.mem_iff key loaded hloaded).mpr hused
    rw [hnone] at hkey
    cases hkey
  · rw [hchanged]
    refine congr (invalidate (hserved.congr rfl rfl rfl) ?_) rfl rfl rfl rfl
    exact ⟨hdenotes.isKey, hdenotes.mem_iff⟩

end Exact

/-! ## Imports that wait -/

/-- A module that has an import afterwards had one before. -/
theorem Waits.hasRecord (h : Waits before after dropped) {module : String} {record : Record}
    (hrecord : after.HasRecord module record) : ∃ old, before.HasRecord module old := by
  obtain ⟨records, hget, hmem⟩ := hrecord
  rw [h module] at hget
  obtain ⟨old, hold, rfl⟩ := Option.map_eq_some_iff.mp hget
  obtain ⟨first, hfirst, -⟩ := List.mem_map.mp hmem
  exact ⟨first, old, hold, hfirst⟩

theorem waits_of_eq (hnone : ∀ key loaded, before.collection.stylesheets.get? key = some loaded →
    ¬ dropped key loaded) (hsame : after.records = before.records) :
    Waits before after dropped := by
  intro module
  rw [hsame]
  have hstays : ∀ record : Record, ¬ ∃ loaded,
      before.collection.stylesheets.get? record.key = some loaded ∧
        dropped record.key loaded := by
    intro record hlost
    obtain ⟨loaded, hget, hdropped⟩ := hlost
    exact hnone record.key loaded hget hdropped
  cases before.records.get? module with
  | none => rfl
  | some records => simp [hstays]

/-- An import of a module that is spared does not lose its stylesheet. -/
theorem not_lost_of_spared (hfiled : Filed session) {module : String}
    (hspared : ∀ key loaded, session.collection.stylesheets.get? key = some loaded →
      dropped key loaded → loaded.module ≠ module) {record : Record}
    (hrecord : session.HasRecord module record) :
    ¬ ∃ loaded, session.collection.stylesheets.get? record.key = some loaded ∧
      dropped record.key loaded := by
  intro hlost
  obtain ⟨loaded, hloaded, hdropped⟩ := hlost
  have hmodule := (hfiled.belongsTo hloaded).unique (hfiled.belongs module record hrecord)
  exact hspared record.key loaded hloaded hdropped hmodule

theorem waits_invalidateModule (hfiled : Filed session) (id : String) :
    Waits session (session.invalidateModule project id).1
      fun _ loaded => loaded.module = project.moduleId id := by
  rcases invalidateModule_eq project session id with ⟨hnone, hsame⟩ | ⟨records, hget, hchanged⟩
  · rw [hsame]
    exact waits_of_eq (fun _ _ hloaded => Exact.module_ne_of_no_imports hfiled hnone hloaded) rfl
  · rw [hchanged]
    intro module
    rw [records_invalidate]
    unfold reopenModule
    dsimp only
    rw [Table.get?_insert]
    by_cases hmodule : module = project.moduleId id
    · rw [if_pos hmodule, hmodule, hget, Option.map_some, Option.some_inj]
      refine List.map_congr_left fun record hrecord => ?_
      have hhas : session.HasRecord (project.moduleId id) record := ⟨records, hget, hrecord⟩
      -- An import that is marked has a stylesheet, and that one belongs to the module.
      cases hresolved : record.isResolved with
      | false => rfl
      | true =>
          obtain ⟨loaded, hloaded⟩ :=
            Table.contains_iff.mp ((hfiled.resolved _ record hhas).mp hresolved)
          have hown := (hfiled.belongsTo hloaded).unique (hfiled.belongs _ record hhas)
          simp [hloaded, hown]
    · rw [if_neg hmodule]
      cases hother : session.records.get? module with
      | none => rfl
      | some others =>
          rw [Option.map_some, Option.some_inj]
          have hspared : ∀ key loaded, session.collection.stylesheets.get? key = some loaded →
              loaded.module = project.moduleId id → loaded.module ≠ module :=
            fun key loaded _ hdropped hown => hmodule (hown.symm.trans hdropped)
          refine (List.map_id others).symm.trans (List.map_congr_left fun record hrecord => ?_)
          have hkept := not_lost_of_spared hfiled hspared ⟨others, hother, hrecord⟩
          simp [hkept]

theorem waits_invalidateFontFile (hfiled : Filed session) (file : String) :
    Waits session (session.invalidateFontFile file).1
      fun _ loaded => (loaded.fontFiles.any fun used => Text.Path.same used file) = true := by
  rcases invalidateFontFile_eq session file with ⟨hnone, hsame⟩ | ⟨-, hchanged⟩
  · rw [hsame]
    refine waits_of_eq (fun key loaded hloaded hused => ?_) rfl
    have hkey := ((Exact.denotes_keysUsing hfiled file).mem_iff key loaded hloaded).mpr hused
    rw [hnone] at hkey
    cases hkey
  · rw [hchanged]
    intro module
    rw [records_invalidate]
    unfold reopen
    dsimp only
    rw [get?_records_mark]
    refine congrArg (Option.map · _) (funext fun records => ?_)
    refine List.map_congr_left fun record _ => ?_
    by_cases hkey : record.key ∈ session.collection.keysUsing file
    · have hused := Collection.mem_keysUsing.mp hkey
      rw [if_pos (List.contains_iff_mem.mpr hkey)]
      simp only [hused, decide_true, Bool.not_true, Bool.and_false]
    · have hused := mt Collection.mem_keysUsing.mpr hkey
      rw [if_neg fun h => hkey (List.contains_iff_mem.mp h)]
      simp only [hused, decide_false, Bool.not_false, Bool.and_true]

/-! ## Only scripts import -/

/-- Whatever a request comes to, it records no import. -/
theorem hasRecord_of_load (hregular : project.Regular) {world : Loader.World}
    {request : Stylesheet.Request} {module : String} {record : Record}
    (hrecord : (session.load project world request).session.HasRecord module record) :
    ∃ old, session.HasRecord module old := by
  rcases load_cases hregular.confined world session request with ⟨collection, answer, -, hload⟩ |
    ⟨key, loaded, collection, answer, -, hload⟩
  · rw [hload] at hrecord
    exact ⟨record, hrecord⟩
  · rw [hload] at hrecord
    by_cases himported : ({ session with collection }).isImported key = true
    · rw [receive_of_isImported himported] at hrecord
      have hmarked : (({ session with collection }).mark true [key]).HasRecord module record := by
        unfold Session.settle at hrecord
        split at hrecord <;> exact hrecord
      obtain ⟨old, hold, -⟩ := hasRecord_mark.mp hmarked
      exact ⟨old, hold⟩
    · rw [receive_of_not_isImported himported] at hrecord
      exact ⟨record, hrecord⟩

theorem hasRecord_of_recordImports {module other : String} {specifiers : List String}
    {record : Record}
    (hrecord : (session.recordImports module specifiers).session.HasRecord other record) :
    (other = module ∧ specifiers ≠ []) ∨ session.HasRecord other record := by
  rw [recordImports_eq] at hrecord
  have hreplaced : (session.replaceImports module specifiers).HasRecord other record := by
    unfold Session.settle at hrecord
    split at hrecord <;> exact hrecord
  rw [hasRecord_replaceImports] at hreplaced
  split at hreplaced
  · rename_i hother
    refine Or.inl ⟨hother, fun hnone => ?_⟩
    rw [hnone] at hreplaced
    cases hreplaced
  · exact Or.inr hreplaced

/-- **Only scripts have imports**, so a file that is no script never has a stylesheet. -/
theorem Reachable.isScript (hregular : project.Regular) (hreachable : Reachable project session)
    {module : String} {record : Record} (hrecord : session.HasRecord module record) :
    isScript module = true := by
  induction hreachable generalizing module record with
  | new =>
      obtain ⟨records, hget, -⟩ := hrecord
      cases hget
  | @step session operation hbefore hplain ih =>
      have hfiled := hbefore.filed hregular
      cases operation with
      | transform id source =>
          simp only [Session.perform] at hrecord
          rcases transform_answers hregular session id source with ⟨-, hsame⟩ |
            ⟨refusal, hsame⟩ | ⟨hscript, transformed?, -, hrecorded⟩
          · rw [hsame] at hrecord
            exact ih hrecord
          · rw [hsame] at hrecord
            exact ih hrecord
          · rw [hrecorded] at hrecord
            rcases hasRecord_of_recordImports hrecord with ⟨hmodule, -⟩ | hold
            · exact hmodule ▸ hscript
            · exact ih hold
      | load world request =>
          obtain ⟨old, hold⟩ := hasRecord_of_load hregular hrecord
          exact ih hold
      | invalidateModule id =>
          have hwaits : Waits session (session.invalidateModule project id).1 _ :=
            waits_invalidateModule hfiled id
          obtain ⟨old, hold⟩ := hwaits.hasRecord hrecord
          exact ih hold
      | invalidateFontFile file =>
          have hwaits := waits_invalidateFontFile hfiled file
          obtain ⟨old, hold⟩ := hwaits.hasRecord hrecord
          exact ih hold
      | removeModule id =>
          rcases hasRecord_of_recordImports hrecord with ⟨-, hnone⟩ | hold
          · exact absurd rfl hnone
          · exact ih hold
      | reset =>
          obtain ⟨records, hget, -⟩ := hrecord
          cases hget

/-! ## Every operation that retracts -/

/-- The operations that drop stylesheets one by one. -/
def Operation.retracts : Operation → Bool
  | .transform .. | .removeModule _ | .invalidateModule _ | .invalidateFontFile _ => true
  | .load .. | .reset => false

/-- The operations after which imports wait for new stylesheets. -/
def Operation.invalidates : Operation → Bool
  | .invalidateModule _ | .invalidateFontFile _ => true
  | .transform .. | .removeModule _ | .load .. | .reset => false

/-- The stylesheets that an operation drops: those of imports that a transformed module has no
more, those of a module that was removed or has changed, those made from a file that has
changed. -/
def Operation.Drops (project : Project) (session : Session) :
    Operation → String → Loaded → Prop
  | .transform id source, key, loaded => ∃ transformed?,
      (session.transform project id source).answer = .ok transformed? ∧
        loaded.module = project.moduleId id ∧
        ∀ specifier ∈ importsOf transformed?, key? specifier ≠ some key
  | .removeModule id, _, loaded | .invalidateModule id, _, loaded =>
      loaded.module = project.moduleId id
  | .invalidateFontFile file, _, loaded =>
      (loaded.fontFiles.any fun used => Text.Path.same used file) = true
  | .load .., _, _ => False
  | .reset, _, _ => True

/-- The module whose entry in the manifest an operation may take away as a whole. -/
def Operation.MayEnd (project : Project) : Operation → String → Prop
  | .transform id _, path | .removeModule id, path => path = project.moduleId id
  | .load .., _ | .invalidateModule _, _ | .invalidateFontFile _, _ | .reset, _ => False

theorem exact_transform (hregular : project.Regular) (hreachable : Reachable project session)
    (id source : String) :
    Exact session (session.transform project id source).session
      ((Operation.transform id source).Drops project session)
      ((Operation.transform id source).MayEnd project) := by
  have hfiled := hreachable.filed hregular
  have hserved := hreachable.served hregular
  rcases transform_answers hregular session id source with ⟨hscript, hsame⟩ |
    ⟨refusal, hsame⟩ | ⟨-, transformed?, hspecifiers, hrecorded⟩
  · rw [hsame]
    refine Exact.refl fun key loaded hget hdropped => ?_
    obtain ⟨_, -, hmodule, -⟩ := hdropped
    obtain ⟨record, hrecord, -⟩ := hfiled.recorded key loaded hget
    rw [← hmodule, hreachable.isScript hregular hrecord] at hscript
    cases hscript
  · rw [hsame]
    refine Exact.refl fun key loaded _ hdropped => ?_
    obtain ⟨_, hanswer, -⟩ := hdropped
    rw [hsame] at hanswer
    cases hanswer
  · have hexact := Exact.recordImports hserved hfiled hspecifiers
    have hdrops : (Operation.transform id source).Drops project session =
        fun key loaded => loaded.module = project.moduleId id ∧
          ∀ specifier ∈ importsOf transformed?, key? specifier ≠ some key := by
      funext key loaded
      simp only [Operation.Drops, hrecorded, Except.ok.injEq, exists_eq_left']
    rw [hdrops, hrecorded]
    exact hexact

/-- **Retraction is exact.**  A module that is transformed again or removed, a module that has
changed and a font file that has changed drop the stylesheets that `Operation.Drops` names
and no others.  A URL leaves the store exactly if a dropped stylesheet refers to it and none
that stays does, and none is added.  The entry of a module loses exactly the assets of its
dropped stylesheets that none that stays has; it is taken away as a whole only from a module
that was transformed or removed and has no stylesheet left.  After a change the imports are
the same as before, and those whose stylesheet was dropped wait. -/
theorem retraction_is_exact (hregular : project.Regular) (hreachable : Reachable project session)
    {operation : Operation} (hretracts : operation.retracts = true) :
    Exact session (session.perform project operation).session
      (operation.Drops project session) (operation.MayEnd project) ∧
    (operation.invalidates = true → Waits session (session.perform project operation).session
      (operation.Drops project session)) := by
  have hfiled := hreachable.filed hregular
  have hserved := hreachable.served hregular
  cases operation with
  | transform id source =>
      simp only [Session.perform]
      refine ⟨exact_transform hregular hreachable id source, fun h => ?_⟩
      cases h
  | removeModule id =>
      have hexact : Exact session (session.recordImports (project.moduleId id) []).session _ _ :=
        Exact.recordImports hserved hfiled fun _ hspecifier => absurd hspecifier List.not_mem_nil
      simp only [List.not_mem_nil, false_implies, implies_true, and_true] at hexact
      refine ⟨hexact, fun h => ?_⟩
      cases h
  | invalidateModule id =>
      exact ⟨Exact.invalidateModule hserved hfiled id, fun _ => waits_invalidateModule hfiled id⟩
  | invalidateFontFile file =>
      exact ⟨Exact.invalidateFontFile hserved hfiled file,
        fun _ => waits_invalidateFontFile hfiled file⟩
  | load world request => cases hretracts
  | reset => cases hretracts

/-! ## A build with two modules

Both modules ask for the same font, so their stylesheets have one file. -/

/-- The key of the stylesheet that the second module asks for. -/
def otherKey : String :=
  "next-font/google/target.css?path=b.js&import=A&arguments=%5B%5D&variableName=b"

/-- The stylesheet of the second module is made. -/
def otherLoad : Operation :=
  .load .unconnected ⟨otherKey, "client", false⟩

/-- The build of the small project, and then that of the second module. -/
def sharedBuild : List Operation :=
  smallBuild ++ [.transform "b.js" "import {A} from \"next-font/google\";const b = A();", otherLoad]

/-- The public URL of the file of both stylesheets. -/
def sharedUrl : String := smallProject.setup.base.url smallAsset

/-- How the name of the second call is written, and how the text of its module is read. -/
theorem otherModule_runs :
    Stylesheet.IsNameOf otherKey .google ⟨"b.js", "A", "[]", "b"⟩ [] ∧
    CallsOnce smallProject "b.js" "import {A} from \"next-font/google\";const b = A();" "b.js"
      otherKey := by
  refine ⟨⟨?_, ?_, Stylesheet.fitsWithin_nil⟩, ?_, ?_, ?_⟩ <;> decide +kernel

theorem isNameOf_otherKey : Stylesheet.IsNameOf otherKey .google ⟨"b.js", "A", "[]", "b"⟩ [] :=
  otherModule_runs.1

theorem reachable_sharedBuild : Reachable smallProject (built smallProject sharedBuild) := by
  refine reachable_built smallProject fun operation hoperation => ?_
  rcases List.mem_append.mp hoperation with hfirst | hsecond
  · exact isPlain_smallBuild operation hfirst
  · rcases List.mem_pair.mp hsecond with rfl | rfl
    · exact trivial
    · exact isNameOf_otherKey.isPlain

theorem callsOnce_otherModule :
    CallsOnce smallProject "b.js" "import {A} from \"next-font/google\";const b = A();" "b.js"
      otherKey :=
  otherModule_runs.2

theorem otherKey_ne : otherKey ≠ smallKey := by
  simp [otherKey, smallKey]

/-- The second module waits for its stylesheet. -/
theorem built_otherTransform :
    built smallProject (smallBuild ++
        [.transform "b.js" "import {A} from \"next-font/google\";const b = A();"]) =
      (built smallProject smallBuild).awaiting "b.js" otherKey := by
  obtain ⟨small, -, -, -, hget, -, -, hrecords⟩ := exists_loaded_smallBuild
  rw [built_transform]
  refine (transform_of_callsOnce callsOnce_otherModule isNameOf_otherKey.isKey ?_ ?_).1
  · rw [hrecords, get?_records_mark]
    decide
  · rw [hget, if_neg otherKey_ne]

/-- The two stylesheets, with their modules and URLs, and the entry of the first module. -/
theorem sharedBuild_runs :
    (∃ small, (built smallProject sharedBuild).collection.stylesheets.get? smallKey = some small ∧
      small.module = "a.js" ∧ small.urls = [sharedUrl]) ∧
    (∃ other, (built smallProject sharedBuild).collection.stylesheets.get? otherKey = some other ∧
      other.module = "b.js" ∧ other.urls = [sharedUrl]) ∧
    (built smallProject sharedBuild).manifest.get? "a.js" = some [smallAsset] := by
  obtain ⟨small, hsmallModule, -, hsmallUrls, hget, henvironments, hmanifest, -⟩ :=
    exists_loaded_smallBuild
  have hbuild : sharedBuild = smallBuild ++
      [.transform "b.js" "import {A} from \"next-font/google\";const b = A();"] ++ [otherLoad] :=
    rfl
  have hbuilt : built smallProject sharedBuild =
      (((built smallProject smallBuild).awaiting "b.js" otherKey).load smallProject .unconnected
        ⟨otherKey, "client", false⟩).session := by
    rw [hbuild, otherLoad, built_load, built_otherTransform]
  have hnew : (otherKey, "client") ∉
      ((built smallProject smallBuild).awaiting "b.js" otherKey).collection.environments := by
    rw [collection_awaiting, henvironments]
    exact fun h => otherKey_ne (Prod.mk.inj h).1
  obtain ⟨other, hotherModule, -, hotherUrls, -, hholds, hlists, -⟩ :=
    @load_smallProject ((built smallProject smallBuild).awaiting "b.js" otherKey)
      ⟨otherKey, "client", false⟩ _ _ _ isNameOf_otherKey hnew (isImported_awaiting _ _ _)
      .unconnected
  rw [hbuilt]
  refine ⟨⟨small, ?_, hsmallModule, hsmallUrls⟩, ⟨other, hholds.get?, hotherModule, hotherUrls⟩, ?_⟩
  · rw [hholds.stylesheets, if_neg otherKey_ne.symm, collection_awaiting, hget, if_pos rfl]
  · rw [hlists, manifest_awaiting, hmanifest]
    rfl

/-- The stylesheet of the second module goes with the module, but the file stays, since the
stylesheet of the first one has it. -/
theorem shared_file_outlives_second_module :
    (∃ loaded, (built smallProject sharedBuild).collection.stylesheets.get? otherKey =
      some loaded ∧ sharedUrl ∈ loaded.urls) ∧
    (∀ loaded, ((built smallProject sharedBuild).perform smallProject
      (.removeModule "b.js")).session.collection.stylesheets.get? otherKey ≠ some loaded) ∧
    ¬ ((built smallProject sharedBuild).collection.store.contains sharedUrl = true ∧
      ¬ ((built smallProject sharedBuild).perform smallProject
        (.removeModule "b.js")).session.collection.store.contains sharedUrl = true) := by
  have hretracts : (Operation.removeModule "b.js").retracts = true := rfl
  have hexact := (retraction_is_exact regular_smallProject reachable_sharedBuild hretracts).1
  obtain ⟨⟨small, hsmall, hsmallModule, hsmallUrls⟩, ⟨other, hother, hotherModule, hotherUrls⟩, -⟩ :=
    sharedBuild_runs
  refine ⟨⟨other, hother, ?_⟩, fun loaded hget => ?_, fun hgone => ?_⟩
  · rw [hotherUrls]
    exact List.mem_singleton_self _
  · obtain ⟨hbefore, hkept⟩ := (hexact.stylesheets otherKey loaded).mp hget
    rw [hother, Option.some_inj] at hbefore
    exact hkept (hbefore ▸ hotherModule)
  · obtain ⟨-, hunreferenced⟩ := (hexact.released sharedUrl).mp hgone
    refine hunreferenced ⟨smallKey, small, (hexact.stylesheets _ _).mpr ⟨hsmall, ?_⟩, ?_⟩
    · show small.module ≠ "b.js"
      rw [hsmallModule]
      decide
    · rw [hsmallUrls]
      exact List.mem_singleton_self _

end FontHosting.Session
