import FontHosting.Proofs.Session.Serving

/-!
# Nothing stale stays

`Served` says that no stylesheet lacks its files.  The converse is `Current`: what the
manifest lists under a module is an asset of a stylesheet of that module, and what the
store serves is a file of a stylesheet.

Dropping stylesheets takes their files away with them, so every operation keeps a session
current, with one exception.  A request may make a stylesheet again while the old one is
still kept, for another part of the site or while the site is not developed.  The new
stylesheet then takes the place of the old one, and nothing retracts the files that only
the old one had.  So a session stays current as long as every stylesheet that is replaced
has its assets in the one that replaces it (`nothing_stale_without_lost_assets`), and
`replaced_stylesheet_leaves_its_asset` is a build in which it does not.

What is stored may also stay behind when a request fails, but nothing is listed then.  So a
session is `Listed`, which is the first half of `Current`, after failed requests as well
(`Sparing.listed`).

The lemmas that say what an operation does are those under `Served`; here they are read in
the other direction.
-/

namespace FontHosting.Session

open Stylesheet (Collection HasRepeatedMark Loaded Request key?)

/-- What is listed belongs to a stylesheet of its module. -/
def Listed (session : Session) : Prop :=
  ∀ module asset, session.manifest.Lists module asset → session.collection.HasAsset module asset

/-- What is listed and what is stored belongs to a stylesheet. -/
structure Current (session : Session) : Prop where
  listed : ∀ module asset, session.manifest.Lists module asset →
    session.collection.HasAsset module asset
  stored : ∀ url, session.collection.store.contains url = true →
    session.collection.references url = true

/-- Whether the request of an operation is answered, if it is one. -/
def Operation.isAnswered (project : Project) (session : Session) : Operation → Bool
  | .load world request => (session.load project world request).answer.isOk
  | _ => true

theorem exists_answer {project : Project} {session : Session} {world : Loader.World}
    {request : Request} (h : (Operation.load world request).isAnswered project session = true) :
    ∃ target?, (session.load project world request).answer = .ok target? := by
  simp only [Operation.isAnswered] at h
  cases hanswer : (session.load project world request).answer with
  | error failure => rw [hanswer] at h; cases h
  | ok target? => exact ⟨target?, rfl⟩

/-- Every stylesheet that an operation replaces has its assets in the one that replaces it. -/
def Operation.KeepsAssets (project : Project) (session : Session) : Operation → Prop
  | .load world request =>
      ∀ key old new, session.collection.stylesheets.get? key = some old →
        (session.load project world request).session.collection.stylesheets.get? key = some new →
        old.assets ⊆ new.assets
  | _ => True

/-- Where there is no stylesheet yet, none is replaced. -/
theorem Operation.keepsAssets_of_entries_eq_nil {project : Project} {session : Session}
    (h : session.collection.stylesheets.entries = []) (operation : Operation) :
    operation.KeepsAssets project session := by
  cases operation with
  | load world request =>
      intro key old new hold
      have hmem := Table.mem_entries_iff.mpr hold
      rw [h] at hmem
      cases hmem
  | _ => trivial

/-- The sessions that sequences of operations lead to if every request is answered and no
stylesheet loses an asset by being replaced. -/
inductive Steady (project : Project) : Session → Prop where
  | new : Steady project Session.empty
  | step {session : Session} (operation : Operation) (hsteady : Steady project session)
      (hplain : operation.IsPlain) (hanswered : operation.isAnswered project session = true)
      (hkeeps : operation.KeepsAssets project session) :
      Steady project (session.perform project operation).session

/-- The sessions that sequences of operations lead to if no stylesheet loses an asset by being
replaced, whether the requests are answered or not. -/
inductive Sparing (project : Project) : Session → Prop where
  | new : Sparing project Session.empty
  | step {session : Session} (operation : Operation) (hsparing : Sparing project session)
      (hplain : operation.IsPlain) (hkeeps : operation.KeepsAssets project session) :
      Sparing project (session.perform project operation).session

theorem Sparing.reachable {project : Project} {session : Session} (h : Sparing project session) :
    Reachable project session := by
  induction h with
  | new => exact .new
  | step operation _ hplain _ ih => exact .step operation ih hplain

theorem Sparing.append {project : Project} {operations : List Operation}
    (h : Sparing project (built project operations)) (last : Operation) (hplain : last.IsPlain)
    (hkeeps : last.KeepsAssets project (built project operations)) :
    Sparing project (built project (operations ++ [last])) := by
  rw [built_append]
  exact .step last h hplain hkeeps

theorem Steady.sparing {project : Project} {session : Session} (h : Steady project session) :
    Sparing project session := by
  induction h with
  | new => exact .new
  | step operation _ hplain _ hkeeps ih => exact .step operation ih hplain hkeeps

theorem Steady.reachable {project : Project} {session : Session} (h : Steady project session) :
    Reachable project session :=
  h.sparing.reachable

/-! ## What is listed -/

section
variable {project : Project} {session : Session}

/-- What is listed when the imports of a module were replaced was listed before, and if a
stylesheet is lost that had it, then another one of the module has it. -/
theorem lists_of_replaceImports {module : String} {specifiers : List String}
    (hfiled : Filed session) {path asset : String}
    (hlisted : (session.replaceImports module specifiers).manifest.Lists path asset) :
    session.manifest.Lists path asset ∧
      (session.Loses ((session.ended module specifiers).map Record.key) path asset →
        (session.replaceImports module specifiers).collection.HasAsset path asset) := by
  rw [collection_replaceImports]
  rw [manifest_replaceImports] at hlisted
  unfold retractEnded at hlisted ⊢
  dsimp only at hlisted ⊢
  split
  · rename_i hended
    rw [if_pos hended] at hlisted
    refine ⟨hlisted, ?_⟩
    rintro ⟨key, hkey, -⟩
    rw [List.isEmpty_iff.mp (Bool.and_eq_true_iff.mp hended).1] at hkey
    cases hkey
  · rename_i hended
    rw [if_neg hended] at hlisted
    by_cases hclears : (session.openModule module specifiers).Clears module
        ((session.ended module specifiers).map Record.key)
        (session.currentImports specifiers).isEmpty
    · obtain ⟨hbefore, hpath⟩ := (lists_retract_of_clears hclears).mp hlisted
      refine ⟨hbefore, ?_⟩
      -- The stylesheets that are dropped are those of the module.
      rintro ⟨key, hkey, loaded, hget, rfl, -⟩
      obtain ⟨record, hrecord, rfl⟩ := List.mem_map.mp hkey
      have hmodule := hfiled.belongs module record (mem_ended.mp hrecord).1
      exact absurd ((hfiled.belongsTo hget).unique hmodule) hpath
    · refine (lists_retract ?_ hclears).mp hlisted
      intro key hkey
      obtain ⟨record, hrecord, rfl⟩ := List.mem_map.mp hkey
      exact hfiled.isKey (mem_ended.mp hrecord).1

/-- What nobody imports was not in the place of anything. -/
theorem get?_discard {request : Request} {collection : Collection} {key : String}
    {loaded : Loaded} (hfiled : Filed session)
    (hholds : Holds project request session.collection collection key loaded)
    (himported : ¬ ({ session with collection }).isImported key = true) {other : String}
    {found : Loaded} (hget : session.collection.stylesheets.get? other = some found) :
    (({ session with collection }).discard key).collection.stylesheets.get? other =
      some found := by
  have hdrop : Drop [key] collection (({ session with collection }).discard key).collection :=
    hholds.drop_discard
  have hother : other ≠ key := by
    rintro rfl
    obtain ⟨record, hrecord, hkey⟩ := hfiled.recorded other found hget
    exact himported (isImported_iff.mpr ⟨found.module, record, hrecord, hkey⟩)
  refine hdrop.get?_eq_some.mpr ⟨?_, by simpa using hother⟩
  rw [hholds.stylesheets, if_neg hother, hget]

end

namespace Listed

variable {project : Project} {session before after : Session}

theorem empty : Listed Session.empty := by
  rintro module asset ⟨_, hlists, -⟩
  cases hlists

/-- Neither the records nor the store matters. -/
theorem congr (hbefore : Listed before)
    (hstylesheets : after.collection.stylesheets = before.collection.stylesheets)
    (hmanifest : after.manifest = before.manifest) : Listed after := by
  intro module asset hlists
  rw [hmanifest] at hlists
  obtain ⟨key, loaded, hget, hasset⟩ := hbefore module asset hlists
  exact ⟨key, loaded, hstylesheets ▸ hget, hasset⟩

theorem settle {α : Type} (h : Listed session) (answer : α) :
    Listed (session.settle answer).session := by
  unfold Session.settle
  split
  · exact h.congr rfl rfl
  · exact h

/-- Stylesheets are dropped, and nothing of them is left in the manifest. -/
theorem drop {keys : List String} (h : Listed before)
    (hdrop : Drop keys before.collection after.collection)
    (hlists : ∀ module asset, after.manifest.Lists module asset →
      before.manifest.Lists module asset ∧
        (before.Loses keys module asset → after.collection.HasAsset module asset)) :
    Listed after := by
  intro module asset hlisted
  obtain ⟨hbefore, hlost⟩ := hlists module asset hlisted
  obtain ⟨key, loaded, hget, hmodule, hasset⟩ := h module asset hbefore
  by_cases hkey : key ∈ keys
  · exact hlost ⟨key, hkey, loaded, hget, hmodule, hasset⟩
  · exact ⟨key, loaded, hdrop.get?_eq_some.mpr ⟨hget, hkey⟩, hmodule, hasset⟩

theorem invalidate {keys : List String} (h : Listed session)
    (hkeys : ∀ key ∈ keys, key? key = some key) : Listed (session.invalidate keys) :=
  h.drop (drop_invalidate hkeys) fun _ _ hlisted => (lists_invalidate hkeys).mp hlisted

section
variable {module : String} {specifiers : List String}

/-- What a module loses is not listed under it any more. -/
theorem replaceImports (h : Listed session) (hfiled : Filed session) :
    Listed (session.replaceImports module specifiers) :=
  h.drop (drop_replaceImports (fun _ hrecord => hfiled.isKey hrecord) specifiers)
    fun _ _ hlisted => lists_of_replaceImports hfiled hlisted

theorem recordImports (h : Listed session) (hfiled : Filed session) :
    Listed (session.recordImports module specifiers).session := by
  rw [recordImports_eq]
  exact (h.replaceImports hfiled).settle _

end

theorem transform (h : Listed session) (hfiled : Filed session) (hregular : project.Regular)
    (id source : String) : Listed (session.transform project id source).session := by
  rcases transform_cases hregular session id source with ⟨answer, hsame⟩ |
    ⟨specifiers, answer, -, hrecorded⟩
  · rw [hsame]
    exact h
  · rw [hrecorded]
    exact h.recordImports hfiled

section
variable {request : Request} {collection : Collection} {key : String} {loaded : Loaded}

/-- A stylesheet that has the assets of the one in its place. -/
theorem resolveImports (h : Listed session) (hfiled : Filed session)
    (hplain : ¬ HasRepeatedMark request.id)
    (hholds : Holds project request session.collection collection key loaded)
    (hkeeps : ∀ old, session.collection.stylesheets.get? key = some old →
      old.assets ⊆ loaded.assets) :
    Listed (({ session with collection }).resolveImports key loaded) := by
  have hown : collection.stylesheets.get? key = some loaded := hholds.get?
  intro module asset hlisted
  rcases Manifest.lists_record.mp hlisted with hbefore | ⟨rfl, hasset, -⟩
  · obtain ⟨other, found, hget, rfl, hasset⟩ := h module asset hbefore
    by_cases hother : other = key
    · subst hother
      have hmodule : found.module = loaded.module :=
        (hfiled.belongsTo hget).unique (hfiled.belongsTo_of_holds hholds hplain)
      exact ⟨other, loaded, hown, hmodule.symm, hkeeps found hget hasset⟩
    · exact ⟨other, found, ((hholds.stylesheets other).trans (if_neg hother)).trans hget, rfl,
        hasset⟩
  · exact ⟨key, loaded, hown, rfl, hasset⟩

/-- What is listed is nothing that nobody imports. -/
theorem discard (h : Listed session) (hfiled : Filed session)
    (hholds : Holds project request session.collection collection key loaded)
    (himported : ¬ ({ session with collection }).isImported key = true) :
    Listed (({ session with collection }).discard key) := by
  intro module asset hlisted
  obtain ⟨other, found, hget, hasset⟩ := h module asset hlisted
  exact ⟨other, found, get?_discard hfiled hholds himported hget, hasset⟩

end

/-- Whether the request is answered does not matter. -/
theorem load (h : Listed session) (hfiled : Filed session) (hregular : project.Regular)
    {world : Loader.World} {request : Request} (hplain : ¬ HasRepeatedMark request.id)
    (hkeeps : (Operation.load world request).KeepsAssets project session) :
    Listed (session.load project world request).session := by
  simp only [Operation.KeepsAssets] at hkeeps
  rcases load_cases hregular.confined world session request with
    ⟨collection, answer, htaken, hload⟩ |
    ⟨key, loaded, collection, answer, hholds, hload⟩
  · rw [hload]
    exact h.congr htaken.stylesheets rfl
  · rw [hload] at hkeeps ⊢
    by_cases himported : ({ session with collection }).isImported key = true
    · rw [receive_of_isImported himported] at hkeeps ⊢
      refine (h.resolveImports hfiled hplain hholds fun old hold => ?_).settle ()
      refine hkeeps key old loaded hold ?_
      unfold Session.settle
      split <;> exact hholds.get?
    · rw [receive_of_not_isImported himported]
      exact h.discard hfiled hholds himported

theorem invalidateModule (h : Listed session) (hfiled : Filed session) (id : String) :
    Listed (session.invalidateModule project id).1 := by
  rcases invalidateModule_eq project session id with ⟨-, hsame⟩ | ⟨records, hget, hchanged⟩
  · rw [hsame]
    exact h
  · rw [hchanged]
    refine Listed.invalidate (h.congr rfl rfl) fun key hkey => ?_
    obtain ⟨record, hrecord, rfl⟩ := List.mem_map.mp hkey
    exact hfiled.isKey ⟨records, hget, hrecord⟩

theorem invalidateFontFile (h : Listed session) (hfiled : Filed session) (file : String) :
    Listed (session.invalidateFontFile file).1 := by
  rcases invalidateFontFile_eq session file with ⟨-, hsame⟩ | ⟨-, hchanged⟩
  · rw [hsame]
    exact h
  · rw [hchanged]
    refine Listed.invalidate (h.congr rfl rfl) fun key hkey => ?_
    obtain ⟨loaded, hget, -⟩ := Collection.mem_keysUsing.mp hkey
    exact (hfiled.belongsTo hget).isKey

theorem perform (h : Listed session) (hfiled : Filed session) (hregular : project.Regular)
    {operation : Operation} (hplain : operation.IsPlain)
    (hkeeps : operation.KeepsAssets project session) :
    Listed (session.perform project operation).session := by
  cases operation with
  | transform id source =>
      simp only [Session.perform]
      exact h.transform hfiled hregular id source
  | load world request => exact h.load hfiled hregular hplain hkeeps
  | invalidateModule id => exact h.invalidateModule hfiled id
  | invalidateFontFile file => exact h.invalidateFontFile hfiled file
  | removeModule id => exact h.recordImports hfiled
  | reset => exact Listed.empty.congr rfl rfl

end Listed

/-! ## What is stored -/

namespace Current

variable {project : Project} {session before after : Session}

theorem empty : Current Session.empty where
  listed := Listed.empty
  stored url h := by cases h

/-- Neither the records nor the caches matter. -/
theorem congr (hbefore : Current before)
    (hstylesheets : after.collection.stylesheets = before.collection.stylesheets)
    (hstore : after.collection.store = before.collection.store)
    (hmanifest : after.manifest = before.manifest) : Current after where
  listed := Listed.congr hbefore.listed hstylesheets hmanifest
  stored url hurl := by
    rw [hstore] at hurl
    obtain ⟨key, loaded, hget, hreferred⟩ :=
      Collection.references_iff.mp (hbefore.stored url hurl)
    exact Collection.references_iff.mpr ⟨key, loaded, hstylesheets ▸ hget, hreferred⟩

theorem settle {α : Type} (h : Current session) (answer : α) :
    Current (session.settle answer).session := by
  unfold Session.settle
  split
  · exact h.congr rfl rfl rfl
  · exact h

/-- **Dropping stylesheets leaves nothing of them in the store**, so a session stays current
if nothing of them is left in the manifest. -/
theorem drop {keys : List String} (h : Current before)
    (hdrop : Drop keys before.collection after.collection)
    (hlists : ∀ module asset, after.manifest.Lists module asset →
      before.manifest.Lists module asset ∧
        (before.Loses keys module asset → after.collection.HasAsset module asset)) :
    Current after where
  listed := Listed.drop h.listed hdrop hlists
  stored url hurl := by
    obtain ⟨font, hfont⟩ := Table.contains_iff.mp hurl
    obtain ⟨hbefore, hreferred | hspared⟩ := (hdrop.store url font).mp hfont
    · exact hreferred
    · obtain ⟨key, loaded, hget, hown⟩ :=
        Collection.references_iff.mp (h.stored url (Table.contains_iff.mpr ⟨font, hbefore⟩))
      have hkey : key ∉ keys := fun hkey => hspared key hkey loaded hget hown
      exact Collection.references_iff.mpr
        ⟨key, loaded, hdrop.get?_eq_some.mpr ⟨hget, hkey⟩, hown⟩

theorem invalidate {keys : List String} (h : Current session)
    (hkeys : ∀ key ∈ keys, key? key = some key) : Current (session.invalidate keys) :=
  h.drop (drop_invalidate hkeys) fun _ _ hlisted => (lists_invalidate hkeys).mp hlisted

/-! ## Modules -/

section
variable {module : String} {specifiers : List String}

theorem replaceImports (h : Current session) (hfiled : Filed session) :
    Current (session.replaceImports module specifiers) :=
  h.drop (drop_replaceImports (fun _ hrecord => hfiled.isKey hrecord) specifiers)
    fun _ _ hlisted => lists_of_replaceImports hfiled hlisted

theorem recordImports (h : Current session) (hfiled : Filed session) :
    Current (session.recordImports module specifiers).session := by
  rw [recordImports_eq]
  exact (h.replaceImports hfiled).settle _

end

theorem transform (h : Current session) (hfiled : Filed session) (hregular : project.Regular)
    (id source : String) : Current (session.transform project id source).session := by
  rcases transform_cases hregular session id source with ⟨answer, hsame⟩ |
    ⟨specifiers, answer, -, hrecorded⟩
  · rw [hsame]
    exact h
  · rw [hrecorded]
    exact h.recordImports hfiled

/-! ## Requests -/

section
variable {request : Request} {collection : Collection} {key : String} {loaded : Loaded}

/-- A stylesheet that has the assets of the one in its place. -/
theorem resolveImports (h : Current session) (hfiled : Filed session)
    (hserved : Served project session) (hplain : ¬ HasRepeatedMark request.id)
    (hholds : Holds project request session.collection collection key loaded)
    (hsourced : ∀ url, collection.store.contains url = true →
      session.collection.store.contains url = true ∨ url ∈ loaded.urls)
    (hkeeps : ∀ old, session.collection.stylesheets.get? key = some old →
      old.assets ⊆ loaded.assets) :
    Current (({ session with collection }).resolveImports key loaded) := by
  have hown : collection.stylesheets.get? key = some loaded := hholds.get?
  refine ⟨Listed.resolveImports h.listed hfiled hplain hholds hkeeps, fun url hurl => ?_⟩
  refine Collection.references_iff.mpr ?_
  rcases hsourced url hurl with hbefore | hmade
  · obtain ⟨other, found, hget, hreferred⟩ :=
      Collection.references_iff.mp (h.stored url hbefore)
    by_cases hother : other = key
    · subst hother
      refine ⟨other, loaded, hown, ?_⟩
      rw [hserved.urls other found hget] at hreferred
      rw [(hserved.of_holds hholds).1]
      exact List.map_subset _ (hkeeps found hget) hreferred
    · exact ⟨other, found, ((hholds.stylesheets other).trans (if_neg hother)).trans hget,
        hreferred⟩
  · exact ⟨key, loaded, hown, hmade⟩

/-- What nobody imports takes its files with it. -/
theorem discard (h : Current session) (hfiled : Filed session)
    (hholds : Holds project request session.collection collection key loaded)
    (hsourced : ∀ url, collection.store.contains url = true →
      session.collection.store.contains url = true ∨ url ∈ loaded.urls)
    (himported : ¬ ({ session with collection }).isImported key = true) :
    Current (({ session with collection }).discard key) where
  listed := Listed.discard h.listed hfiled hholds himported
  stored url hurl := by
    have hdrop : Drop [key] collection (({ session with collection }).discard key).collection :=
      hholds.drop_discard
    obtain ⟨font, hfont⟩ := Table.contains_iff.mp hurl
    obtain ⟨hbefore, hreferred | hspared⟩ := (hdrop.store url font).mp hfont
    · exact hreferred
    · have hold := (hsourced url (Table.contains_iff.mpr ⟨font, hbefore⟩)).resolve_right
        (hspared key (List.mem_singleton_self key) loaded hholds.get?)
      obtain ⟨other, found, hget, hown⟩ := Collection.references_iff.mp (h.stored url hold)
      exact Collection.references_iff.mpr
        ⟨other, found, get?_discard hfiled hholds himported hget, hown⟩

end

theorem load (h : Current session) (hfiled : Filed session) (hserved : Served project session)
    (hregular : project.Regular) {world : Loader.World} {request : Request}
    (hplain : ¬ HasRepeatedMark request.id)
    (hanswered : (Operation.load world request).isAnswered project session = true)
    (hkeeps : (Operation.load world request).KeepsAssets project session) :
    Current (session.load project world request).session := by
  obtain ⟨target?, hanswer⟩ := exists_answer hanswered
  simp only [Operation.KeepsAssets] at hkeeps
  rcases load_answered hregular.confined hanswer with
    hload | ⟨key, loaded, collection, hholds, hsourced, hload⟩
  · rw [hload]
    exact h
  · rw [hload] at hkeeps ⊢
    by_cases himported : ({ session with collection }).isImported key = true
    · rw [receive_of_isImported himported] at hkeeps ⊢
      refine (h.resolveImports hfiled hserved hplain hholds hsourced fun old hold => ?_).settle ()
      refine hkeeps key old loaded hold ?_
      unfold Session.settle
      split <;> exact hholds.get?
    · rw [receive_of_not_isImported himported]
      exact h.discard hfiled hholds hsourced himported

/-! ## Changed files -/

theorem invalidateModule (h : Current session) (hfiled : Filed session) (id : String) :
    Current (session.invalidateModule project id).1 := by
  rcases invalidateModule_eq project session id with ⟨-, hsame⟩ | ⟨records, hget, hchanged⟩
  · rw [hsame]
    exact h
  · rw [hchanged]
    refine Current.invalidate (h.congr rfl rfl rfl) fun key hkey => ?_
    obtain ⟨record, hrecord, rfl⟩ := List.mem_map.mp hkey
    exact hfiled.isKey ⟨records, hget, hrecord⟩

theorem invalidateFontFile (h : Current session) (hfiled : Filed session) (file : String) :
    Current (session.invalidateFontFile file).1 := by
  rcases invalidateFontFile_eq session file with ⟨-, hsame⟩ | ⟨-, hchanged⟩
  · rw [hsame]
    exact h
  · rw [hchanged]
    refine Current.invalidate (h.congr rfl rfl rfl) fun key hkey => ?_
    obtain ⟨loaded, hget, -⟩ := Collection.mem_keysUsing.mp hkey
    exact (hfiled.belongsTo hget).isKey

/-! ## Every operation -/

theorem perform (h : Current session) (hfiled : Filed session) (hserved : Served project session)
    (hregular : project.Regular) {operation : Operation} (hplain : operation.IsPlain)
    (hanswered : operation.isAnswered project session = true)
    (hkeeps : operation.KeepsAssets project session) :
    Current (session.perform project operation).session := by
  cases operation with
  | transform id source =>
      simp only [Session.perform]
      exact h.transform hfiled hregular id source
  | load world request => exact h.load hfiled hserved hregular hplain hanswered hkeeps
  | invalidateModule id => exact h.invalidateModule hfiled id
  | invalidateFontFile file => exact h.invalidateFontFile hfiled file
  | removeModule id => exact h.recordImports hfiled
  | reset => exact Current.empty.congr rfl rfl rfl

end Current

variable {project : Project} {session : Session}

theorem Sparing.listed (hregular : project.Regular) (hsparing : Sparing project session) :
    Listed session := by
  induction hsparing with
  | new => exact .empty
  | step operation hbefore hplain hkeeps ih =>
      exact ih.perform (hbefore.reachable.filed hregular) hregular hplain hkeeps

theorem Steady.current (hregular : project.Regular) (hsteady : Steady project session) :
    Current session := by
  induction hsteady with
  | new => exact .empty
  | step operation hbefore hplain hanswered hkeeps ih =>
      exact ih.perform (hbefore.reachable.filed hregular) (hbefore.reachable.served hregular)
        hregular hplain hanswered hkeeps

/-- What is left when a file has changed was there before, and was not made from it. -/
theorem dropped_invalidateFontFile
    (hkeys : ∀ key loaded, session.collection.stylesheets.get? key = some loaded →
      key? key = some key) {file key : String} {loaded : Loaded}
    (hget : (session.invalidateFontFile file).1.collection.stylesheets.get? key = some loaded) :
    session.collection.stylesheets.get? key = some loaded ∧
      (loaded.fontFiles.any fun used => Text.Path.same used file) = false := by
  rcases invalidateFontFile_eq session file with ⟨hnone, hsame⟩ | ⟨-, hchanged⟩
  · rw [hsame] at hget
    refine ⟨hget, ?_⟩
    by_contra hused
    have hkey := Collection.mem_keysUsing.mpr ⟨loaded, hget, by simpa using hused⟩
    rw [hnone] at hkey
    cases hkey
  · rw [hchanged] at hget
    have hown : ∀ other ∈ session.collection.keysUsing file, key? other = some other := by
      intro other hother
      obtain ⟨found, hfound, -⟩ := Collection.mem_keysUsing.mp hother
      exact hkeys other found hfound
    obtain ⟨hbefore, hkey⟩ := (drop_invalidate hown).get?_eq_some.mp hget
    refine ⟨hbefore, ?_⟩
    by_contra hused
    exact hkey (Collection.mem_keysUsing.mpr ⟨loaded, hbefore, by simpa using hused⟩)

/-- No stylesheet is left that was made from a file that has changed. -/
theorem not_used_invalidateFontFile (hfiled : Filed session) {file key : String} {loaded : Loaded}
    (hget : (session.invalidateFontFile file).1.collection.stylesheets.get? key = some loaded) :
    (loaded.fontFiles.any fun used => Text.Path.same used file) = false :=
  (dropped_invalidateFontFile (fun _ _ hstored => (hfiled.belongsTo hstored).isKey) hget).2

/-- **As long as no replaced stylesheet loses an asset, nothing stale stays.**  Every listed
asset is one of a stylesheet of its module, every URL in the store is one of a stylesheet,
and after a font file has changed, neither is one of a stylesheet that was made from it. -/
theorem nothing_stale_without_lost_assets (hregular : project.Regular)
    (hsteady : Steady project session) :
    (∀ module asset, session.manifest.Lists module asset → ∃ key loaded,
      session.collection.stylesheets.get? key = some loaded ∧ loaded.module = module ∧
        asset ∈ loaded.assets) ∧
    (∀ url, session.collection.store.contains url = true → ∃ key loaded,
      session.collection.stylesheets.get? key = some loaded ∧ url ∈ loaded.urls) ∧
    ∀ file, ∀ changed, (session.invalidateFontFile file).1 = changed →
      (∀ module asset, changed.manifest.Lists module asset → ∃ key loaded,
        changed.collection.stylesheets.get? key = some loaded ∧ loaded.module = module ∧
          asset ∈ loaded.assets ∧
          (loaded.fontFiles.any fun used => Text.Path.same used file) = false) ∧
      ∀ url, changed.collection.store.contains url = true → ∃ key loaded,
        changed.collection.stylesheets.get? key = some loaded ∧ url ∈ loaded.urls ∧
          (loaded.fontFiles.any fun used => Text.Path.same used file) = false := by
  have hcurrent := hsteady.current hregular
  refine ⟨hcurrent.listed, fun url hurl => Collection.references_iff.mp (hcurrent.stored url hurl),
    ?_⟩
  rintro file changed rfl
  have hfiled := hsteady.reachable.filed hregular
  have hchanged := hcurrent.invalidateFontFile hfiled file
  constructor
  · intro module asset hlisted
    obtain ⟨key, loaded, hget, hmodule, hasset⟩ := hchanged.listed module asset hlisted
    exact ⟨key, loaded, hget, hmodule, hasset, not_used_invalidateFontFile hfiled hget⟩
  · intro url hurl
    obtain ⟨key, loaded, hget, hown⟩ := Collection.references_iff.mp (hchanged.stored url hurl)
    exact ⟨key, loaded, hget, hown, not_used_invalidateFontFile hfiled hget⟩

/-! ## A build with a font file

The loader hosts one file of the project, which changes during the build. -/

/-- A loader that hosts one file of the project. -/
def hostingLoader : Loader.FontLoader := fun call => do
  let path ← Loader.resolve call "a.woff2"
  let content ← Loader.readFile call path
  let url ← Loader.emit call content "woff2" true false
  return ⟨"@font-face \x7b font-family: a; src: url(" ++ url ++ ") \x7d", [], none, none, none, none⟩

/-- The small project with that loader. -/
def hostingProject : Project := {
  setup := { smallProject.setup with loaders := fun _ => some ⟨hostingLoader, false⟩ }
  calls := smallProject.calls }

/-- The stylesheet is asked for while the file has a certain content. -/
def hostingLoad (content : Asset.Bytes) (environment : String) : Operation :=
  .load { Loader.World.unconnected with file := fun _ _ => .ok content }
    ⟨smallKey, environment, false⟩

/-- The stylesheet is made. -/
def hostingBuild : List Operation := [smallTransform, hostingLoad [1] "client"]

/-- The stylesheet is made again for another part of the site, from a newer file. -/
def replacedBuild : List Operation := hostingBuild ++ [hostingLoad [2] "server"]

/-- The name of the file when it was first read. -/
def olderAsset : String := "static/media/4bf5122f344554c5.p.woff2"

/-- The name of the file when it was read again. -/
def newerAsset : String := "static/media/dbc1b4c900ffe48d.p.woff2"

theorem regular_hostingProject : hostingProject.Regular := by
  refine ⟨fun kind registered hregistered => ?_, regular_smallProject.unmarked⟩
  obtain rfl := Option.some_inj.mp hregistered
  intro call
  refine Loader.within_bind (Loader.within_resolve call _) fun path => ?_
  refine Loader.within_bind (Loader.within_readFile call path) fun content => ?_
  exact Loader.within_bind (Loader.within_emit call content _ _ _) fun url => Loader.within_pure _

theorem olderAsset_ne : olderAsset ≠ newerAsset := by
  simp [olderAsset, newerAsset]

/-- The public URL of a file. -/
def hostedUrl (asset : String) : String := hostingProject.setup.base.url asset

/-- The rules that the loader makes if the file has a certain name. -/
def hostingRules (asset : String) : String :=
  "@font-face \x7b font-family: a; src: url(" ++ hostedUrl asset ++ ") \x7d"

/-- A font file has a content and a name, and its URL makes rules with a family. -/
structure IsHosted (content : Asset.Bytes) (asset : String) : Prop where
  name : Asset.fileName content "woff2" true false = asset
  rename : (Css.renameFamilies (Stylesheet.scopedFamily (Stylesheet.scopeOf (hostingRules asset)))
    (hostingRules asset).toList).isSome = true

/-- The two files of the build, and where the module finds them. -/
theorem hostingFiles_run :
    IsHosted [1] olderAsset ∧ IsHosted [2] newerAsset ∧
    (Collection.callOf hostingProject.setup .unconnected ⟨"a.js", "A", "[]", "a"⟩ [] false).resolve
      "a.woff2" = "a.woff2" ∧
    hostingProject.moduleId "a.js" = "a.js" := by
  refine ⟨⟨?_, ?_⟩, ⟨?_, ?_⟩, ?_, ?_⟩ <;> decide +kernel

theorem isHosted_olderAsset : IsHosted [1] olderAsset := hostingFiles_run.1

theorem isHosted_newerAsset : IsHosted [2] newerAsset := hostingFiles_run.2.1

/-- The loader emits the file and hands out the rules with its URL. -/
theorem run_hostingLoader {content : Asset.Bytes} {asset : String}
    (hasset : Asset.fileName content "woff2" true false = asset) (caches : Loader.Caches)
    (store : Asset.Store) (log : List Loader.Event) :
    let call := Collection.callOf hostingProject.setup
      { Loader.World.unconnected with file := fun _ _ => .ok content } ⟨"a.js", "A", "[]", "a"⟩ []
      false
    let ran := (hostingLoader call).run (.start caches store log)
    ran.1 = .ok ⟨hostingRules asset, [], none, none, none, none⟩ ∧
      ran.2.store = store.insert (hostedUrl asset) ⟨asset, content⟩ ∧
      ran.2.emitted = [asset] ∧ ran.2.resolved = [call.resolve "a.woff2"] := by
  subst hasset
  exact ⟨rfl, rfl, rfl, rfl⟩

theorem resolve_hostingFile :
    (Collection.callOf hostingProject.setup .unconnected ⟨"a.js", "A", "[]", "a"⟩ [] false).resolve
      "a.woff2" = "a.woff2" :=
  hostingFiles_run.2.2.1

/-- A request for the stylesheet reads the file, and makes a stylesheet of it. -/
theorem start_hostingProject {content : Asset.Bytes} {asset : String}
    (hhosted : IsHosted content asset) {collection : Collection} {environment : String}
    (hnew : (smallKey, environment) ∉ collection.environments) :
    ∃ after loaded, collection.start hostingProject.setup
        { Loader.World.unconnected with file := fun _ _ => .ok content }
        ⟨smallKey, environment, false⟩ = (after, .made smallKey loaded) ∧
      after.store = collection.store.insert (hostedUrl asset) ⟨asset, content⟩ ∧
      loaded.module = "a.js" ∧ loaded.assets = [asset] ∧ loaded.urls = [hostedUrl asset] ∧
      loaded.fontFiles = ["a.woff2"] := by
  obtain ⟨⟨rules, family⟩, hrename⟩ := Option.isSome_iff_exists.mp hhosted.rename
  let world := { Loader.World.unconnected with file := fun _ _ => .ok content }
  let registered : Stylesheet.Registered := ⟨hostingLoader, false⟩
  have hregistered : hostingProject.setup.loaders .google = some registered := rfl
  have hname : Stylesheet.IsNameOf (Request.mk smallKey environment false).id .google
    ⟨"a.js", "A", "[]", "a"⟩ [] := isNameOf_smallKey
  have hstart := Collection.start_of_isNameOf hname hregistered hnew world
  let announced := collection.announce .google registered
  obtain ⟨hanswer, hstore, hemitted, hresolved⟩ :=
    run_hostingLoader hhosted.name (announced.caches .google) announced.store announced.log
  obtain ⟨target, htarget⟩ := @Stylesheet.exists_generate
    ⟨hostingRules asset, [], none, none, none, none⟩ rules family hrename "a.js"
  have hrun := @Collection.run_eq_made collection hostingProject.setup world .google registered
    ⟨"a.js", "A", "[]", "a"⟩ [] false _ target hanswer htarget smallKey
  refine ⟨_, _, hstart.trans hrun, ?_, rfl, hemitted, ?_, ?_⟩
  · refine hstore.trans ?_
    rw [(Collection.announce_frame collection .google registered).2.2]
  · exact congrArg (List.map hostedUrl) hemitted
  · exact hresolved.trans (congrArg (fun path => [path]) resolve_hostingFile)

/-- If the stylesheet is imported, it is kept, its file is stored and listed, and its imports are
resolved. -/
theorem load_hostingProject {content : Asset.Bytes} {asset environment : String}
    (hhosted : IsHosted content asset)
    (hnew : (smallKey, environment) ∉ session.collection.environments)
    (himported : session.isImported smallKey = true) :
    ∃ loaded, loaded.assets = [asset] ∧ loaded.urls = [hostedUrl asset] ∧
      let outcome := session.load hostingProject
        { Loader.World.unconnected with file := fun _ _ => .ok content }
        ⟨smallKey, environment, false⟩
      outcome.answer = .ok (some loaded.target) ∧
        (∀ key, outcome.session.collection.stylesheets.get? key =
          if key = smallKey then some loaded else session.collection.stylesheets.get? key) ∧
        (∀ seen, seen ∈ outcome.session.collection.environments ↔
          seen ∈ session.collection.environments ∨ seen = (smallKey, environment)) ∧
        outcome.session.collection.store =
          session.collection.store.insert (hostedUrl asset) ⟨asset, content⟩ ∧
        outcome.session.manifest = session.manifest.record "a.js" [asset] ∧
        outcome.session.isImported smallKey = true := by
  obtain ⟨after, loaded, hmade, hstore, hmodule, hassets, hurls, -⟩ :=
    start_hostingProject hhosted hnew
  obtain ⟨hanswer, hholds, hkept, hmanifest, hrecords⟩ :=
    load_of_made regular_hostingProject.confined hmade himported
  rw [hmodule, hassets] at hmanifest
  refine ⟨loaded, hassets, hurls, hanswer, hholds.stylesheets, hholds.environments,
    (congrArg Collection.store hkept).trans hstore, hmanifest, ?_⟩
  rw [isImported_congr hrecords, isImported_mark]
  exact himported

theorem callsOnce_hostingProject : CallsOnce hostingProject "a.js"
    "import {A} from \"next-font/google\";const a = A();" "a.js" smallKey where
  module_eq := hostingFiles_run.2.2.2
  isScript := callsOnce_smallProject.isScript
  imports := callsOnce_smallProject.imports

/-- The module waits for its stylesheet. -/
theorem built_hostingTransform :
    built hostingProject [smallTransform] = empty.awaiting "a.js" smallKey :=
  built_of_callsOnce callsOnce_hostingProject isNameOf_smallKey.isKey

/-- **The two requests of the build.**  The second one replaces the stylesheet of the first one. -/
theorem hosting_loads {started later last : Session}
    (hstarted : started = empty.awaiting "a.js" smallKey)
    (hlater : later = (started.perform hostingProject (hostingLoad [1] "client")).session)
    (hlast : last = (later.perform hostingProject (hostingLoad [2] "server")).session) :
    (hostingLoad [1] "client").isAnswered hostingProject started = true ∧
    later.manifest = Manifest.empty.record "a.js" [olderAsset] ∧
    (hostingLoad [2] "server").isAnswered hostingProject later = true ∧
    last.manifest = (Manifest.empty.record "a.js" [olderAsset]).record "a.js" [newerAsset] ∧
    last.collection.store.contains (hostedUrl olderAsset) = true ∧
    ∀ key loaded, last.collection.stylesheets.get? key = some loaded →
      loaded.assets = [newerAsset] ∧ loaded.urls = [hostedUrl newerAsset] := by
  have hnew : (smallKey, "client") ∉ started.collection.environments := by
    rw [hstarted]
    exact List.not_mem_nil
  have himported : started.isImported smallKey = true := by
    rw [hstarted]
    exact isImported_awaiting _ _ _
  obtain ⟨older, -, -, hanswer, hget, hseen, hstore, hmanifest, himported⟩ :=
    load_hostingProject isHosted_olderAsset hnew himported
  have hlater' : later = (started.load hostingProject
      { Loader.World.unconnected with file := fun _ _ => .ok [1] }
      ⟨smallKey, "client", false⟩).session := hlater
  rw [← hlater'] at hget hseen hstore hmanifest himported
  have hnew : (smallKey, "server") ∉ later.collection.environments := by
    rw [hseen, hstarted]
    exact fun h => h.elim List.not_mem_nil (by simp)
  obtain ⟨newer, hassets, hurls, hanswer', hget', -, hstore', hmanifest', -⟩ :=
    load_hostingProject isHosted_newerAsset hnew himported
  have hlast' : last = (later.load hostingProject
      { Loader.World.unconnected with file := fun _ _ => .ok [2] }
      ⟨smallKey, "server", false⟩).session := hlast
  rw [← hlast'] at hget' hstore' hmanifest'
  have hbefore : started.manifest = Manifest.empty := by rw [hstarted]; rfl
  rw [hbefore] at hmanifest
  rw [hmanifest] at hmanifest'
  refine ⟨?_, hmanifest, ?_, hmanifest', ?_, ?_⟩
  · show (started.load hostingProject _ _).answer.isOk = true
    rw [hanswer]
    rfl
  · show (later.load hostingProject _ _).answer.isOk = true
    rw [hanswer']
    rfl
  · rw [hstore', hstore, Table.contains_insert, Table.contains_insert]
    simp
  · intro key loaded hfound
    rw [hget', hget, hstarted] at hfound
    split at hfound
    · cases hfound
      exact ⟨hassets, hurls⟩
    · cases hfound

/-- What the runs of the build come to. -/
theorem hostingProject_runs :
    ((hostingLoad [1] "client").isAnswered hostingProject
        (built hostingProject [smallTransform]) = true ∧
      (built hostingProject [smallTransform]).collection.stylesheets.entries = [] ∧
      (built hostingProject hostingBuild).manifest.entries.entries = [("a.js", [olderAsset])]) ∧
    (hostingLoad [2] "server").isAnswered hostingProject (built hostingProject hostingBuild) =
      true ∧
    (built hostingProject replacedBuild).manifest.entries.entries =
      [("a.js", [olderAsset, newerAsset])] ∧
    (built hostingProject replacedBuild).collection.store.contains (hostedUrl olderAsset) = true ∧
    ∀ key loaded,
      (built hostingProject replacedBuild).collection.stylesheets.get? key = some loaded →
        loaded.assets = [newerAsset] ∧ loaded.urls = [hostedUrl newerAsset] := by
  have hlater : built hostingProject hostingBuild = _ :=
    built_append hostingProject [smallTransform] (hostingLoad [1] "client")
  have hlast : built hostingProject replacedBuild = _ :=
    built_append hostingProject hostingBuild (hostingLoad [2] "server")
  obtain ⟨hanswered, hmanifest, hanswered', hmanifest', hstored, hsheet⟩ :=
    hosting_loads built_hostingTransform hlater hlast
  refine ⟨⟨hanswered, ?_, ?_⟩, hanswered', ?_, hstored, hsheet⟩
  · rw [built_hostingTransform]
    rfl
  · rw [hmanifest]
    rfl
  · rw [hmanifest']
    rfl

theorem steady_hostingBuild : Steady hostingProject (built hostingProject hostingBuild) := by
  obtain ⟨⟨hanswered, hnone, -⟩, -⟩ := hostingProject_runs
  have htransformed : Steady hostingProject (built hostingProject ([] ++ [smallTransform])) := by
    rw [built_append]
    exact .step smallTransform .new trivial rfl trivial
  rw [show hostingBuild = [smallTransform] ++ [hostingLoad [1] "client"] from rfl, built_append]
  exact .step (hostingLoad [1] "client") htransformed isPlain_smallLoad hanswered
    (Operation.keepsAssets_of_entries_eq_nil hnone _)

/-- What the build lists after its first request is an asset of a stylesheet. -/
theorem hostingBuild_lists_live_asset :
    Steady hostingProject (built hostingProject hostingBuild) ∧
      (built hostingProject hostingBuild).manifest.Lists "a.js" olderAsset ∧
      ∃ key loaded,
        (built hostingProject hostingBuild).collection.stylesheets.get? key = some loaded ∧
          loaded.module = "a.js" ∧ olderAsset ∈ loaded.assets := by
  obtain ⟨⟨-, -, hentries⟩, -⟩ := hostingProject_runs
  have hlisted : (built hostingProject hostingBuild).manifest.Lists "a.js" olderAsset := by
    refine ⟨[olderAsset], Table.mem_entries_iff.mp ?_, List.mem_singleton_self _⟩
    rw [hentries]
    exact List.mem_singleton_self _
  exact ⟨steady_hostingBuild, hlisted,
    (nothing_stale_without_lost_assets regular_hostingProject steady_hostingBuild).1 "a.js"
      olderAsset hlisted⟩

/-- **A stylesheet that is replaced leaves its asset behind.**  Every request of the build is
answered, but the file of the first stylesheet stays listed and stored when the second one
has taken its place, and no stylesheet has it. -/
theorem replaced_stylesheet_leaves_its_asset :
    ((hostingLoad [1] "client").isAnswered hostingProject
        (built hostingProject [smallTransform]) = true ∧
      (hostingLoad [2] "server").isAnswered hostingProject (built hostingProject hostingBuild) =
        true) ∧
    Reachable hostingProject (built hostingProject replacedBuild) ∧
    ((built hostingProject replacedBuild).manifest.Lists "a.js" olderAsset ∧
      ¬ (built hostingProject replacedBuild).collection.HasAsset "a.js" olderAsset) ∧
    (built hostingProject replacedBuild).collection.store.contains (hostedUrl olderAsset) = true ∧
      (built hostingProject replacedBuild).collection.references (hostedUrl olderAsset) = false := by
  obtain ⟨⟨hfirst, -⟩, hsecond, hentries, hstored, hsheet⟩ := hostingProject_runs
  have hurl : hostedUrl olderAsset ≠ hostedUrl newerAsset := fun h =>
    olderAsset_ne (hostingProject.setup.base.url_injective h)
  refine ⟨⟨hfirst, hsecond⟩, reachable_built hostingProject ?_, ⟨?_, ?_⟩, hstored, ?_⟩
  · intro operation hoperation
    rcases List.mem_cons.mp hoperation with rfl | hoperation
    · exact trivial
    · rcases List.mem_pair.mp hoperation with rfl | rfl <;> exact isPlain_smallLoad
  · refine ⟨[olderAsset, newerAsset], Table.mem_entries_iff.mp ?_, List.mem_cons_self⟩
    rw [hentries]
    exact List.mem_singleton_self _
  · rintro ⟨key, loaded, hget, -, hasset⟩
    rw [(hsheet key loaded hget).1, List.mem_singleton] at hasset
    exact olderAsset_ne hasset
  · rw [Bool.eq_false_iff]
    intro hreferenced
    obtain ⟨key, loaded, hget, hown⟩ := Collection.references_iff.mp hreferenced
    rw [(hsheet key loaded hget).2, List.mem_singleton] at hown
    exact hurl hown

end FontHosting.Session
