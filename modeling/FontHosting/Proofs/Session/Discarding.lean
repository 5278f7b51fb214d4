import FontHosting.Proofs.Session.Opening

/-!
# Stylesheets that nobody imports

A request may be answered after the last import of its stylesheet is gone.  By then the loader
has emitted files, and the stylesheet and its environment are in the collection; the session
takes all of that out again.  That this leaves no trace needs more than dropping the right key:
nothing may have been kept under that key before, and no file that went into the store just now
may be one that another stylesheet refers to.

`Tidy` says that neither happens: a session keeps stylesheets and environments for its imports
only, and what its stylesheets refer to is in the store.  Every operation keeps it
(`Tidy.perform`), whatever the names of the stylesheets are, so it holds after every sequence of
operations (`tidy_built`).
-/

namespace FontHosting.Session

open Stylesheet (Collection Loaded Request key?)

/-- What is kept is kept for an import, and the store has what is referred to. -/
structure Tidy (session : Session) : Prop where
  isKey : ∀ module record, session.HasRecord module record → key? record.key = some record.key
  imported : ∀ key, session.collection.stylesheets.contains key = true →
    session.isImported key = true
  environments : ∀ seen ∈ session.collection.environments,
    session.collection.stylesheets.contains seen.1 = true
  stored : ∀ url, session.collection.references url = true →
    session.collection.store.contains url = true

namespace Tidy

variable {project : Project} {session before after : Session}

theorem empty : Tidy Session.empty where
  isKey module record h := by obtain ⟨_, h, -⟩ := h; cases h
  imported key h := by cases h
  environments seen h := by cases h
  stored url h := by
    obtain ⟨key, loaded, h, -⟩ := Collection.references_iff.mp h
    cases h

/-- Neither the manifest nor the caches matter, nor whether the session is finished. -/
theorem congr (h : Tidy before) (hrecords : after.records = before.records)
    (hstylesheets : after.collection.stylesheets = before.collection.stylesheets)
    (henvironments : after.collection.environments = before.collection.environments)
    (hstore : after.collection.store = before.collection.store) : Tidy after := by
  constructor
  · intro module record hrecord
    unfold HasRecord at hrecord
    rw [hrecords] at hrecord
    exact h.isKey module record hrecord
  · intro key hkey
    rw [hstylesheets] at hkey
    unfold isImported allRecords
    rw [hrecords]
    exact h.imported key hkey
  · rw [henvironments, hstylesheets]
    exact h.environments
  · intro url hreferenced
    unfold Collection.references at hreferenced
    rw [hstylesheets] at hreferenced
    rw [hstore]
    exact h.stored url hreferenced

theorem settle {α : Type} (h : Tidy session) (answer : α) :
    Tidy (session.settle answer).session := by
  unfold Session.settle
  split
  · exact h.congr rfl rfl rfl rfl
  · exact h

/-- A stylesheet is kept under its own key. -/
theorem isKey_of_contains (h : Tidy session) {key : String}
    (hkey : session.collection.stylesheets.contains key = true) : key? key = some key := by
  obtain ⟨module, record, hrecord, rfl⟩ := isImported_iff.mp (h.imported key hkey)
  exact h.isKey module record hrecord

/-- An import with the key of an older one has a key of its own. -/
theorem isKey_of_old (h : Tidy session) {module : String} {record : Record}
    (hold : ∃ old, session.HasRecord module old ∧ record.key = old.key) :
    key? record.key = some record.key := by
  obtain ⟨old, hold, hkey⟩ := hold
  rw [hkey]
  exact h.isKey module old hold

/-- **Dropping stylesheets keeps a session tidy**, if the imports of the others stay. -/
theorem drop {keys : List String} (h : Tidy before)
    (hdrop : Drop keys before.collection after.collection)
    (hkeys : ∀ module record, after.HasRecord module record → key? record.key = some record.key)
    (himported : ∀ key, key ∉ keys → before.isImported key = true → after.isImported key = true) :
    Tidy after := by
  constructor
  · exact hkeys
  · intro key hkey
    obtain ⟨hbefore, hkept⟩ := hdrop.contains.mp hkey
    exact himported key hkept (h.imported key hbefore)
  · intro seen hseen
    obtain ⟨hbefore, hkept⟩ := (hdrop.environments seen).mp hseen
    exact hdrop.contains.mpr ⟨h.environments seen hbefore, hkept⟩
  · intro url hreferenced
    exact hdrop.contains_store hreferenced (h.stored url (hdrop.references hreferenced))

/-! ## Modules -/

theorem replaceImports (h : Tidy session) (module : String) (specifiers : List String) :
    Tidy (session.replaceImports module specifiers) := by
  refine h.drop (drop_replaceImports (fun record => h.isKey module record) specifiers)
    (fun other record hrecord => ?_) fun key hkept himported => ?_
  · rw [hasRecord_replaceImports] at hrecord
    split at hrecord
    · obtain ⟨specifier, -, key, hkey, rfl⟩ := mem_currentImports.mp hrecord
      exact Stylesheet.key?_key hkey
    · exact h.isKey other record hrecord
  · obtain ⟨other, record, hrecord, rfl⟩ := isImported_iff.mp himported
    by_cases hother : other = module
    · -- the import did not end, so the module has it still
      subst hother
      have hcurrent : ∃ current ∈ session.currentImports specifiers, current.key = record.key := by
        by_contra hgone
        refine hkept (List.mem_map.mpr ⟨record, mem_ended.mpr ⟨hrecord, ?_⟩, rfl⟩)
        exact fun current hcurrent hkey => hgone ⟨current, hcurrent, hkey⟩
      obtain ⟨current, hcurrent, hkey⟩ := hcurrent
      refine isImported_iff.mpr ⟨other, current, hasRecord_replaceImports.mpr ?_, hkey⟩
      rw [if_pos rfl]
      exact hcurrent
    · refine isImported_iff.mpr ⟨other, record, hasRecord_replaceImports.mpr ?_, rfl⟩
      rw [if_neg hother]
      exact hrecord

theorem recordImports (h : Tidy session) (module : String) (specifiers : List String) :
    Tidy (session.recordImports module specifiers).session := by
  rw [recordImports_eq]
  exact (h.replaceImports module specifiers).settle _

theorem transform (h : Tidy session) (project : Project) (id source : String) :
    Tidy (session.transform project id source).session := by
  rcases transform_eq project session id source with ⟨-, hsame⟩ | ⟨refusal, hsame⟩ |
    ⟨-, transformed?, -, hsame⟩
  · rw [hsame]
    exact h
  · rw [hsame]
    exact h
  · rw [hsame]
    exact h.recordImports _ _

/-! ## Requests -/

section
variable {request : Request} {collection : Collection} {key : String} {loaded : Loaded}

/-- What the stylesheets of a session refer to is in the store, the one of a request included. -/
theorem stored_of_holds (h : Tidy session)
    (hholds : Holds project request session.collection collection key loaded) {url : String}
    (hreferenced : collection.references url = true) : collection.store.contains url = true := by
  obtain ⟨other, found, hget, hurl⟩ := Collection.references_iff.mp hreferenced
  have hkept : session.collection.stylesheets.get? other = some found →
      collection.store.contains url = true := fun hbefore =>
    hholds.keeps url (h.stored url (Collection.references_iff.mpr ⟨other, found, hbefore, hurl⟩))
  rw [hholds.stylesheets] at hget
  split at hget
  · rename_i hother
    obtain rfl := Option.some_inj.mp hget
    subst hother
    -- the stylesheet of the request was there, or it was made of files in the store
    rcases hholds.source with hbefore | hmade
    · exact hkept hbefore
    · rw [hmade.urls] at hurl
      obtain ⟨asset, hasset, rfl⟩ := List.mem_map.mp hurl
      exact hmade.stored asset hasset
  · exact hkept hget

theorem resolveImports (h : Tidy session)
    (hholds : Holds project request session.collection collection key loaded)
    (himported : ({ session with collection }).isImported key = true) :
    Tidy (({ session with collection }).resolveImports key loaded) := by
  have hcontains : ∀ other, collection.stylesheets.contains other = true ↔
      other = key ∨ session.collection.stylesheets.contains other = true := by
    intro other
    unfold Table.contains
    rw [hholds.stylesheets]
    by_cases hother : other = key <;> simp [hother]
  constructor
  · intro module record hrecord
    exact h.isKey_of_old (hasRecord_mark_key hrecord)
  · intro other hother
    refine isImported_mark.mpr ?_
    rcases (hcontains other).mp hother with rfl | hbefore
    · exact himported
    · exact h.imported other hbefore
  · intro seen hseen
    refine (hcontains seen.1).mpr ?_
    rcases (hholds.environments seen).mp hseen with hbefore | rfl
    · exact Or.inr (h.environments seen hbefore)
    · exact Or.inl rfl
  · exact fun url => h.stored_of_holds hholds

/-! ### Discarding -/

/-- A stylesheet that nobody imports was not there before, so no other one is missing without
it. -/
theorem stylesheets_discard (h : Tidy session)
    (hholds : Holds project request session.collection collection key loaded)
    (himported : ¬ session.isImported key = true) :
    (({ session with collection }).discard key).collection.stylesheets =
      session.collection.stylesheets := by
  refine Table.ext_get? fun other => ?_
  rw [hholds.drop_discard.stylesheets, hholds.stylesheets]
  by_cases hother : other = key
  · -- a stylesheet that was kept under the key before would have an import
    have habsent : ¬ session.collection.stylesheets.contains key = true :=
      fun hkept => himported (h.imported key hkept)
    rw [if_pos (List.mem_singleton.mpr hother), hother]
    exact (Option.not_isSome_iff_eq_none.mp habsent).symm
  · rw [if_neg fun hmem => hother (List.mem_singleton.mp hmem), if_neg hother]

theorem references_discard (h : Tidy session)
    (hholds : Holds project request session.collection collection key loaded)
    (himported : ¬ session.isImported key = true) (url : String) :
    (({ session with collection }).discard key).collection.references url =
      session.collection.references url := by
  unfold Collection.references
  rw [h.stylesheets_discard hholds himported]

theorem environments_discard (h : Tidy session)
    (hholds : Holds project request session.collection collection key loaded)
    (himported : ¬ session.isImported key = true) {seen : String × String} :
    seen ∈ (({ session with collection }).discard key).collection.environments ↔
      seen ∈ session.collection.environments := by
  rw [hholds.drop_discard.environments, hholds.environments, List.mem_singleton]
  constructor
  · rintro ⟨hbefore | rfl, hother⟩
    · exact hbefore
    · exact absurd rfl hother
  · intro hbefore
    refine ⟨Or.inl hbefore, ?_⟩
    rintro rfl
    exact himported (h.imported _ (h.environments seen hbefore))

/-- What a stylesheet refers to stays in the store. -/
theorem contains_store_discard (h : Tidy session)
    (hholds : Holds project request session.collection collection key loaded)
    (himported : ¬ session.isImported key = true) {url : String}
    (hreferenced : session.collection.references url = true) :
    (({ session with collection }).discard key).collection.store.contains url = true := by
  refine hholds.drop_discard.contains_store ?_ (hholds.keeps url (h.stored url hreferenced))
  rw [h.references_discard hholds himported, hreferenced]

/-- **What went into the store for a stylesheet that nobody imports is taken out again**: what
other stylesheets refer to was there before. -/
theorem contains_of_discard (h : Tidy session)
    (hholds : Holds project request session.collection collection key loaded)
    (hsourced : ∀ url, collection.store.contains url = true →
      session.collection.store.contains url = true ∨ url ∈ loaded.urls)
    (himported : ¬ session.isImported key = true) {url : String}
    (hstored : (({ session with collection }).discard key).collection.store.contains url = true) :
    session.collection.store.contains url = true := by
  obtain ⟨font, hfont⟩ := Table.contains_iff.mp hstored
  obtain ⟨hmade, hspared⟩ := (hholds.drop_discard.store url font).mp hfont
  rcases hsourced url (Table.contains_iff.mpr ⟨font, hmade⟩) with hbefore | hown
  · exact hbefore
  · -- a file of the request is spared for another stylesheet only
    rcases hspared with hreferenced | hspared
    · rw [h.references_discard hholds himported] at hreferenced
      exact h.stored url hreferenced
    · exact absurd hown (hspared key (List.mem_singleton_self key) loaded hholds.get?)

theorem discard (h : Tidy session)
    (hholds : Holds project request session.collection collection key loaded)
    (himported : ¬ session.isImported key = true) :
    Tidy (({ session with collection }).discard key) := by
  have hstylesheets := h.stylesheets_discard hholds himported
  constructor
  · exact h.isKey
  · rw [hstylesheets]
    exact h.imported
  · intro seen hseen
    rw [hstylesheets]
    exact h.environments seen ((h.environments_discard hholds himported).mp hseen)
  · intro url hreferenced
    rw [h.references_discard hholds himported] at hreferenced
    exact h.contains_store_discard hholds himported hreferenced

end

theorem load (h : Tidy session) (hconfined : project.setup.Confined) (world : Loader.World)
    (request : Request) : Tidy (session.load project world request).session := by
  rcases load_cases hconfined world session request with ⟨collection, answer, htaken, hload⟩ |
    ⟨key, loaded, collection, answer, hholds, hload⟩
  · rw [hload]
    have hreferences : ∀ url, collection.references url = session.collection.references url := by
      intro url
      unfold Collection.references
      rw [htaken.stylesheets]
    exact ⟨h.isKey, fun key hkey => h.imported key (htaken.stylesheets ▸ hkey),
      fun seen hseen => htaken.stylesheets ▸ h.environments seen (htaken.environments ▸ hseen),
      fun url hreferenced => htaken.keeps url (h.stored url (hreferences url ▸ hreferenced))⟩
  · rw [hload]
    by_cases himported : ({ session with collection }).isImported key = true
    · rw [receive_of_isImported himported]
      exact (h.resolveImports hholds himported).settle ()
    · rw [receive_of_not_isImported himported]
      exact h.discard hholds himported

/-! ## Changed files -/

theorem invalidateModule (h : Tidy session) (project : Project) (id : String) :
    Tidy (session.invalidateModule project id).1 := by
  rcases invalidateModule_eq project session id with ⟨-, hsame⟩ | ⟨records, hget, hchanged⟩
  · rw [hsame]
    exact h
  rw [hchanged]
  refine h.drop (drop_invalidate fun key hkey => ?_) (fun module record hrecord => ?_)
    fun key _ himported => ?_
  · obtain ⟨old, hmem, rfl⟩ := List.mem_map.mp hkey
    exact h.isKey _ old ⟨records, hget, hmem⟩
  · exact h.isKey_of_old (hasRecord_reopenModule_key hget hrecord)
  · exact (isImported_reopenModule hget).mpr himported

theorem invalidateFontFile (h : Tidy session) (file : String) :
    Tidy (session.invalidateFontFile file).1 := by
  rcases invalidateFontFile_eq session file with ⟨-, hsame⟩ | ⟨-, hchanged⟩
  · rw [hsame]
    exact h
  rw [hchanged]
  refine h.drop (drop_invalidate fun key hkey => ?_) (fun module record hrecord => ?_)
    fun key _ himported => ?_
  · obtain ⟨loaded, hget, -⟩ := Collection.mem_keysUsing.mp hkey
    exact h.isKey_of_contains (Table.contains_iff.mpr ⟨loaded, hget⟩)
  · exact h.isKey_of_old (hasRecord_mark_key hrecord)
  · exact isImported_mark.mpr himported

/-! ## Every operation -/

/-- **Every operation keeps a session tidy.** -/
theorem perform (h : Tidy session) (hconfined : project.setup.Confined) (operation : Operation) :
    Tidy (session.perform project operation).session := by
  cases operation with
  | transform id source =>
      simp only [Session.perform]
      exact h.transform project id source
  | load world request => exact h.load hconfined world request
  | invalidateModule id => exact h.invalidateModule project id
  | invalidateFontFile file => exact h.invalidateFontFile file
  | removeModule id => exact h.recordImports (project.moduleId id) []
  | reset => exact Tidy.empty.congr rfl rfl rfl rfl

end Tidy

/-- **A session is tidy after any sequence of operations.** -/
theorem tidy_built {project : Project} (hconfined : project.setup.Confined)
    (operations : List Operation) : Tidy (built project operations) := by
  induction operations using List.reverseRecOn with
  | nil => exact .empty
  | append_singleton operations last ih =>
      rw [built_append]
      exact ih.perform hconfined last

/-- An operation leaves everything as it was, apart from files that no stylesheet refers to, and
does not finish the session. -/
structure LeavesNoTrace {α : Type} (before : Session) (outcome : Outcome α) : Prop where
  records : outcome.session.records = before.records
  manifest : outcome.session.manifest = before.manifest
  isFinished : outcome.session.isFinished = before.isFinished
  completed : outcome.completed = none
  stylesheets : outcome.session.collection.stylesheets = before.collection.stylesheets
  environments : ∀ seen, seen ∈ outcome.session.collection.environments ↔
    seen ∈ before.collection.environments
  /-- Nothing was added to the store. -/
  stored : ∀ url, outcome.session.collection.store.contains url = true →
    before.collection.store.contains url = true
  /-- Nothing was taken out of the store that a stylesheet refers to. -/
  referenced : ∀ url, before.collection.references url = true →
    before.collection.store.contains url = true ∧
      outcome.session.collection.store.contains url = true

/-- A tidy session drops all that came with a stylesheet that nobody imports. -/
theorem Tidy.leavesNoTrace {project : Project} {session : Session} {world : Loader.World}
    {request : Request} {target : Stylesheet.Module} (h : Tidy session)
    (hconfined : project.setup.Confined)
    (hanswer : (session.load project world request).answer = .ok (some target))
    (hunwanted : ∀ record ∈ session.allRecords, key? request.id ≠ some record.key) :
    LeavesNoTrace session (session.load project world request) := by
  rcases load_answered hconfined hanswer with
    hload | ⟨key, loaded, collection, hholds, hsourced, hload⟩
  · rw [hload]
    exact ⟨rfl, rfl, rfl, rfl, rfl, fun _ => Iff.rfl, fun _ h => h,
      fun url hreferenced => ⟨h.stored url hreferenced, h.stored url hreferenced⟩⟩
  · have himported : ¬ ({ session with collection }).isImported key = true := by
      intro himported
      obtain ⟨module, record, hrecord, rfl⟩ := isImported_iff.mp himported
      exact hunwanted record (mem_allRecords.mpr ⟨module, hrecord⟩) hholds.isKey
    rw [hload, receive_of_not_isImported himported]
    exact {
      records := rfl
      manifest := rfl
      isFinished := rfl
      completed := rfl
      stylesheets := h.stylesheets_discard hholds himported
      environments := fun _ => h.environments_discard hholds himported
      stored := fun _ => h.contains_of_discard hholds hsourced himported
      referenced := fun url hreferenced => ⟨h.stored url hreferenced,
        h.contains_store_discard hholds himported hreferenced⟩ }

/-- **A request for a stylesheet that nobody imports leaves no trace.**  Whatever has happened to
the session before, if the request is answered with a stylesheet and no import is recorded under
its key, the imports, the manifest, the stylesheets and the environments are what they were, the
session is not finished by it, nothing is added to the store, and nothing that a stylesheet
refers to is taken out of it. -/
theorem unwanted_stylesheet_leaves_no_trace {project : Project}
    (hconfined : project.setup.Confined) (operations : List Operation) (world : Loader.World)
    (request : Request) {target : Stylesheet.Module}
    (hanswer : ((built project operations).load project world request).answer = .ok (some target))
    (hunwanted : ∀ record ∈ (built project operations).allRecords,
      key? request.id ≠ some record.key) :
    LeavesNoTrace (built project operations)
      ((built project operations).load project world request) :=
  (tidy_built hconfined operations).leavesNoTrace hconfined hanswer hunwanted

/-- A request of a call that the small build has not, with the file that it has. -/
def otherRequest : Request :=
  ⟨"next-font/google/target.css?path=a.js&import=A&arguments=%5B%5D&variableName=b", "client",
    false⟩

theorem isNameOf_otherRequest :
    Stylesheet.IsNameOf otherRequest.id .google ⟨"a.js", "A", "[]", "b"⟩ [] where
  written := by decide +kernel
  told := by decide +kernel
  fits := Stylesheet.fitsWithin_nil

theorem otherRequest_ne : otherRequest.id ≠ smallKey := by
  simp [otherRequest, smallKey]

theorem otherRequest_runs :
    (∃ target, ((built smallProject smallBuild).load smallProject .unconnected
      otherRequest).answer = .ok (some target)) ∧
    ∀ record ∈ (built smallProject smallBuild).allRecords,
      key? otherRequest.id ≠ some record.key := by
  obtain ⟨_, -, -, -, -, henvironments, -⟩ := exists_loaded_smallBuild
  have hnew : (otherRequest.id, otherRequest.environment) ∉
      (built smallProject smallBuild).collection.environments := by
    rw [henvironments]
    exact fun h => otherRequest_ne (Prod.mk.inj h).1
  obtain ⟨after, loaded, hmade, -⟩ := start_smallProject isNameOf_otherRequest hnew .unconnected
  refine ⟨⟨_, answer_of_made regular_smallProject.confined hmade⟩, fun record hrecord => ?_⟩
  rw [allRecords_smallBuild] at hrecord
  rw [isNameOf_otherRequest.isKey, List.mem_singleton.mp hrecord]
  exact fun h => otherRequest_ne (Option.some_inj.mp h)

/-- The small build is the same after it was asked for another stylesheet, and has its file
still. -/
theorem otherRequest_leaves_no_trace :
    (∃ target, ((built smallProject smallBuild).load smallProject .unconnected
      otherRequest).answer = .ok (some target)) ∧
    (∀ record ∈ (built smallProject smallBuild).allRecords,
      key? otherRequest.id ≠ some record.key) ∧
    LeavesNoTrace (built smallProject smallBuild)
      ((built smallProject smallBuild).load smallProject .unconnected otherRequest) := by
  obtain ⟨⟨target, hanswer⟩, hunwanted⟩ := otherRequest_runs
  exact ⟨⟨target, hanswer⟩, hunwanted,
    unwanted_stylesheet_leaves_no_trace regular_smallProject.confined smallBuild .unconnected
      otherRequest hanswer hunwanted⟩

end FontHosting.Session
