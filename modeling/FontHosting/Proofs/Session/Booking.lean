import FontHosting.Proofs.Session.Imports

/-!
# What the manifest takes up is kept

`Served` says that the manifest lists the files of every stylesheet that are to be loaded
early.  It takes up two more things of a stylesheet: a module with any file has an entry,
even if that lists nothing, and a file to whose size a stand-in was adjusted sets the flag
of the manifest.  `Booked` says that both are kept as long as the stylesheet is, and that
only modules that import something have an entry.

An operation that drops stylesheets takes the entry of a module away only if no stylesheet
of it is left, which is what `Exact` says already.
-/

namespace FontHosting.Session

open Stylesheet (BelongsTo Collection HasRepeatedMark Loaded Request key?)

/-- What the manifest has taken up of every stylesheet is there, and only modules with imports
have an entry. -/
structure Booked (session : Session) : Prop where
  hasEntry : ∀ key loaded, session.collection.stylesheets.get? key = some loaded →
    loaded.assets ≠ [] → session.manifest.HasEntry loaded.module
  adjusted : ∀ key loaded, session.collection.stylesheets.get? key = some loaded →
    loaded.assets.any Asset.isSizeAdjusted = true → session.manifest.isUsingSizeAdjust = true
  imports : ∀ path, session.manifest.HasEntry path → ∃ record, session.HasRecord path record

variable {project : Project} {session before after : Session}
  {dropped : String → Loaded → Prop} {mayEnd : String → Prop}

namespace Booked

theorem empty : Booked Session.empty where
  hasEntry key loaded h := by cases h
  adjusted key loaded h := by cases h
  imports path h := by obtain ⟨entry, h⟩ := h; cases h

/-- Neither the store nor the caches matter. -/
theorem congr (hbefore : Booked before)
    (hstylesheets : after.collection.stylesheets = before.collection.stylesheets)
    (hrecords : after.records = before.records) (hmanifest : after.manifest = before.manifest) :
    Booked after := by
  constructor
  · rw [hstylesheets, hmanifest]
    exact hbefore.hasEntry
  · rw [hstylesheets, hmanifest]
    exact hbefore.adjusted
  · unfold HasRecord
    rw [hrecords, hmanifest]
    exact hbefore.imports

theorem settle {α : Type} (h : Booked session) (answer : α) :
    Booked (session.settle answer).session := by
  unfold Session.settle
  split
  · exact h.congr rfl rfl rfl
  · exact h

/-- **Dropping stylesheets leaves what the others were taken up for**, if the modules that keep
their entry keep their imports. -/
theorem drop (h : Booked before) (hexact : Exact before after dropped mayEnd)
    (hflag : after.manifest.isUsingSizeAdjust = before.manifest.isUsingSizeAdjust)
    (himports : ∀ path record, after.manifest.HasEntry path → before.HasRecord path record →
      ∃ record, after.HasRecord path record) : Booked after := by
  constructor
  · intro key loaded hget hassets
    obtain ⟨entry, hentry⟩ := h.hasEntry key loaded ((hexact.stylesheets key loaded).mp hget).1
      hassets
    rcases hexact.entries loaded.module with hunlists | ⟨-, -, hnone⟩
    · unfold Unlists at hunlists
      rw [hentry] at hunlists
      exact ⟨_, hunlists⟩
    · exact absurd rfl (hnone key loaded hget)
  · intro key loaded hget hany
    rw [hflag]
    exact h.adjusted key loaded ((hexact.stylesheets key loaded).mp hget).1 hany
  · intro path hentry
    have hbefore : before.manifest.HasEntry path := by
      obtain ⟨entry, hget⟩ := hentry
      rcases hexact.entries path with hunlists | ⟨-, hnone, -⟩
      · rw [hunlists] at hget
        obtain ⟨old, hold, -⟩ := Option.map_eq_some_iff.mp hget
        exact ⟨old, hold⟩
      · rw [hnone] at hget
        cases hget
    obtain ⟨record, hrecord⟩ := h.imports path hbefore
    exact himports path record hentry hrecord

/-! ## Modules -/

section
variable {module : String} {specifiers : List String}

/-- A module that imports nothing any more loses its entry. -/
theorem not_hasEntry_replaceImports (hnone : session.currentImports specifiers = []) :
    ¬ (session.replaceImports module specifiers).manifest.HasEntry module := by
  have hended : ¬ ((session.ended module specifiers).isEmpty &&
      !(session.currentImports specifiers).isEmpty) = true := by
    rw [hnone]
    simp
  intro hentry
  obtain ⟨entry, hget⟩ := hentry
  rw [manifest_replaceImports] at hget
  unfold retractEnded at hget
  dsimp only at hget
  rw [if_neg hended, get?_manifest_retract_of_clears (Or.inl (List.isEmpty_iff.mpr hnone)),
    if_pos rfl] at hget
  cases hget

theorem recordImports (h : Booked session) (hserved : Served project session)
    (hfiled : Filed session)
    (hspecifiers : ∀ specifier ∈ specifiers, ∀ key, key? specifier = some key →
      BelongsTo key module) :
    Booked (session.recordImports module specifiers).session := by
  rw [recordImports_eq]
  have hexact := Exact.replaceImports hserved hfiled (hfiled.replaceImports hspecifiers)
  refine (h.drop hexact (reduces_replaceImports _ _ _).flag
    fun path record hentry hrecord => ?_).settle _
  simp only [hasRecord_replaceImports]
  by_cases hpath : path = module
  · subst hpath
    have hne : session.currentImports specifiers ≠ [] :=
      fun hnone => not_hasEntry_replaceImports hnone hentry
    obtain ⟨current, hcurrent⟩ := List.exists_mem_of_ne_nil _ hne
    exact ⟨current, by rwa [if_pos rfl]⟩
  · exact ⟨record, by rwa [if_neg hpath]⟩

end

theorem transform (h : Booked session) (hserved : Served project session) (hfiled : Filed session)
    (hregular : project.Regular) (id source : String) :
    Booked (session.transform project id source).session := by
  rcases transform_cases hregular session id source with ⟨answer, hsame⟩ |
    ⟨specifiers, answer, hspecifiers, hrecorded⟩
  · rw [hsame]
    exact h
  · rw [hrecorded]
    exact h.recordImports hserved hfiled hspecifiers

/-! ## Requests -/

section
variable {request : Request} {collection : Collection} {key : String} {loaded : Loaded}

theorem resolveImports (h : Booked session) (hfiled : Filed session)
    (hholds : Holds project request session.collection collection key loaded)
    (hbelongs : BelongsTo key loaded.module)
    (himported : ({ session with collection }).isImported key = true) :
    Booked (({ session with collection }).resolveImports key loaded) := by
  have hstylesheet : ∀ other found, collection.stylesheets.get? other = some found →
      found = loaded ∨ session.collection.stylesheets.get? other = some found := by
    intro other found hget
    rw [hholds.stylesheets] at hget
    split at hget
    · exact Or.inl (Option.some_inj.mp hget).symm
    · exact Or.inr hget
  constructor
  · intro other found hget hassets
    refine Manifest.hasEntry_record.mpr ?_
    rcases hstylesheet other found hget with rfl | hbefore
    · exact Or.inr ⟨rfl, hassets⟩
    · exact Or.inl (h.hasEntry other found hbefore hassets)
  · intro other found hget hany
    have hflag : (({ session with collection }).resolveImports key
        loaded).manifest.isUsingSizeAdjust =
          (session.manifest.isUsingSizeAdjust || loaded.assets.any Asset.isSizeAdjusted) :=
      Manifest.isUsingSizeAdjust_record
    rw [hflag, Bool.or_eq_true]
    rcases hstylesheet other found hget with rfl | hbefore
    · exact Or.inr hany
    · exact Or.inl (h.adjusted other found hbefore hany)
  · intro path hentry
    have hold : ∃ record, session.HasRecord path record := by
      rcases Manifest.hasEntry_record.mp hentry with hbefore | ⟨rfl, -⟩
      · exact h.imports path hbefore
      · obtain ⟨module, record, hrecord, hkey⟩ := isImported_iff.mp himported
        have hrecord : session.HasRecord module record := hrecord
        have hmodule := (hfiled.belongs module record hrecord).unique (hkey ▸ hbelongs)
        exact ⟨record, hmodule ▸ hrecord⟩
    obtain ⟨record, hrecord⟩ := hold
    exact ⟨_, hasRecord_mark.mpr ⟨record, hrecord, rfl⟩⟩

/-- What nobody imports is not taken up. -/
theorem discard (h : Booked session)
    (hholds : Holds project request session.collection collection key loaded) :
    Booked (({ session with collection }).discard key) := by
  have hdrop : Drop [key] collection (({ session with collection }).discard key).collection :=
    hholds.drop_discard
  have hbefore : ∀ other found,
      (({ session with collection }).discard key).collection.stylesheets.get? other = some found →
        session.collection.stylesheets.get? other = some found := by
    intro other found hget
    obtain ⟨hget, hother⟩ := hdrop.get?_eq_some.mp hget
    rwa [hholds.stylesheets, if_neg (by simpa using hother)] at hget
  exact ⟨fun other found hget => h.hasEntry other found (hbefore other found hget),
    fun other found hget => h.adjusted other found (hbefore other found hget), h.imports⟩

end

theorem load (h : Booked session) (hfiled : Filed session) (hregular : project.Regular)
    (world : Loader.World) {request : Request} (hplain : ¬ HasRepeatedMark request.id) :
    Booked (session.load project world request).session := by
  rcases load_cases hregular.confined world session request with
    ⟨collection, answer, htaken, hload⟩ |
    ⟨key, loaded, collection, answer, hholds, hload⟩
  · rw [hload]
    exact h.congr htaken.stylesheets rfl rfl
  · rw [hload]
    by_cases himported : ({ session with collection }).isImported key = true
    · rw [receive_of_isImported himported]
      exact (h.resolveImports hfiled hholds (hfiled.belongsTo_of_holds hholds hplain)
        himported).settle ()
    · rw [receive_of_not_isImported himported]
      exact h.discard hholds

/-! ## Every operation -/

theorem perform (h : Booked session) (hfiled : Filed session) (hserved : Served project session)
    (hregular : project.Regular) {operation : Operation} (hplain : operation.IsPlain) :
    Booked (session.perform project operation).session := by
  have hwaiting : ∀ {after : Session} {dropped : String → Loaded → Prop},
      Waits session after dropped → ∀ path record, session.HasRecord path record →
        ∃ record, after.HasRecord path record := by
    intro after dropped hwaits path record hrecord
    have hname := mem_importNames.mpr ⟨record, hrecord, rfl⟩
    rw [← hwaits.importNames] at hname
    obtain ⟨found, hfound, -⟩ := mem_importNames.mp hname
    exact ⟨found, hfound⟩
  cases operation with
  | transform id source =>
      simp only [Session.perform]
      exact h.transform hserved hfiled hregular id source
  | load world request => exact h.load hfiled hregular world hplain
  | invalidateModule id =>
      have hexact : Exact session (session.invalidateModule project id).1
          (fun _ loaded => loaded.module = project.moduleId id) fun _ => False :=
        Exact.invalidateModule hserved hfiled id
      exact h.drop hexact (reduces_invalidateModule session id).flag
        fun path record _ => hwaiting (waits_invalidateModule hfiled id) path record
  | invalidateFontFile file =>
      have hexact : Exact session (session.invalidateFontFile file).1 _ fun _ => False :=
        Exact.invalidateFontFile hserved hfiled file
      exact h.drop hexact (reduces_invalidateFontFile session file).flag
        fun path record _ => hwaiting (waits_invalidateFontFile hfiled file) path record
  | removeModule id =>
      exact h.recordImports hserved hfiled fun _ hspecifier => absurd hspecifier List.not_mem_nil
  | reset => exact Booked.empty.congr rfl rfl rfl

end Booked

theorem Reachable.booked (hregular : project.Regular) (hreachable : Reachable project session) :
    Booked session := by
  induction hreachable with
  | new => exact .empty
  | step operation hbefore hplain ih =>
      exact ih.perform (hbefore.filed hregular) (hbefore.served hregular) hregular hplain

end FontHosting.Session
