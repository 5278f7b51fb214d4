import FontHosting.Proofs.Session.Opening

/-!
# Records, stylesheets and environments agree

A session keeps the same fact in three places: an import is marked as resolved, the
collection has its stylesheet, and the environments that asked for it are remembered.
`Filed` says that the three agree, and it is kept by every operation
(`Filed.perform`), so it holds of every reachable session.

What makes the argument work is that keys of different modules are different, since
the key of an import tells the module (`BelongsTo`).  So what is dropped for one module
is never what another one waits for.
-/

namespace FontHosting.Session

open Stylesheet (BelongsTo Collection HasRepeatedMark Loaded Request key?)

/-- Records, stylesheets and environments agree. -/
structure Filed (session : Session) : Prop where
  nonempty : ∀ module records, session.records.get? module = some records → records ≠ []
  belongs : ∀ module record, session.HasRecord module record → BelongsTo record.key module
  resolved : ∀ module record, session.HasRecord module record →
    (record.isResolved = true ↔ session.collection.stylesheets.contains record.key = true)
  recorded : ∀ key loaded, session.collection.stylesheets.get? key = some loaded →
    ∃ record, session.HasRecord loaded.module record ∧ record.key = key
  environments : ∀ seen ∈ session.collection.environments,
    session.collection.stylesheets.contains seen.1 = true

namespace Filed

variable {project : Project} {session before after : Session}

theorem empty : Filed Session.empty where
  nonempty module records h := by cases h
  belongs module record h := by obtain ⟨_, h, -⟩ := h; cases h
  resolved module record h := by obtain ⟨_, h, -⟩ := h; cases h
  recorded key loaded h := by cases h
  environments seen h := by cases h

/-- Neither the manifest nor the store matters. -/
theorem congr (hbefore : Filed before) (hrecords : after.records = before.records)
    (hstylesheets : after.collection.stylesheets = before.collection.stylesheets)
    (henvironments : after.collection.environments = before.collection.environments) :
    Filed after := by
  have hrecord : ∀ module record,
      after.HasRecord module record ↔ before.HasRecord module record := by
    intro module record
    unfold HasRecord
    rw [hrecords]
  constructor
  · intro module records h
    exact hbefore.nonempty module records (hrecords ▸ h)
  · intro module record h
    exact hbefore.belongs module record ((hrecord module record).mp h)
  · intro module record h
    rw [hstylesheets]
    exact hbefore.resolved module record ((hrecord module record).mp h)
  · intro key loaded h
    obtain ⟨record, hhas, hkey⟩ := hbefore.recorded key loaded (hstylesheets ▸ h)
    exact ⟨record, (hrecord _ record).mpr hhas, hkey⟩
  · intro seen h
    rw [hstylesheets]
    exact hbefore.environments seen (henvironments ▸ h)

theorem isKey (h : Filed session) {module : String} {record : Record}
    (hrecord : session.HasRecord module record) : key? record.key = some record.key :=
  (h.belongs module record hrecord).isKey

/-- A stored stylesheet belongs to its own module. -/
theorem belongsTo (h : Filed session) {key : String} {loaded : Loaded}
    (hget : session.collection.stylesheets.get? key = some loaded) :
    BelongsTo key loaded.module := by
  obtain ⟨record, hrecord, rfl⟩ := h.recorded key loaded hget
  exact h.belongs _ record hrecord

theorem settle {α : Type} (h : Filed session) (answer : α) :
    Filed (session.settle answer).session := by
  unfold Session.settle
  split
  · exact h.congr rfl rfl rfl
  · exact h

theorem nonempty_mark (h : Filed session) {isResolved : Bool} {keys : List String}
    {module : String} {records : List Record}
    (hget : (session.mark isResolved keys).records.get? module = some records) : records ≠ [] := by
  rw [get?_records_mark] at hget
  obtain ⟨old, hold, rfl⟩ := Option.map_eq_some_iff.mp hget
  simpa using h.nonempty module old hold

/-! ## Modules -/

section
variable {module : String} {specifiers : List String}

/-- The key of an import that ended is no key of the imports that are recorded now. -/
theorem notMem_ended
    (hbelongs : ∀ module record, session.HasRecord module record → BelongsTo record.key module)
    {other : String} {record : Record}
    (hrecord : (session.replaceImports module specifiers).HasRecord other record) :
    record.key ∉ (session.ended module specifiers).map Record.key := by
  intro hmem
  obtain ⟨lost, hlost, hkey⟩ := List.mem_map.mp hmem
  obtain ⟨hhas, hgone⟩ := mem_ended.mp hlost
  rw [hasRecord_replaceImports] at hrecord
  split at hrecord
  · exact hgone record hrecord hkey.symm
  · rename_i hother
    have hlost := hbelongs module lost hhas
    rw [hkey] at hlost
    exact hother ((hbelongs other record hrecord).unique hlost)

/-- **Replacing the imports of a module keeps the three in agreement**, if the new imports
are those of calls in the module. -/
theorem replaceImports (h : Filed session)
    (hspecifiers : ∀ specifier ∈ specifiers, ∀ key, key? specifier = some key →
      BelongsTo key module) :
    Filed (session.replaceImports module specifiers) := by
  have hkeys : ∀ record, session.HasRecord module record → key? record.key = some record.key :=
    fun record hrecord => h.isKey hrecord
  have hdrop := drop_replaceImports hkeys specifiers
  have hcurrent : ∀ record ∈ session.currentImports specifiers, BelongsTo record.key module ∧
      (record.isResolved = true ↔
        session.collection.stylesheets.contains record.key = true) := by
    intro record hrecord
    obtain ⟨specifier, hspecifier, key, hkey, rfl⟩ := mem_currentImports.mp hrecord
    have hbelongs := hspecifiers specifier hspecifier key hkey
    refine ⟨hbelongs, ?_⟩
    unfold Collection.contains Table.contains
    rw [Collection.get?_of_isKey hbelongs.isKey]
  constructor
  · intro other records hget
    rw [get?_records_replaceImports] at hget
    split at hget
    · split at hget
      · cases hget
      · rename_i hne
        exact Option.some_inj.mp hget ▸ hne
    · exact h.nonempty other records hget
  · intro other record hrecord
    rw [hasRecord_replaceImports] at hrecord
    split at hrecord
    · rename_i hother
      exact hother ▸ (hcurrent record hrecord).1
    · exact h.belongs other record hrecord
  · intro other record hrecord
    rw [hdrop.contains, and_iff_left (notMem_ended h.belongs hrecord)]
    rw [hasRecord_replaceImports] at hrecord
    split at hrecord
    · exact (hcurrent record hrecord).2
    · exact h.resolved other record hrecord
  · intro key loaded hget
    obtain ⟨hbefore, hkept⟩ := hdrop.get?_eq_some.mp hget
    obtain ⟨record, hrecord, rfl⟩ := h.recorded key loaded hbefore
    simp only [hasRecord_replaceImports]
    split
    · rename_i hmodule
      by_contra hgone
      refine hkept (List.mem_map.mpr ⟨record, mem_ended.mpr ⟨hmodule ▸ hrecord, ?_⟩, rfl⟩)
      intro other hother hkey
      exact hgone ⟨other, hother, hkey⟩
    · exact ⟨record, hrecord, rfl⟩
  · intro seen hseen
    obtain ⟨hbefore, hkept⟩ := (hdrop.environments seen).mp hseen
    exact hdrop.contains.mpr ⟨h.environments seen hbefore, hkept⟩

theorem recordImports (h : Filed session)
    (hspecifiers : ∀ specifier ∈ specifiers, ∀ key, key? specifier = some key →
      BelongsTo key module) :
    Filed (session.recordImports module specifiers).session := by
  rw [recordImports_eq]
  exact (h.replaceImports hspecifiers).settle _

end

theorem transform (h : Filed session) (hregular : project.Regular) (id source : String) :
    Filed (session.transform project id source).session := by
  rcases transform_cases hregular session id source with ⟨answer, hsame⟩ |
    ⟨specifiers, answer, hspecifiers, hrecorded⟩
  · rw [hsame]
    exact h
  · rw [hrecorded]
    exact h.recordImports hspecifiers

theorem removeModule (h : Filed session) (id : String) :
    Filed (session.removeModule project id).session :=
  h.recordImports fun _ hspecifier => absurd hspecifier List.not_mem_nil

/-! ## Requests -/

section
variable {request : Request} {collection : Collection} {key : String} {loaded : Loaded}

theorem belongsTo_of_holds (h : Filed session)
    (hholds : Holds project request session.collection collection key loaded)
    (hplain : ¬ HasRepeatedMark request.id) : BelongsTo key loaded.module := by
  rcases hholds.source with hget | hmade
  · exact h.belongsTo hget
  · obtain ⟨query, hread, hpath⟩ := hmade.module
    refine ⟨Stylesheet.key?_key hmade.isKey, query, ?_, hpath⟩
    rw [Stylesheet.read?_queryPart_key hmade.isKey hplain, hread]

theorem resolveImports (h : Filed session)
    (hholds : Holds project request session.collection collection key loaded)
    (hbelongs : BelongsTo key loaded.module)
    (himported : ({ session with collection }).isImported key = true) :
    Filed (({ session with collection }).resolveImports key loaded) := by
  have hcontains : ∀ other, collection.stylesheets.contains other = true ↔
      other = key ∨ session.collection.stylesheets.contains other = true := by
    intro other
    unfold Table.contains
    rw [hholds.stylesheets]
    by_cases hother : other = key <;> simp [hother]
  have hrecord : ∀ module record,
      (({ session with collection }).resolveImports key loaded).HasRecord module record ↔
        ∃ old, session.HasRecord module old ∧
          record = if [key].contains old.key then { old with isResolved := true } else old :=
    fun _ _ => hasRecord_mark
  constructor
  · exact fun module records hget => h.nonempty_mark hget
  · intro module record hhas
    obtain ⟨old, hold, rfl⟩ := (hrecord module record).mp hhas
    have hbelongs := h.belongs module old hold
    split <;> exact hbelongs
  · intro module record hhas
    obtain ⟨old, hold, rfl⟩ := (hrecord module record).mp hhas
    have hresolved := h.resolved module old hold
    show _ ↔ collection.stylesheets.contains _ = true
    rw [hcontains]
    split
    · rename_i hkey
      have hkey : old.key = key := by simpa using hkey
      simp [hkey]
    · rename_i hkey
      have hkey : old.key ≠ key := by simpa using hkey
      rw [hresolved, or_iff_right hkey]
  · intro other found hget
    have hget : collection.stylesheets.get? other = some found := hget
    rw [hholds.stylesheets] at hget
    split at hget
    · rename_i hother
      obtain rfl := Option.some_inj.mp hget
      obtain ⟨module, record, hhas, hkey⟩ := isImported_iff.mp himported
      have hhas : session.HasRecord module record := hhas
      have hmodule : module = loaded.module :=
        (h.belongs module record hhas).unique (hkey ▸ hbelongs)
      refine ⟨_, (hrecord _ _).mpr ⟨record, hmodule ▸ hhas, rfl⟩, ?_⟩
      rw [hother, ← hkey]
      split <;> rfl
    · obtain ⟨record, hhas, hkey⟩ := h.recorded other found hget
      refine ⟨_, (hrecord _ _).mpr ⟨record, hhas, rfl⟩, ?_⟩
      rw [← hkey]
      split <;> rfl
  · intro seen hseen
    refine (hcontains seen.1).mpr ?_
    rcases (hholds.environments seen).mp hseen with hbefore | rfl
    · exact Or.inr (h.environments seen hbefore)
    · exact Or.inl rfl

/-- What nobody imports was not there before either, so nothing is left of it. -/
theorem discard (h : Filed session)
    (hholds : Holds project request session.collection collection key loaded)
    (himported : ¬ ({ session with collection }).isImported key = true) :
    Filed (({ session with collection }).discard key) := by
  have hdrop : Drop [key] collection (({ session with collection }).discard key).collection :=
    hholds.drop_discard
  have hunknown : ∀ module record, session.HasRecord module record → record.key ≠ key :=
    fun module record hhas hkey => himported (isImported_iff.mpr ⟨module, record, hhas, hkey⟩)
  have hcontains : ∀ other, other ≠ key →
      (collection.stylesheets.get? other = session.collection.stylesheets.get? other) := by
    intro other hother
    rw [hholds.stylesheets, if_neg hother]
  constructor
  · exact h.nonempty
  · exact h.belongs
  · intro module record hhas
    have hhas : session.HasRecord module record := hhas
    have hkey := hunknown module record hhas
    rw [hdrop.contains, and_iff_left (by simpa using hkey), Table.contains, hcontains _ hkey]
    exact h.resolved module record hhas
  · intro other found hget
    obtain ⟨hget, hother⟩ := hdrop.get?_eq_some.mp hget
    rw [hcontains other (by simpa using hother)] at hget
    exact h.recorded other found hget
  · intro seen hseen
    obtain ⟨hseen, hother⟩ := (hdrop.environments seen).mp hseen
    have hne : seen.1 ≠ key := by simpa using hother
    rw [hdrop.contains, and_iff_left hother, Table.contains, hcontains _ hne]
    rcases (hholds.environments seen).mp hseen with hbefore | rfl
    · exact h.environments seen hbefore
    · exact absurd rfl hne

end

theorem load (h : Filed session) (hregular : project.Regular) (world : Loader.World)
    {request : Request} (hplain : ¬ HasRepeatedMark request.id) :
    Filed (session.load project world request).session := by
  rcases load_cases hregular.confined world session request with
    ⟨collection, answer, htaken, hload⟩ |
    ⟨key, loaded, collection, answer, hholds, hload⟩
  · rw [hload]
    exact h.congr rfl htaken.stylesheets htaken.environments
  · rw [hload]
    by_cases himported : ({ session with collection }).isImported key = true
    · rw [receive_of_isImported himported]
      exact (h.resolveImports hholds (h.belongsTo_of_holds hholds hplain) himported).settle ()
    · rw [receive_of_not_isImported himported]
      exact h.discard hholds himported

/-! ## Changed files -/

/-- Imports whose stylesheets are dropped wait for new ones. -/
theorem reopen_drop {keys : List String} (h : Filed before)
    (hdrop : Drop keys before.collection after.collection)
    (hrecords : ∀ module record, after.HasRecord module record ↔
      ∃ old, before.HasRecord module old ∧
        record = if keys.contains old.key then { old with isResolved := false } else old)
    (hnonempty : ∀ module records, after.records.get? module = some records → records ≠ []) :
    Filed after := by
  constructor
  · exact hnonempty
  · intro module record hhas
    obtain ⟨old, hold, rfl⟩ := (hrecords module record).mp hhas
    have hbelongs := h.belongs module old hold
    split <;> exact hbelongs
  · intro module record hhas
    obtain ⟨old, hold, rfl⟩ := (hrecords module record).mp hhas
    rw [hdrop.contains]
    split
    · rename_i hkey
      have hkey : old.key ∈ keys := List.contains_iff_mem.mp hkey
      simp [hkey]
    · rename_i hkey
      have hkey : old.key ∉ keys := fun hmem => hkey (List.contains_iff_mem.mpr hmem)
      rw [and_iff_left hkey]
      exact h.resolved module old hold
  · intro key loaded hget
    obtain ⟨hbefore, -⟩ := hdrop.get?_eq_some.mp hget
    obtain ⟨record, hhas, rfl⟩ := h.recorded key loaded hbefore
    refine ⟨_, (hrecords _ _).mpr ⟨record, hhas, rfl⟩, ?_⟩
    split <;> rfl
  · intro seen hseen
    obtain ⟨hbefore, hkept⟩ := (hdrop.environments seen).mp hseen
    exact hdrop.contains.mpr ⟨h.environments seen hbefore, hkept⟩

/-- To reopen a module is to mark its imports, since no other module has their keys. -/
theorem hasRecord_reopenModule_of_belongs
    (hbelongs : ∀ module record, session.HasRecord module record → BelongsTo record.key module)
    {module : String} {records : List Record} (hget : session.records.get? module = some records)
    {other : String} {record : Record} :
    (session.reopenModule module records).HasRecord other record ↔
      ∃ old, session.HasRecord other old ∧
        record = if (records.map Record.key).contains old.key
          then { old with isResolved := false } else old := by
  rw [hasRecord_reopenModule]
  by_cases hother : other = module
  · subst hother
    rw [if_pos rfl]
    have hold : ∀ old, session.HasRecord other old ↔ old ∈ records := by
      intro old
      unfold HasRecord
      simp [hget]
    simp only [hold]
    refine exists_congr fun old => and_congr_right fun hmem => ?_
    have hkey : (records.map Record.key).contains old.key = true :=
      List.contains_iff_mem.mpr (List.mem_map_of_mem hmem)
    rw [if_pos hkey, eq_comm]
  · rw [if_neg hother]
    have hkept : ∀ old, session.HasRecord other old →
        ¬ (records.map Record.key).contains old.key = true := by
      intro old hold hmem
      obtain ⟨same, hsame, hkey⟩ := List.mem_map.mp (List.contains_iff_mem.mp hmem)
      have hfirst := hbelongs module same ⟨records, hget, hsame⟩
      rw [hkey] at hfirst
      exact hother ((hbelongs other old hold).unique hfirst)
    constructor
    · intro hhas
      exact ⟨record, hhas, (if_neg (hkept record hhas)).symm⟩
    · rintro ⟨old, hold, rfl⟩
      rw [if_neg (hkept old hold)]
      exact hold

theorem invalidateModule (h : Filed session) (id : String) :
    Filed (session.invalidateModule project id).1 := by
  rcases invalidateModule_eq project session id with ⟨-, hsame⟩ |
    ⟨records, hget, hchanged⟩
  · rw [hsame]
    exact h
  · rw [hchanged]
    have hkeys : ∀ key ∈ records.map Record.key, key? key = some key := by
      intro key hkey
      obtain ⟨record, hrecord, rfl⟩ := List.mem_map.mp hkey
      exact h.isKey ⟨records, hget, hrecord⟩
    refine h.reopen_drop (drop_invalidate hkeys)
      (fun _ _ => hasRecord_reopenModule_of_belongs h.belongs hget) fun other found hfound => ?_
    rw [records_invalidate] at hfound
    unfold reopenModule at hfound
    rw [Table.get?_insert] at hfound
    split at hfound
    · obtain rfl := Option.some_inj.mp hfound
      simpa using h.nonempty _ records hget
    · exact h.nonempty other found hfound

theorem invalidateFontFile (h : Filed session) (file : String) :
    Filed (session.invalidateFontFile file).1 := by
  rcases invalidateFontFile_eq session file with ⟨-, hsame⟩ | ⟨-, hchanged⟩
  · rw [hsame]
    exact h
  · rw [hchanged]
    have hkeys : ∀ key ∈ session.collection.keysUsing file, key? key = some key := by
      intro key hkey
      obtain ⟨loaded, hget, -⟩ := Collection.mem_keysUsing.mp hkey
      exact (h.belongsTo hget).isKey
    refine h.reopen_drop (drop_invalidate hkeys) (fun _ _ => hasRecord_mark) ?_
    exact fun module records hget => h.nonempty_mark hget

/-! ## Every operation -/

theorem perform (h : Filed session) (hregular : project.Regular) {operation : Operation}
    (hplain : operation.IsPlain) : Filed (session.perform project operation).session := by
  cases operation with
  | transform id source =>
      simp only [Session.perform]
      exact h.transform hregular id source
  | load world request => exact h.load hregular world hplain
  | invalidateModule id => exact h.invalidateModule id
  | invalidateFontFile file => exact h.invalidateFontFile file
  | removeModule id => exact h.removeModule id
  | reset => exact Filed.empty.congr rfl rfl rfl

end Filed

theorem Reachable.filed {project : Project} {session : Session} (hregular : project.Regular)
    (hreachable : Reachable project session) : Filed session := by
  induction hreachable with
  | new => exact .empty
  | step operation _ hplain ih => exact ih.perform hregular hplain

/-- **In every reachable session records, stylesheets and environments agree.**  An import is
marked as resolved exactly if its stylesheet is kept; every stylesheet is that of an import
of its own module and of no other one; and only environments of kept stylesheets are
remembered. -/
theorem records_agree_with_stylesheets {project : Project} (hregular : project.Regular)
    {session : Session} (hreachable : Reachable project session) :
    (∀ record ∈ session.allRecords, record.isResolved = true ↔
      ∃ loaded, session.collection.stylesheets.get? record.key = some loaded) ∧
    (∀ key loaded, session.collection.stylesheets.get? key = some loaded →
      (∃ record, session.HasRecord loaded.module record ∧ record.key = key) ∧
      ∀ module record, session.HasRecord module record → record.key = key →
        module = loaded.module) ∧
    ∀ key environment, (key, environment) ∈ session.collection.environments →
      ∃ loaded, session.collection.stylesheets.get? key = some loaded := by
  have hfiled := hreachable.filed hregular
  refine ⟨fun record hrecord => ?_, fun key loaded hget => ⟨?_, ?_⟩, fun key environment hseen => ?_⟩
  · obtain ⟨module, hhas⟩ := mem_allRecords.mp hrecord
    rw [hfiled.resolved module record hhas, Table.contains_iff]
  · exact hfiled.recorded key loaded hget
  · rintro module record hhas rfl
    exact (hfiled.belongs module record hhas).unique (hfiled.belongsTo hget)
  · exact Table.contains_iff.mp (hfiled.environments _ hseen)

/-- The small build keeps a stylesheet, so its import is marked. -/
theorem records_agree_in_smallBuild :
    (built smallProject smallBuild).collection.stylesheets.contains smallKey = true ∧
      ∀ record ∈ (built smallProject smallBuild).allRecords, record.isResolved = true ↔
        ∃ loaded, (built smallProject smallBuild).collection.stylesheets.get? record.key =
          some loaded := by
  obtain ⟨loaded, hget, -⟩ := Option.map_eq_some_iff.mp assets_smallBuild
  have hagree := records_agree_with_stylesheets regular_smallProject
    (reachable_built smallProject isPlain_smallBuild)
  constructor
  · rw [Table.contains_iff]
    exact ⟨loaded, hget⟩
  · exact hagree.1

end FontHosting.Session
