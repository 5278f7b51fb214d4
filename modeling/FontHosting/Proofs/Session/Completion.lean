import FontHosting.Proofs.Session.Serving

/-!
# When a session is finished

A session is finished exactly while something is imported and nothing is pending
(`Settled`), up to the empty one: a finished session stays finished when its last import
goes, and a session that never imported anything is not finished.

Only two functions settle a session, the other operations may open it again.  So the
argument is in two parts.  `Quiet` says that a session does not claim to be finished
while it waits; that is kept by every change, and `settle` makes `Settled` of it
(`Quiet.settle`).  `Reports` says that the manifest is handed out exactly when an operation
turns an unfinished session into a finished one.
-/

namespace FontHosting.Session

open Stylesheet (BelongsTo Collection HasRepeatedMark Loaded Request key?)

variable {project : Project} {session before after : Session}

/-- A finished session waits for nothing. -/
def Quiet (session : Session) : Prop :=
  session.isFinished = true → session.pending = 0

/-- A session is finished if and, while something is imported, only if it waits for
nothing. -/
structure Settled (session : Session) : Prop where
  quiet : session.Quiet
  finished : session.allRecords ≠ [] → session.pending = 0 → session.isFinished = true

/-- The manifest is handed out exactly when a session becomes finished, and then it is the
manifest of that session. -/
structure Reports {α : Type} (before : Session) (outcome : Outcome α) : Prop where
  isSome_iff : outcome.completed.isSome = true ↔
    before.isFinished = false ∧ outcome.session.isFinished = true
  manifest : ∀ manifest, outcome.completed = some manifest → manifest = outcome.session.manifest

/-- The answer does not matter. -/
theorem Reports.answer {α β : Type} {outcome : Outcome α} (h : Reports before outcome)
    (answer : β) : Reports before ⟨outcome.session, answer, outcome.completed⟩ :=
  ⟨h.isSome_iff, h.manifest⟩

/-! ## Settling -/

theorem allRecords_ne_nil_iff :
    session.allRecords ≠ [] ↔ ∃ module record, session.HasRecord module record := by
  constructor
  · intro hne
    obtain ⟨record, hmem⟩ := List.exists_mem_of_ne_nil _ hne
    obtain ⟨module, hrecord⟩ := mem_allRecords.mp hmem
    exact ⟨module, record, hrecord⟩
  · rintro ⟨module, record, hrecord⟩
    exact List.ne_nil_of_mem (mem_allRecords.mpr ⟨module, hrecord⟩)

theorem Filed.isEmpty_records (h : Filed session) :
    session.records.isEmpty = false ↔ session.allRecords ≠ [] := by
  rw [Table.isEmpty_eq_false_iff, allRecords_ne_nil_iff]
  refine exists_congr fun module => ?_
  constructor
  · rintro ⟨records, hget⟩
    obtain ⟨record, hmem⟩ := List.exists_mem_of_ne_nil records (h.nonempty module records hget)
    exact ⟨record, records, hget, hmem⟩
  · rintro ⟨record, records, hget, -⟩
    exact ⟨records, hget⟩

theorem isComplete_iff (h : Filed session) :
    session.isComplete = true ↔
      session.isFinished = false ∧ session.allRecords ≠ [] ∧ session.pending = 0 := by
  unfold isComplete
  rw [← h.isEmpty_records, Bool.and_eq_true_iff, Bool.and_eq_true_iff, Bool.not_eq_true',
    Bool.not_eq_true', beq_iff_eq, and_assoc]

/-- **A quiet session is settled by settling it.** -/
theorem Quiet.settle {α : Type} (hquiet : session.Quiet) (hfiled : Filed session) (answer : α) :
    Settled (session.settle answer).session := by
  unfold Session.settle
  split
  · rename_i hcomplete
    obtain ⟨-, -, hpending⟩ := (isComplete_iff hfiled).mp hcomplete
    exact ⟨fun _ => hpending, fun _ _ => rfl⟩
  · rename_i hopen
    refine ⟨hquiet, fun hrecords hpending => ?_⟩
    by_contra hunfinished
    exact hopen ((isComplete_iff hfiled).mpr
      ⟨Bool.eq_false_iff.mpr hunfinished, hrecords, hpending⟩)

/-- Settling reports what was finished by it.  A change that comes before may have opened the
session, but then something is pending. -/
theorem reports_settle {α : Type} (hfiled : Filed session)
    (hopen : session.isFinished = true → before.isFinished = true)
    (hwaits : before.isFinished = true → session.isFinished = false → session.pending ≠ 0)
    (answer : α) : Reports before (session.settle answer) := by
  unfold Session.settle
  split
  · rename_i hcomplete
    obtain ⟨hunfinished, -, hpending⟩ := (isComplete_iff hfiled).mp hcomplete
    refine ⟨iff_of_true rfl ⟨?_, rfl⟩, fun _ h => (Option.some_inj.mp h).symm⟩
    exact Bool.eq_false_iff.mpr fun hfinished => hwaits hfinished hunfinished hpending
  · refine ⟨iff_of_false Bool.false_ne_true ?_, fun _ h => by cases h⟩
    rintro ⟨hbefore, hafter⟩
    rw [hopen hafter] at hbefore
    cases hbefore

theorem reports_answering {α : Type}
    (hopen : session.isFinished = true → before.isFinished = true) (answer : α) :
    Reports before (session.answering answer) := by
  refine ⟨iff_of_false Bool.false_ne_true ?_, fun _ h => by cases h⟩
  rintro ⟨hbefore, hafter⟩
  rw [hopen hafter] at hbefore
  cases hbefore

/-- A change that keeps the records and the flag keeps a session settled. -/
theorem Settled.congr (h : Settled before) (hrecords : after.records = before.records)
    (hfinished : after.isFinished = before.isFinished) : Settled after := by
  have hall : after.allRecords = before.allRecords := by
    unfold allRecords
    rw [hrecords]
  have hpending : after.pending = before.pending := by
    unfold pending
    rw [hall]
  refine ⟨fun h' => ?_, fun hne hzero => ?_⟩
  · rw [hpending]
    exact h.quiet (hfinished ▸ h')
  · rw [hfinished]
    exact h.finished (hall ▸ hne) (hpending ▸ hzero)

theorem settled_empty : Settled Session.empty where
  quiet h := by cases h
  finished h := absurd rfl h

/-- A session in which an import waits and that does not claim to be finished is settled. -/
theorem settled_of_waiting {module : String} {record : Record}
    (hrecord : session.HasRecord module record) (hwaits : record.isResolved = false)
    (hunfinished : session.isFinished = false) : Settled session := by
  refine ⟨fun h => ?_, fun _ hpending => ?_⟩
  · rw [hunfinished] at h
    cases h
  · rw [pending_eq_zero_iff.mp hpending module record hrecord] at hwaits
    cases hwaits

/-! ## Modules -/

section
variable {module : String} {specifiers : List String}

theorem Quiet.replaceImports (h : session.Quiet) :
    (session.replaceImports module specifiers).Quiet := by
  intro hfinished
  rw [isFinished_replaceImports, Bool.and_eq_true_iff, List.all_eq_true] at hfinished
  refine pending_eq_zero_iff.mpr fun other record hrecord => ?_
  rw [hasRecord_replaceImports] at hrecord
  split at hrecord
  · exact hfinished.2 record hrecord
  · exact pending_eq_zero_iff.mp (h hfinished.1) other record hrecord

/-- If a module opens a session, one of its new imports waits. -/
theorem waits_replaceImports (hbefore : session.isFinished = true)
    (hafter : (session.replaceImports module specifiers).isFinished = false) :
    (session.replaceImports module specifiers).pending ≠ 0 := by
  intro hpending
  rw [isFinished_replaceImports, hbefore, Bool.true_and, List.all_eq_false] at hafter
  obtain ⟨record, hrecord, hwaits⟩ := hafter
  refine hwaits (pending_eq_zero_iff.mp hpending module record ?_)
  rw [hasRecord_replaceImports, if_pos rfl]
  exact hrecord

theorem Settled.recordImports (h : Settled session) (hfiled : Filed session)
    (hspecifiers : ∀ specifier ∈ specifiers, ∀ key, key? specifier = some key →
      BelongsTo key module) :
    Settled (session.recordImports module specifiers).session ∧
      Reports session (session.recordImports module specifiers) := by
  have hreplaced := hfiled.replaceImports hspecifiers
  rw [recordImports_eq]
  refine ⟨h.quiet.replaceImports.settle hreplaced _, reports_settle hreplaced ?_ ?_ _⟩
  · intro hfinished
    rw [isFinished_replaceImports, Bool.and_eq_true_iff] at hfinished
    exact hfinished.1
  · exact waits_replaceImports

end

theorem Settled.transform (h : Settled session) (hfiled : Filed session)
    (hregular : project.Regular) (id source : String) :
    Settled (session.transform project id source).session ∧
      Reports session (session.transform project id source) := by
  rcases transform_cases hregular session id source with ⟨answer, hsame⟩ |
    ⟨specifiers, answer, hspecifiers, hrecorded⟩
  · rw [hsame]
    exact ⟨h, reports_answering (fun hfinished => hfinished) answer⟩
  · rw [hrecorded]
    obtain ⟨hsettled, hreports⟩ := h.recordImports hfiled hspecifiers
    exact ⟨hsettled, hreports.answer _⟩

theorem Settled.removeModule (h : Settled session) (hfiled : Filed session) (id : String) :
    Settled (session.removeModule project id).session ∧
      Reports session (session.removeModule project id) :=
  h.recordImports hfiled fun _ hspecifier => absurd hspecifier List.not_mem_nil

/-! ## Requests -/

theorem Quiet.resolveImports (h : session.Quiet) (key : String) (loaded : Loaded) :
    (session.resolveImports key loaded).Quiet := by
  intro hfinished
  refine pending_eq_zero_iff.mpr fun module record hrecord => ?_
  obtain ⟨old, hold, rfl⟩ := hasRecord_mark.mp hrecord
  split
  · rfl
  · exact pending_eq_zero_iff.mp (h hfinished) module old hold

theorem Settled.load (h : Settled session) (hfiled : Filed session) (hregular : project.Regular)
    (world : Loader.World) {request : Request} (hplain : ¬ HasRepeatedMark request.id) :
    Settled (session.load project world request).session ∧
      Reports session (session.load project world request) := by
  rcases load_cases hregular.confined world session request with ⟨collection, answer, -, hload⟩ |
    ⟨key, loaded, collection, answer, hholds, hload⟩
  · rw [hload]
    refine ⟨h.congr rfl rfl, reports_answering ?_ answer⟩
    exact fun hfinished => hfinished
  · rw [hload]
    by_cases himported : ({ session with collection }).isImported key = true
    · rw [receive_of_isImported himported]
      have hresolved := hfiled.resolveImports hholds (hfiled.belongsTo_of_holds hholds hplain)
        himported
      have hquiet : (({ session with collection }).resolveImports key loaded).Quiet :=
        Quiet.resolveImports h.quiet key loaded
      have hreports : Reports session
          ((({ session with collection }).resolveImports key loaded).settle ()) := by
        refine reports_settle hresolved ?_ ?_ ()
        · exact fun hfinished => hfinished
        · intro hbefore hafter
          rw [show session.isFinished = false from hafter] at hbefore
          cases hbefore
      exact ⟨hquiet.settle hresolved (), hreports.answer _⟩
    · rw [receive_of_not_isImported himported]
      have hreports : Reports session
          ((({ session with collection }).discard key).answering ()) := by
        refine reports_answering ?_ ()
        exact fun hfinished => hfinished
      exact ⟨h.congr rfl rfl, hreports.answer _⟩

/-! ## Changed files -/

theorem Settled.invalidateModule (h : Settled session) (hfiled : Filed session) (id : String) :
    Settled (session.invalidateModule project id).1 ∧
      ((session.invalidateModule project id).1.isFinished = true → session.isFinished = true) := by
  rcases invalidateModule_eq project session id with ⟨-, hsame⟩ | ⟨records, hget, hchanged⟩
  · rw [hsame]
    exact ⟨h, fun hfinished => hfinished⟩
  · rw [hchanged]
    obtain ⟨record, hmem⟩ := List.exists_mem_of_ne_nil records (hfiled.nonempty _ records hget)
    have hunfinished : (session.reopenModule (project.moduleId id) records).isFinished = false := by
      unfold reopenModule
      simp [hfiled.nonempty _ records hget]
    have hwaiting : ((session.reopenModule (project.moduleId id) records).invalidate
        (records.map Record.key)).HasRecord (project.moduleId id)
          { record with isResolved := false } := by
      refine ⟨records.map fun record => { record with isResolved := false }, ?_, ?_⟩
      · exact (Table.get?_insert _ _ _ _).trans (if_pos rfl)
      · exact List.mem_map.mpr ⟨record, hmem, rfl⟩
    refine ⟨settled_of_waiting hwaiting rfl hunfinished, fun hfinished => ?_⟩
    rw [isFinished_invalidate, hunfinished] at hfinished
    cases hfinished

theorem Settled.invalidateFontFile (h : Settled session) (hfiled : Filed session) (file : String) :
    Settled (session.invalidateFontFile file).1 ∧
      ((session.invalidateFontFile file).1.isFinished = true → session.isFinished = true) := by
  rcases invalidateFontFile_eq session file with ⟨-, hsame⟩ | ⟨hkeys, hchanged⟩
  · rw [hsame]
    exact ⟨h, fun hfinished => hfinished⟩
  · rw [hchanged]
    obtain ⟨key, hkey⟩ := List.exists_mem_of_ne_nil _ hkeys
    obtain ⟨loaded, hget, -⟩ := Collection.mem_keysUsing.mp hkey
    obtain ⟨record, hrecord, rfl⟩ := hfiled.recorded key loaded hget
    have hmarked : ((session.reopen (session.collection.keysUsing file)).invalidate
        (session.collection.keysUsing file)).HasRecord loaded.module
          { record with isResolved := false } :=
      hasRecord_mark.mpr ⟨record, hrecord, (if_pos (List.contains_iff_mem.mpr hkey)).symm⟩
    refine ⟨settled_of_waiting hmarked rfl rfl, fun hfinished => ?_⟩
    cases hfinished

/-! ## Every operation -/

theorem Settled.perform (h : Settled session) (hfiled : Filed session)
    (hregular : project.Regular) {operation : Operation} (hplain : operation.IsPlain) :
    Settled (session.perform project operation).session ∧
      Reports session (session.perform project operation) := by
  cases operation with
  | transform id source =>
      simp only [Session.perform]
      obtain ⟨hsettled, hreports⟩ := h.transform hfiled hregular id source
      exact ⟨hsettled, hreports.answer _⟩
  | load world request =>
      obtain ⟨hsettled, hreports⟩ := h.load hfiled hregular world hplain
      exact ⟨hsettled, hreports.answer _⟩
  | invalidateModule id =>
      obtain ⟨hsettled, hopen⟩ := h.invalidateModule hfiled id
      exact ⟨hsettled, reports_answering hopen ()⟩
  | invalidateFontFile file =>
      obtain ⟨hsettled, hopen⟩ := h.invalidateFontFile hfiled file
      exact ⟨hsettled, reports_answering hopen ()⟩
  | removeModule id =>
      obtain ⟨hsettled, hreports⟩ := h.removeModule hfiled id
      exact ⟨hsettled, hreports.answer _⟩
  | reset =>
      have hsettled : Settled session.reset := settled_empty.congr rfl rfl
      refine ⟨hsettled, reports_answering ?_ ()⟩
      intro hfinished
      cases hfinished

theorem Reachable.settled (hregular : project.Regular) (hreachable : Reachable project session) :
    Settled session := by
  induction hreachable with
  | new => exact settled_empty
  | step operation hbefore hplain ih =>
      exact (ih.perform (hbefore.filed hregular) hregular hplain).1

/-- **A session is finished exactly when every import has its stylesheet, and says so once.**
A finished session waits for nothing, and one that waits for nothing is finished if it has
any import.  An operation hands out the manifest exactly if it finishes the session; then
the manifest is that of the session, every import has its stylesheet, and everything that
is to be loaded early is listed.  So an operation that ends the last wait while imports
remain, whether it makes a stylesheet or takes an import away, hands out the manifest. -/
theorem manifest_handed_out_iff_finished (hregular : project.Regular)
    (hreachable : Reachable project session) :
    (session.isFinished = true → session.pending = 0) ∧
    (session.allRecords ≠ [] → session.pending = 0 → session.isFinished = true) ∧
    ∀ operation, Operation.IsPlain operation → ∀ outcome,
      session.perform project operation = outcome →
      (outcome.completed.isSome = true ↔
        session.isFinished = false ∧ outcome.session.isFinished = true) ∧
      (∀ manifest, outcome.completed = some manifest →
        manifest = outcome.session.manifest ∧
        (∀ record ∈ outcome.session.allRecords, ∃ loaded,
          outcome.session.collection.stylesheets.get? record.key = some loaded) ∧
        ∀ key loaded, outcome.session.collection.stylesheets.get? key = some loaded →
          ∀ asset ∈ loaded.assets, Asset.isPreloadable asset = true →
            ∃ entry, manifest.get? loaded.module = some entry ∧ asset ∈ entry) ∧
      (session.pending ≠ 0 → outcome.session.allRecords ≠ [] → outcome.session.pending = 0 →
        outcome.completed = some outcome.session.manifest) := by
  have hsettled := hreachable.settled hregular
  refine ⟨hsettled.quiet, hsettled.finished, ?_⟩
  rintro operation hplain outcome rfl
  have hnext := Reachable.step operation hreachable hplain
  have hfiled := hnext.filed hregular
  obtain ⟨hafter, hreports⟩ := hsettled.perform (hreachable.filed hregular) hregular hplain
  refine ⟨hreports.isSome_iff, fun manifest hcompleted => ?_, fun hpending hrecords hzero => ?_⟩
  · obtain rfl := hreports.manifest manifest hcompleted
    have hfinished := (hreports.isSome_iff.mp (Option.isSome_of_eq_some hcompleted)).2
    refine ⟨rfl, fun record hrecord => ?_, (hnext.served hregular).listed⟩
    obtain ⟨module, hhas⟩ := mem_allRecords.mp hrecord
    have hresolved := pending_eq_zero_iff.mp (hafter.quiet hfinished) module record hhas
    exact Table.contains_iff.mp ((hfiled.resolved module record hhas).mp hresolved)
  · have hbefore : session.isFinished = false :=
      Bool.eq_false_iff.mpr fun hfinished => hpending (hsettled.quiet hfinished)
    have hfinished := hafter.finished hrecords hzero
    obtain ⟨manifest, hcompleted⟩ :=
      Option.isSome_iff_exists.mp (hreports.isSome_iff.mpr ⟨hbefore, hfinished⟩)
    rw [hcompleted, hreports.manifest manifest hcompleted]

/-- The small build waits for one stylesheet, and is finished by it. -/
theorem smallLoad_hands_out_manifest :
    (built smallProject [smallTransform]).pending ≠ 0 ∧
      ((built smallProject [smallTransform]).perform smallProject smallLoad).completed =
        some ((built smallProject [smallTransform]).perform smallProject
          smallLoad).session.manifest := by
  have hpending : (built smallProject [smallTransform]).pending ≠ 0 ∧
      (built smallProject smallBuild).allRecords ≠ [] ∧
      (built smallProject smallBuild).pending = 0 := by
    rw [built_smallTransform, pending, pending, allRecords_smallBuild]
    exact ⟨pending_awaiting _ _ _, List.cons_ne_nil _ _, rfl⟩
  have hlast := built_append smallProject [smallTransform] smallLoad
  have hreachable : Reachable smallProject (built smallProject [smallTransform]) := by
    refine reachable_built smallProject fun operation hoperation => ?_
    rw [List.mem_singleton.mp hoperation]
    exact trivial
  obtain ⟨-, -, hperform⟩ := manifest_handed_out_iff_finished regular_smallProject hreachable
  obtain ⟨-, -, hcompleted⟩ := hperform smallLoad isPlain_smallLoad _ rfl
  rw [← hlast] at hcompleted ⊢
  exact ⟨hpending.1, hcompleted hpending.1 hpending.2.1 hpending.2.2⟩

end FontHosting.Session
