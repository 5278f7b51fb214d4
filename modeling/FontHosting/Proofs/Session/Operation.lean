import FontHosting.Loader.Unconnected
import FontHosting.Proofs.FontCall.Specifier
import FontHosting.Proofs.Session.Retraction
import FontHosting.Session.Importing
import FontHosting.Session.Invalidation
import FontHosting.Session.Loading

/-!
# Operations of a session

A build is a sequence of operations on a new session.  Every request for a stylesheet
comes with a world of its own, so files and downloads may differ from one request to
the next.  The sessions that such sequences lead to are the `Reachable` ones, and what
is said about them elsewhere is said by induction on the sequence.

For that, the lemmas of this file say once what each operation does:

* `transform_cases` and `recordImports_eq`, for modules that are transformed or removed;
* `load_cases`, for requests: a stylesheet is received, or nothing but files in the store
  and downloads in the caches remains of it;
* `invalidateModule_eq` and `invalidateFontFile_eq`, for changed files.
-/

namespace FontHosting

open Loader (NamesByContent)
open Stylesheet (BelongsTo Collection HasRepeatedMark Loaded Request key?)

/-! ## Sequences of operations -/

/-- An operation of a session, with what it is given. -/
inductive Session.Operation where
  | transform (id source : String)
  | load (world : Loader.World) (request : Request)
  | invalidateModule (id : String)
  | invalidateFontFile (file : String)
  | removeModule (id : String)
  | reset

namespace Session

/-- The session after an operation, and the manifest if the operation finished it. -/
def perform (project : Project) (session : Session) : Operation → Outcome Unit
  | .transform id source =>
      let outcome := session.transform project id source
      ⟨outcome.session, (), outcome.completed⟩
  | .load world request =>
      let outcome := session.load project world request
      ⟨outcome.session, (), outcome.completed⟩
  | .invalidateModule id => (session.invalidateModule project id).1.answering ()
  | .invalidateFontFile file => (session.invalidateFontFile file).1.answering ()
  | .removeModule id =>
      let outcome := session.removeModule project id
      ⟨outcome.session, (), outcome.completed⟩
  | .reset => session.reset.answering ()

/-- A request names its stylesheet without a second `?` directly behind the first one. -/
def Operation.IsPlain : Operation → Prop
  | .load _ request => ¬ HasRepeatedMark request.id
  | _ => True

end Session

/-- A project whose loader modules have no `?` in their names, and whose loaders act through
the functions of their calls only, as those of the library do.  Other names of the loader
modules are free, since they stand for loader modules. -/
structure Project.Regular (project : Project) : Prop where
  confined : project.setup.Confined
  unmarked : ∀ loader ∈ project.calls.loaders, '?' ∉ loader.toList

namespace Session

/-- The session after a sequence of operations. -/
def built (project : Project) (operations : List Operation) : Session :=
  operations.foldl (fun session operation => (session.perform project operation).session) empty

theorem built_append (project : Project) (operations : List Operation) (last : Operation) :
    built project (operations ++ [last]) =
      ((built project operations).perform project last).session := by
  unfold built
  rw [List.foldl_append]
  rfl

theorem built_transform (project : Project) (operations : List Operation) (id source : String) :
    built project (operations ++ [.transform id source]) =
      ((built project operations).transform project id source).session := by
  rw [built_append]
  simp only [perform]

theorem built_load (project : Project) (operations : List Operation) (world : Loader.World) (request : Request) :
    built project (operations ++ [.load world request]) =
      ((built project operations).load project world request).session := by
  rw [built_append]
  simp only [perform]

/-- The sessions that sequences of operations lead to. -/
inductive Reachable (project : Project) : Session → Prop where
  | new : Reachable project Session.empty
  | step {session : Session} (operation : Operation) (hreachable : Reachable project session)
      (hplain : operation.IsPlain) :
      Reachable project (session.perform project operation).session

/-- Every sequence of plain operations leads to a reachable session. -/
theorem reachable_built (project : Project) {operations : List Operation}
    (hplain : ∀ operation ∈ operations, operation.IsPlain) :
    Reachable project (built project operations) := by
  have hfold : ∀ session, Reachable project session →
      Reachable project (operations.foldl
        (fun session operation => (session.perform project operation).session) session) := by
    induction operations with
    | nil => exact fun _ hsession => hsession
    | cons operation rest ih =>
        intro session hsession
        exact ih (fun other hother => hplain other (List.mem_cons_of_mem _ hother)) _
          (.step operation hsession (hplain operation List.mem_cons_self))
  exact hfold empty .new

/-! ## A small build

One font call, with a loader that emits one file to be loaded early. -/

/-- A project with one loader, which does what it is told. -/
def smallProject : Project :=
  let script : Loader.Scripted := {
    output := ⟨"@font-face \x7b font-family: a; src: url(\x7burl0\x7d) \x7d", [], none, none, none, none⟩
    files := [⟨[], "woff2", true, false⟩]
    resolved := []
    errors := []
    failure := none }
  { setup := {
      root := ""
      isDev := true
      minify := false
      base := ⟨""⟩
      loaders := fun _ => some ⟨script.loader, false⟩ }
    calls := ⟨[LoaderKind.google.module], Table.empty⟩ }

/-- The key of the stylesheet that the small project has. -/
def smallKey : String :=
  "next-font/google/target.css?path=a.js&import=A&arguments=%5B%5D&variableName=a"

/-- The module with the call is transformed. -/
def smallTransform : Operation :=
  .transform "a.js" "import {A} from \"next-font/google\";const a = A();"

/-- The stylesheet of the call is made. -/
def smallLoad : Operation :=
  .load .unconnected ⟨smallKey, "client", false⟩

/-- The build of the small project. -/
def smallBuild : List Operation :=
  [smallTransform, smallLoad]

theorem regular_smallProject : smallProject.Regular := by
  refine ⟨fun kind registered hregistered => ?_, fun loader hloader => ?_⟩
  · obtain rfl := Option.some_inj.mp hregistered
    exact Loader.confined_scripted _
  · rw [List.mem_singleton.mp hloader]
    decide

/-- The name of the file that the small build emits. -/
def smallAsset : String := "static/media/e3b0c44298fc1c14.p.woff2"

/-! ## Records -/

/-- A module has the record of an import. -/
def HasRecord (session : Session) (module : String) (record : Record) : Prop :=
  ∃ records, session.records.get? module = some records ∧ record ∈ records

variable {session : Session} {project : Project}

theorem mem_allRecords {record : Record} :
    record ∈ session.allRecords ↔ ∃ module, session.HasRecord module record := by
  unfold allRecords HasRecord
  simp only [List.mem_flatten, Table.mem_values_iff]
  constructor
  · rintro ⟨records, ⟨module, hget⟩, hmem⟩
    exact ⟨module, records, hget, hmem⟩
  · rintro ⟨module, records, hget, hmem⟩
    exact ⟨records, ⟨module, hget⟩, hmem⟩

theorem isImported_iff {key : String} :
    session.isImported key = true ↔
      ∃ module record, session.HasRecord module record ∧ record.key = key := by
  unfold isImported
  simp only [List.any_eq_true, mem_allRecords, beq_iff_eq]
  constructor
  · rintro ⟨record, ⟨module, hrecord⟩, hkey⟩
    exact ⟨module, record, hrecord, hkey⟩
  · rintro ⟨module, record, hrecord, hkey⟩
    exact ⟨record, ⟨module, hrecord⟩, hkey⟩

theorem pending_eq_zero_iff :
    session.pending = 0 ↔
      ∀ module record, session.HasRecord module record → record.isResolved = true := by
  unfold pending
  rw [List.length_eq_zero_iff, List.filter_eq_nil_iff]
  simp only [mem_allRecords, Bool.not_eq_true', Bool.not_eq_false]
  constructor
  · intro h module record hrecord
    exact h record ⟨module, hrecord⟩
  · rintro h record ⟨module, hrecord⟩
    exact h module record hrecord

theorem get?_records_mark {isResolved : Bool} {keys : List String} {module : String} :
    (session.mark isResolved keys).records.get? module =
      (session.records.get? module).map fun records => records.map fun record =>
        if keys.contains record.key then { record with isResolved } else record :=
  Table.get?_map _ _ _

theorem hasRecord_mark {isResolved : Bool} {keys : List String} {module : String}
    {record : Record} : (session.mark isResolved keys).HasRecord module record ↔
      ∃ old, session.HasRecord module old ∧
        record = if keys.contains old.key then { old with isResolved } else old := by
  unfold HasRecord
  simp only [get?_records_mark, Option.map_eq_some_iff]
  constructor
  · rintro ⟨_, ⟨records, hget, rfl⟩, hmem⟩
    obtain ⟨old, hold, rfl⟩ := List.mem_map.mp hmem
    exact ⟨old, ⟨records, hget, hold⟩, rfl⟩
  · rintro ⟨old, ⟨records, hget, hold⟩, rfl⟩
    exact ⟨_, ⟨records, hget, rfl⟩, List.mem_map.mpr ⟨old, hold, rfl⟩⟩

/-- A mark does not change the key of an import. -/
theorem hasRecord_mark_key {isResolved : Bool} {keys : List String} {module : String}
    {record : Record} (h : (session.mark isResolved keys).HasRecord module record) :
    ∃ old, session.HasRecord module old ∧ record.key = old.key := by
  obtain ⟨old, hold, rfl⟩ := hasRecord_mark.mp h
  refine ⟨old, hold, ?_⟩
  split <;> rfl

theorem isImported_mark {isResolved : Bool} {keys : List String} {key : String} :
    (session.mark isResolved keys).isImported key = true ↔ session.isImported key = true := by
  rw [isImported_iff, isImported_iff]
  constructor
  · rintro ⟨module, record, hmarked, rfl⟩
    obtain ⟨old, hold, hkey⟩ := hasRecord_mark_key hmarked
    exact ⟨module, old, hold, hkey.symm⟩
  · rintro ⟨module, old, hold, rfl⟩
    refine ⟨module, _, hasRecord_mark.mpr ⟨old, hold, rfl⟩, ?_⟩
    split <;> rfl

/-! ## Replacing the imports of a module -/

/-- The imports of a module, as its new text has them. -/
def currentImports (session : Session) (specifiers : List String) : List Record :=
  specifiers.filterMap session.recordOf?

/-- The imports that a module had and has no more. -/
def ended (session : Session) (module : String) (specifiers : List String) : List Record :=
  endedImports ((session.records.get? module).getD []) (session.currentImports specifiers)

/-- A session in which the imports of a module are being replaced. -/
def openModule (session : Session) (module : String) (specifiers : List String) : Session :=
  { session with
    records := session.records.erase module
    isFinished := session.isFinished &&
      (session.currentImports specifiers).all Record.isResolved }

/-- A session in which what a module does not import any more was retracted. -/
def retractEnded (session : Session) (module : String) (specifiers : List String) : Session :=
  let current := session.currentImports specifiers
  let ended := session.ended module specifiers
  if ended.isEmpty && !current.isEmpty then session.openModule module specifiers
  else (session.openModule module specifiers).retract module (ended.map Record.key) current.isEmpty

/-- A session in which the imports of a module were replaced, before it is settled. -/
def replaceImports (session : Session) (module : String) (specifiers : List String) : Session :=
  let current := session.currentImports specifiers
  let retracted := session.retractEnded module specifiers
  if current.isEmpty then retracted
  else { retracted with records := retracted.records.insert module current }

theorem recordImports_eq (module : String) (specifiers : List String) :
    session.recordImports module specifiers =
      (session.replaceImports module specifiers).settle
        ((session.ended module specifiers).map Record.specifier) :=
  rfl

theorem mem_currentImports {specifiers : List String} {record : Record} :
    record ∈ session.currentImports specifiers ↔
      ∃ specifier ∈ specifiers, ∃ key, key? specifier = some key ∧
        ⟨specifier, key, session.collection.contains key⟩ = record := by
  unfold currentImports recordOf?
  simp only [List.mem_filterMap, Option.map_eq_some_iff]

theorem mem_ended {module : String} {specifiers : List String} {record : Record} :
    record ∈ session.ended module specifiers ↔ session.HasRecord module record ∧
      ∀ other ∈ session.currentImports specifiers, other.key ≠ record.key := by
  have hprevious : record ∈ (session.records.get? module).getD [] ↔
      session.HasRecord module record := by
    unfold HasRecord
    cases session.records.get? module <;> simp
  unfold ended endedImports
  simp only [List.mem_filter, hprevious, Bool.not_eq_true', List.any_eq_false, beq_iff_eq]

theorem records_retractEnded {module : String} {specifiers : List String} :
    (session.retractEnded module specifiers).records = session.records.erase module := by
  unfold retractEnded
  dsimp only
  split
  · rfl
  · exact records_retract

theorem get?_records_replaceImports {module : String} {specifiers : List String} {other : String} :
    (session.replaceImports module specifiers).records.get? other =
      if other = module then
        if session.currentImports specifiers = [] then none
        else some (session.currentImports specifiers)
      else session.records.get? other := by
  unfold replaceImports
  dsimp only
  split
  · rename_i hempty
    rw [records_retractEnded, Table.get?_erase, if_pos (List.isEmpty_iff.mp hempty)]
  · rename_i hempty
    rw [Table.get?_insert, records_retractEnded, Table.get?_erase,
      if_neg fun h => hempty (List.isEmpty_iff.mpr h)]
    split <;> rfl

theorem hasRecord_replaceImports {module : String} {specifiers : List String} {other : String}
    {record : Record} : (session.replaceImports module specifiers).HasRecord other record ↔
      if other = module then record ∈ session.currentImports specifiers
      else session.HasRecord other record := by
  unfold HasRecord
  rw [get?_records_replaceImports]
  by_cases hother : other = module
  · rw [if_pos hother, if_pos hother]
    by_cases hcurrent : session.currentImports specifiers = [] <;> simp [hcurrent]
  · rw [if_neg hother, if_neg hother]

theorem isFinished_replaceImports {module : String} {specifiers : List String} :
    (session.replaceImports module specifiers).isFinished =
      (session.isFinished && (session.currentImports specifiers).all Record.isResolved) := by
  have hretracted : (session.retractEnded module specifiers).isFinished =
      (session.isFinished && (session.currentImports specifiers).all Record.isResolved) := by
    unfold retractEnded
    dsimp only
    split
    · rfl
    · exact isFinished_retract
  unfold replaceImports
  dsimp only
  split <;> exact hretracted

theorem collection_replaceImports {module : String} {specifiers : List String} :
    (session.replaceImports module specifiers).collection =
      (session.retractEnded module specifiers).collection := by
  unfold replaceImports
  dsimp only
  split <;> rfl

theorem manifest_replaceImports {module : String} {specifiers : List String} :
    (session.replaceImports module specifiers).manifest =
      (session.retractEnded module specifiers).manifest := by
  unfold replaceImports
  dsimp only
  split <;> rfl

theorem drop_replaceImports {module : String}
    (hkeys : ∀ record, session.HasRecord module record → key? record.key = some record.key)
    (specifiers : List String) :
    Drop ((session.ended module specifiers).map Record.key) session.collection
      (session.replaceImports module specifiers).collection := by
  rw [collection_replaceImports]
  unfold retractEnded
  dsimp only
  split
  · rename_i hempty
    have hnone := List.isEmpty_iff.mp (Bool.and_eq_true_iff.mp hempty).1
    rw [hnone]
    exact Drop.nil
  · refine drop_retract (session.openModule module specifiers) ?_ _ _
    intro key hkey
    obtain ⟨record, hrecord, rfl⟩ := List.mem_map.mp hkey
    exact hkeys record (mem_ended.mp hrecord).1

/-- What a stylesheet of the module still has stays listed, unless the module imports
nothing any more. -/
theorem lists_replaceImports {module : String}
    (hkeys : ∀ record, session.HasRecord module record → key? record.key = some record.key)
    {specifiers : List String} {path asset : String}
    (hlists : session.manifest.Lists path asset)
    (hasset : (session.replaceImports module specifiers).collection.HasAsset path asset)
    (hcurrent : path = module → session.currentImports specifiers ≠ []) :
    (session.replaceImports module specifiers).manifest.Lists path asset := by
  rw [collection_replaceImports] at hasset
  rw [manifest_replaceImports]
  unfold retractEnded at hasset ⊢
  dsimp only at hasset ⊢
  split
  · exact hlists
  · rename_i hended
    rw [if_neg hended] at hasset
    by_cases hclears : (session.openModule module specifiers).Clears module
        ((session.ended module specifiers).map Record.key)
        (session.currentImports specifiers).isEmpty
    · refine (lists_retract_of_clears hclears).mpr ⟨hlists, ?_⟩
      rintro rfl
      rw [Bool.eq_false_iff.mpr fun h => hcurrent rfl (List.isEmpty_iff.mp h)] at hasset hclears
      exact not_clears hasset hclears
    · refine (lists_retract ?_ hclears).mpr ⟨hlists, fun _ => hasset⟩
      intro key hkey
      obtain ⟨record, hrecord, rfl⟩ := List.mem_map.mp hkey
      exact hkeys record (mem_ended.mp hrecord).1

/-- The imports of a transformed module are those of its calls. -/
theorem belongsTo_of_transform (hregular : project.Regular) {module path source : String}
    {transformed : FontCall.Transformed}
    (h : FontCall.transform project.calls module path source = .ok (some transformed)) :
    ∀ specifier ∈ transformed.imports, ∀ key, key? specifier = some key →
      BelongsTo key module := by
  intro specifier hspecifier key hkey
  obtain ⟨id, rfl, rfl, hloader⟩ := FontCall.isName_of_transform h specifier hspecifier
  exact Stylesheet.belongsTo_key_render (hregular.unmarked id.loader hloader) hkey

/-- The imports that the transformation of a module gives it. -/
def importsOf (transformed? : Option FontCall.Transformed) : List String :=
  (transformed?.map FontCall.Transformed.imports).getD []

/-- **What the transformation of a module answers**: nothing for a file that is no script, a
refusal that leaves the session as it is, or the imports that the module has from now on. -/
theorem transform_eq (project : Project) (session : Session) (id source : String) :
    (isScript (project.moduleId id) = false ∧
      session.transform project id source = session.answering (.ok none)) ∨
    (∃ refusal, session.transform project id source = session.answering (.error refusal)) ∨
    isScript (project.moduleId id) = true ∧ ∃ transformed?,
      FontCall.transform project.calls (project.moduleId id) (project.moduleId id) source =
        .ok transformed? ∧
      session.transform project id source =
        ⟨(session.recordImports (project.moduleId id) (importsOf transformed?)).session,
          .ok transformed?,
          (session.recordImports (project.moduleId id) (importsOf transformed?)).completed⟩ := by
  unfold transform
  dsimp only
  split
  · rename_i hscript
    exact Or.inl ⟨by simpa using hscript, rfl⟩
  · rename_i hscript
    split
    · exact Or.inr (Or.inl ⟨_, rfl⟩)
    · rename_i transformed? htransform
      exact Or.inr (Or.inr ⟨by simpa using hscript, transformed?, htransform, rfl⟩)

/-- The imports that a module has from now on are those of its calls. -/
theorem transform_answers (hregular : project.Regular) (session : Session) (id source : String) :
    (isScript (project.moduleId id) = false ∧
      session.transform project id source = session.answering (.ok none)) ∨
    (∃ refusal, session.transform project id source = session.answering (.error refusal)) ∨
    isScript (project.moduleId id) = true ∧ ∃ transformed?,
      (∀ specifier ∈ importsOf transformed?, ∀ key, key? specifier = some key →
        BelongsTo key (project.moduleId id)) ∧
      session.transform project id source =
        ⟨(session.recordImports (project.moduleId id) (importsOf transformed?)).session,
          .ok transformed?,
          (session.recordImports (project.moduleId id) (importsOf transformed?)).completed⟩ := by
  rcases transform_eq project session id source with hnone | hrefused |
    ⟨hscript, transformed?, htransform, hsame⟩
  · exact Or.inl hnone
  · exact Or.inr (Or.inl hrefused)
  · refine Or.inr (Or.inr ⟨hscript, transformed?, ?_, hsame⟩)
    cases transformed? with
    | none => exact fun _ hspecifier => absurd hspecifier List.not_mem_nil
    | some transformed => exact belongsTo_of_transform hregular htransform

/-- **What the transformation of a module can come to**: nothing, or its imports are
replaced by those of its calls. -/
theorem transform_cases (hregular : project.Regular) (session : Session) (id source : String) :
    (∃ answer, session.transform project id source = session.answering answer) ∨
    ∃ specifiers answer,
      (∀ specifier ∈ specifiers, ∀ key, key? specifier = some key →
        BelongsTo key (project.moduleId id)) ∧
      session.transform project id source =
        ⟨(session.recordImports (project.moduleId id) specifiers).session, answer,
          (session.recordImports (project.moduleId id) specifiers).completed⟩ := by
  rcases transform_answers hregular session id source with ⟨-, hsame⟩ | ⟨_, hsame⟩ |
    ⟨-, transformed?, hspecifiers, hsame⟩
  · exact Or.inl ⟨_, hsame⟩
  · exact Or.inl ⟨_, hsame⟩
  · exact Or.inr ⟨_, _, hspecifiers, hsame⟩

/-! ## Requests -/

/-- The stylesheet of a request is in the collection: it was made just now, or it was there
already. -/
structure Holds (project : Project) (request : Request) (before after : Collection)
    (key : String) (loaded : Loaded) : Prop where
  isKey : key? request.id = some key
  stylesheets : ∀ other, after.stylesheets.get? other =
    if other = key then some loaded else before.stylesheets.get? other
  environments : ∀ seen, seen ∈ after.environments ↔
    seen ∈ before.environments ∨ seen = (key, request.environment)
  keeps : ∀ url, before.store.contains url = true → after.store.contains url = true
  names : NamesByContent project.setup.base before.store →
    NamesByContent project.setup.base after.store
  source : before.stylesheets.get? key = some loaded ∨
    Collection.MadeFor project.setup request after key loaded

theorem Holds.get? {request : Request} {before after : Collection} {key : String}
    {loaded : Loaded} (h : Holds project request before after key loaded) :
    after.stylesheets.get? key = some loaded := by
  rw [h.stylesheets, if_pos rfl]

/-- A session with a stylesheet whose imports were waiting for it. -/
def resolveImports (session : Session) (key : String) (loaded : Loaded) : Session :=
  { session.mark true [key] with
    manifest := session.manifest.record loaded.module loaded.assets }

/-- A session without a stylesheet that no module imports. -/
def discard (session : Session) (key : String) : Session :=
  (session.drop [key]).1.releaseUrls (session.drop [key]).2

/-- A stylesheet that is discarded is dropped with the files that no other one refers to. -/
theorem drop_discard_key (session : Session) {key : String} (hkey : key? key = some key) :
    Drop [key] session.collection (session.discard key).collection := by
  refine Session.drop_discard session fun other hother => ?_
  rw [List.mem_singleton.mp hother]
  exact hkey

/-- The stylesheet of a request that nobody waits for is discarded. -/
theorem Holds.drop_discard {request : Request} {before collection : Collection} {key : String}
    {loaded : Loaded} (h : Holds project request before collection key loaded) :
    Drop [key] collection (({ session with collection }).discard key).collection :=
  drop_discard_key { session with collection } (Stylesheet.key?_key h.isKey)

theorem collection_settle {α : Type} (answer : α) :
    (session.settle answer).session.collection = session.collection := by
  unfold Session.settle
  split <;> rfl

theorem manifest_settle {α : Type} (answer : α) :
    (session.settle answer).session.manifest = session.manifest := by
  unfold Session.settle
  split <;> rfl

theorem reduces_replaceImports (session : Session) (module : String) (specifiers : List String) :
    session.manifest.Reduces (session.replaceImports module specifiers).manifest := by
  rw [manifest_replaceImports]
  unfold retractEnded
  dsimp only
  split
  · exact .refl _
  · exact reduces_retract (session.openModule module specifiers) _ _ _

theorem reduces_recordImports (session : Session) (module : String) (specifiers : List String) :
    session.manifest.Reduces (session.recordImports module specifiers).session.manifest := by
  rw [recordImports_eq, manifest_settle]
  exact reduces_replaceImports session module specifiers

theorem receive_of_isImported {key : String} (h : session.isImported key = true)
    (loaded : Loaded) :
    session.receive key loaded = (session.resolveImports key loaded).settle () := by
  unfold receive
  rw [if_pos h]
  rfl

theorem receive_of_not_isImported {key : String} (h : ¬ session.isImported key = true)
    (loaded : Loaded) : session.receive key loaded = (session.discard key).answering () := by
  unfold receive
  rw [if_neg h]
  rfl

/-- A stylesheet that is received is taken up by the manifest if anybody imports it. -/
theorem manifest_receive (session : Session) (key : String) (loaded : Loaded) :
    (session.receive key loaded).session.manifest =
      if session.isImported key = true then session.manifest.record loaded.module loaded.assets
      else session.manifest := by
  split
  · rename_i himported
    rw [receive_of_isImported himported, manifest_settle]
    rfl
  · rename_i himported
    rw [receive_of_not_isImported himported]
    rfl

theorem finishFound_eq {key : String} (hkey : key? key = some key) {loaded : Loaded}
    (hget : session.collection.stylesheets.get? key = some loaded) (target : Stylesheet.Module) :
    session.finishFound key target =
      ⟨(session.receive key loaded).session, .ok (some target),
        (session.receive key loaded).completed⟩ := by
  unfold finishFound
  rw [Collection.get?_of_isKey hkey, hget]

/-- A stylesheet that was kept is received. -/
theorem finish_kept {world : Loader.World} {request : Request} {collection : Collection}
    {key : String} {target : Stylesheet.Module}
    (hstart : session.collection.start project.setup world request =
      (collection, .kept key target)) :
    collection = session.collection ∧ ∃ loaded,
      Holds project request session.collection session.collection key loaded ∧
      session.finish request (.kept key target) =
        ⟨(session.receive key loaded).session, .ok (some target),
          (session.receive key loaded).completed⟩ := by
  obtain ⟨rfl, hkey, hseen, loaded, hget, -⟩ := Collection.kept_start hstart
  refine ⟨rfl, loaded, ?_, finishFound_eq (Stylesheet.key?_key hkey) hget target⟩
  refine ⟨hkey, fun other => ?_, fun seen => ?_, fun _ h => h, fun h => h, Or.inl hget⟩
  · by_cases hother : other = key
    · rw [if_pos hother, hother, hget]
    · rw [if_neg hother]
  · constructor
    · exact Or.inl
    · rintro (h | rfl)
      · exact h
      · exact hseen

/-- A stylesheet that was made is received. -/
theorem finish_made (hconfined : project.setup.Confined) {world : Loader.World} {request : Request}
    {collection : Collection} {key : String} {loaded : Loaded}
    (hstart : session.collection.start project.setup world request =
      (collection, .made key loaded)) :
    let kept := collection.keep key request.environment loaded
    Holds project request session.collection kept key loaded ∧
      ({ session with collection }).finish request (.made key loaded) =
        ⟨(({ session with collection := kept }).receive key loaded).session,
          .ok (some loaded.target),
          (({ session with collection := kept }).receive key loaded).completed⟩ := by
  have htaken := Collection.takenUp_start hconfined world session.collection request
  rw [hstart] at htaken
  have hmade := Collection.madeFor_start hconfined hstart
  have hget : (collection.keep key request.environment loaded).stylesheets.get? key =
      some loaded := (Table.get?_insert _ _ _ _).trans (if_pos rfl)
  refine ⟨⟨hmade.isKey, fun other => ?_, fun seen => ?_, htaken.keeps, htaken.names,
    Or.inr ⟨hmade.isKey, hmade.module, hmade.urls, hmade.stored⟩⟩,
    finishFound_eq (Stylesheet.key?_key hmade.isKey) hget loaded.target⟩
  · rw [← htaken.stylesheets]
    exact Table.get?_insert _ _ _ _
  · rw [← htaken.environments]
    exact Collection.mem_environments_keep

theorem load_eq {world : Loader.World} {request : Request} {collection : Collection}
    {started : Collection.Started}
    (hstart : session.collection.start project.setup world request = (collection, started)) :
    session.load project world request =
      ({ session with collection }).finish request started := by
  unfold load start
  rw [hstart]

/-- **What a request can come to**: nothing but what its loader left behind, or a stylesheet
that is received. -/
theorem load_cases (hconfined : project.setup.Confined) (world : Loader.World) (session : Session)
    (request : Request) :
    (∃ collection answer, Collection.TakenUp project.setup session.collection collection ∧
      session.load project world request = ({ session with collection }).answering answer) ∨
    ∃ key loaded collection answer,
      Holds project request session.collection collection key loaded ∧
      session.load project world request =
        ⟨(({ session with collection }).receive key loaded).session, answer,
          (({ session with collection }).receive key loaded).completed⟩ := by
  have htaken := Collection.takenUp_start hconfined world session.collection request
  cases hstart : session.collection.start project.setup world request with
  | mk collection started =>
      rw [hstart] at htaken
      cases started with
      | unknown => exact Or.inl ⟨collection, _, htaken, load_eq hstart⟩
      | failed failure => exact Or.inl ⟨collection, _, htaken, load_eq hstart⟩
      | kept key target =>
          obtain ⟨rfl, loaded, hholds, hfinish⟩ := finish_kept hstart
          exact Or.inr ⟨key, loaded, _, _, hholds, (load_eq hstart).trans hfinish⟩
      | made key loaded =>
          obtain ⟨hholds, hfinish⟩ := finish_made hconfined hstart
          exact Or.inr ⟨key, loaded, _, _, hholds, (load_eq hstart).trans hfinish⟩

/-- **What a request that is answered comes to**: nothing, or a stylesheet that is received and
whose files are all that the store has gained. -/
theorem load_answered (hconfined : project.setup.Confined) {world : Loader.World} {session : Session}
    {request : Request} {target? : Option Stylesheet.Module}
    (hanswer : (session.load project world request).answer = .ok target?) :
    session.load project world request = session.answering (.ok target?) ∨
    ∃ key loaded collection, Holds project request session.collection collection key loaded ∧
      (∀ url, collection.store.contains url = true →
        session.collection.store.contains url = true ∨ url ∈ loaded.urls) ∧
      session.load project world request =
        ⟨(({ session with collection }).receive key loaded).session, .ok target?,
          (({ session with collection }).receive key loaded).completed⟩ := by
  cases hstart : session.collection.start project.setup world request with
  | mk collection started =>
      rw [load_eq hstart] at hanswer ⊢
      cases started with
      | unknown =>
          obtain rfl := Collection.unknown_start hstart
          rw [← hanswer]
          exact Or.inl rfl
      | failed failure => cases hanswer
      | kept key target =>
          obtain ⟨rfl, loaded, hholds, hfinish⟩ := finish_kept hstart
          rw [hfinish] at hanswer ⊢
          rw [← hanswer]
          exact Or.inr ⟨key, loaded, _, hholds, fun url hurl => Or.inl hurl, rfl⟩
      | made key loaded =>
          obtain ⟨hholds, hfinish⟩ := finish_made hconfined hstart
          rw [hfinish] at hanswer ⊢
          rw [← hanswer]
          exact Or.inr ⟨key, loaded, _, hholds,
            fun url hurl => Collection.stored_of_start hconfined hstart hurl, rfl⟩

/-! ## Changed files -/

/-- A session in which the imports of a module wait for new stylesheets. -/
def reopenModule (session : Session) (module : String) (records : List Record) : Session :=
  { session with
    records := session.records.insert module
      (records.map fun record => { record with isResolved := false })
    isFinished := session.isFinished && records.isEmpty }

theorem hasRecord_reopenModule {module : String} {records : List Record} {other : String}
    {record : Record} : (session.reopenModule module records).HasRecord other record ↔
      if other = module then ∃ old ∈ records, { old with isResolved := false } = record
      else session.HasRecord other record := by
  unfold HasRecord reopenModule
  simp only [Table.get?_insert]
  split <;> simp

section
variable {module : String} {records : List Record}
  (hget : session.records.get? module = some records)
include hget

/-- An import that waits for a new stylesheet has the key that it had. -/
theorem hasRecord_reopenModule_key {other : String} {record : Record}
    (h : (session.reopenModule module records).HasRecord other record) :
    ∃ old, session.HasRecord other old ∧ record.key = old.key := by
  rw [hasRecord_reopenModule] at h
  split at h
  · rename_i hmodule
    obtain ⟨old, hold, rfl⟩ := h
    exact ⟨old, ⟨records, hmodule ▸ hget, hold⟩, rfl⟩
  · exact ⟨record, h, rfl⟩

theorem isImported_reopenModule {key : String} :
    (session.reopenModule module records).isImported key = true ↔
      session.isImported key = true := by
  rw [isImported_iff, isImported_iff]
  constructor
  · rintro ⟨other, record, hreopened, rfl⟩
    obtain ⟨old, hold, hkey⟩ := hasRecord_reopenModule_key hget hreopened
    exact ⟨other, old, hold, hkey.symm⟩
  · rintro ⟨other, old, hold, rfl⟩
    by_cases hother : other = module
    · obtain ⟨found, hfound, hmem⟩ := hold
      obtain rfl := Option.some_inj.mp (hget.symm.trans (hother ▸ hfound))
      refine ⟨other, { old with isResolved := false }, hasRecord_reopenModule.mpr ?_, rfl⟩
      rw [if_pos hother]
      exact ⟨old, hmem, rfl⟩
    · refine ⟨other, old, hasRecord_reopenModule.mpr ?_, rfl⟩
      rw [if_neg hother]
      exact hold

end

theorem invalidateModule_eq (project : Project) (session : Session) (id : String) :
    (session.records.get? (project.moduleId id) = none ∧
      (session.invalidateModule project id).1 = session) ∨
    ∃ records, session.records.get? (project.moduleId id) = some records ∧
      (session.invalidateModule project id).1 =
        (session.reopenModule (project.moduleId id) records).invalidate
          (records.map Record.key) := by
  unfold invalidateModule
  dsimp only
  cases session.records.get? (project.moduleId id) with
  | none => exact Or.inl ⟨rfl, rfl⟩
  | some records => exact Or.inr ⟨records, rfl, rfl⟩

/-- A session in which imports wait for new stylesheets. -/
def reopen (session : Session) (keys : List String) : Session :=
  { session.mark false keys with isFinished := false }

theorem invalidateFontFile_eq (session : Session) (file : String) :
    (session.collection.keysUsing file = [] ∧ (session.invalidateFontFile file).1 = session) ∨
    (session.collection.keysUsing file ≠ [] ∧ (session.invalidateFontFile file).1 =
      (session.reopen (session.collection.keysUsing file)).invalidate
        (session.collection.keysUsing file)) := by
  unfold invalidateFontFile
  dsimp only
  split
  · rename_i hempty
    exact Or.inl ⟨List.isEmpty_iff.mp hempty, rfl⟩
  · rename_i hempty
    exact Or.inr ⟨fun h => hempty (List.isEmpty_iff.mpr h), rfl⟩

theorem reduces_invalidateModule (session : Session) (id : String) :
    session.manifest.Reduces (session.invalidateModule project id).1.manifest := by
  rcases invalidateModule_eq project session id with ⟨-, hsame⟩ | ⟨records, -, hchanged⟩
  · rw [hsame]
    exact .refl _
  · rw [hchanged]
    exact reduces_invalidate (session.reopenModule _ records) _

theorem reduces_invalidateFontFile (session : Session) (file : String) :
    session.manifest.Reduces (session.invalidateFontFile file).1.manifest := by
  rcases invalidateFontFile_eq session file with ⟨-, hsame⟩ | ⟨-, hchanged⟩
  · rw [hsame]
    exact .refl _
  · rw [hchanged]
    exact reduces_invalidate (session.reopen _) _

end Session

end FontHosting
