import FontHosting.Proofs.Session.Isolation

/-!
# What a module imports

The imports of a module are those of the text of it that was transformed last.  Requests,
changed files and other modules may mark them, but neither add, take away nor rename any.
So as long as no operation `Replaces` the imports of a module, their names stay what the
text gave them (`importNames_later`), and in every session they are those of some text
(`Reachable.exists_text`).
-/

namespace FontHosting.Session

open FontCall (Refusal Transformed)
open Stylesheet (BelongsTo Collection HasRepeatedMark Loaded Request key?)

variable {project : Project} {session before after : Session}
  {dropped : String → Loaded → Prop} {module : String}

/-! ## The names of imports -/

/-- The name and the key of an import. -/
def Record.name (record : Record) : String × String :=
  (record.specifier, record.key)

/-- The names and keys of what a module imports, in order. -/
def importNames (session : Session) (module : String) : List (String × String) :=
  ((session.records.get? module).getD []).map Record.name

/-- Names with their keys. -/
def namesOf (specifiers : List String) : List (String × String) :=
  specifiers.filterMap fun specifier => (key? specifier).map (Prod.mk specifier)

theorem mem_importNames {name : String × String} :
    name ∈ session.importNames module ↔
      ∃ record, session.HasRecord module record ∧ record.name = name := by
  unfold importNames HasRecord
  cases session.records.get? module <;> simp

/-- A change of the marks keeps the names. -/
theorem importNames_of_map {change : Record → Record}
    (hname : ∀ record, (change record).name = record.name)
    (h : after.records.get? module = (before.records.get? module).map (List.map change)) :
    after.importNames module = before.importNames module := by
  unfold importNames
  rw [h]
  cases before.records.get? module with
  | none => rfl
  | some records =>
      simp only [Option.map_some, Option.getD_some, List.map_map]
      exact List.map_congr_left fun record _ => hname record

theorem Waits.importNames (h : Waits before after dropped) (module : String) :
    after.importNames module = before.importNames module := by
  refine importNames_of_map ?_ (h module)
  exact fun _ => rfl

theorem importNames_mark {isResolved : Bool} {keys : List String} :
    (session.mark isResolved keys).importNames module = session.importNames module := by
  refine importNames_of_map (fun record => ?_) get?_records_mark
  split <;> rfl

theorem importNames_settle {α : Type} (answer : α) :
    (session.settle answer).session.importNames module = session.importNames module := by
  unfold Session.settle
  split <;> rfl

theorem map_name_currentImports (session : Session) (specifiers : List String) :
    (session.currentImports specifiers).map Record.name = namesOf specifiers := by
  unfold currentImports namesOf recordOf?
  rw [List.map_filterMap]
  refine List.filterMap_congr fun specifier _ => ?_
  rw [Option.map_map]
  rfl

/-- **A module imports what its new text says**, whatever it imported before. -/
theorem importNames_recordImports (session : Session) (module : String)
    (specifiers : List String) :
    (session.recordImports module specifiers).session.importNames module =
      namesOf specifiers := by
  rw [recordImports_eq, importNames_settle, ← map_name_currentImports session]
  unfold importNames
  rw [get?_records_replaceImports, if_pos rfl]
  split
  · rename_i hnone
    rw [hnone]
    rfl
  · rfl

/-- Whatever a request comes to, the names of imports stay. -/
theorem importNames_load (hregular : project.Regular) (world : Loader.World)
    (session : Session) (request : Request) :
    (session.load project world request).session.importNames module =
      session.importNames module := by
  rcases load_cases hregular.confined world session request with ⟨collection, answer, -, hload⟩ |
    ⟨key, loaded, collection, answer, -, hload⟩
  · rw [hload]
    rfl
  · rw [hload]
    by_cases himported : ({ session with collection }).isImported key = true
    · rw [receive_of_isImported himported]
      have hmark : (({ session with collection }).mark true [key]).importNames module =
          session.importNames module :=
        importNames_mark
      exact (importNames_settle ()).trans hmark
    · rw [receive_of_not_isImported himported]
      rfl

/-! ## Transformations that are answered -/

/-- A transformation that is answered leaves the session as it is if the file is no script, and
else gives the module the imports of its text. -/
theorem transform_of_ok {id source : String} {transformed? : Option Transformed}
    (h : (session.transform project id source).answer = .ok transformed?) :
    (isScript (project.moduleId id) = false ∧ transformed? = none ∧
      session.transform project id source = session.answering (.ok none)) ∨
    (isScript (project.moduleId id) = true ∧
      FontCall.transform project.calls (project.moduleId id) (project.moduleId id) source =
        .ok transformed? ∧
      session.transform project id source =
        ⟨(session.recordImports (project.moduleId id) (importsOf transformed?)).session,
          .ok transformed?,
          (session.recordImports (project.moduleId id) (importsOf transformed?)).completed⟩) := by
  unfold transform at h ⊢
  dsimp only at h ⊢
  split at h
  · rename_i hscript
    rw [if_pos hscript]
    exact Or.inl ⟨by simpa using hscript, (Except.ok.inj h).symm, rfl⟩
  · rename_i hscript
    rw [if_neg hscript]
    split at h
    · cases h
    · rename_i found htransform
      obtain rfl := Except.ok.inj h
      rw [htransform]
      exact Or.inr ⟨by simpa using hscript, rfl, rfl⟩

/-- A script whose font calls are in order is answered in every session. -/
theorem transform_of_isScript (session : Session) {id source : String}
    {transformed? : Option Transformed} (hscript : isScript (project.moduleId id) = true)
    (h : FontCall.transform project.calls (project.moduleId id) (project.moduleId id) source =
      .ok transformed?) :
    session.transform project id source =
      ⟨(session.recordImports (project.moduleId id) (importsOf transformed?)).session,
        .ok transformed?,
        (session.recordImports (project.moduleId id) (importsOf transformed?)).completed⟩ := by
  unfold transform
  dsimp only
  rw [h, if_neg (by simpa using hscript)]
  rfl

/-! ## Operations that keep the imports -/

/-- The operations that give a module other imports: it is transformed and answered, or
removed, or all is forgotten. -/
def Operation.Replaces (project : Project) (session : Session) (module : String) :
    Operation → Prop
  | .transform id source => project.moduleId id = module ∧
      (session.transform project id source).answer.isOk = true
  | .removeModule id => project.moduleId id = module
  | .reset => True
  | .load .. | .invalidateModule _ | .invalidateFontFile _ => False

/-- **Only the operations that replace the imports of a module change their names.** -/
theorem importNames_perform (hregular : project.Regular) (hfiled : Filed session)
    {operation : Operation} (h : ¬ operation.Replaces project session module) :
    (session.perform project operation).session.importNames module =
      session.importNames module := by
  have hother : ∀ {other : String} {specifiers : List String}, other ≠ module →
      (session.recordImports other specifiers).session.importNames module =
        session.importNames module := by
    intro other specifiers hne
    unfold importNames
    rw [records_recordImports hne.symm]
  cases operation with
  | transform id source =>
      simp only [Session.perform]
      cases hanswer : (session.transform project id source).answer with
      | error refusal =>
          rcases transform_answers hregular session id source with ⟨-, hsame⟩ | ⟨_, hsame⟩ |
            ⟨-, _, -, hrecorded⟩
          · rw [hsame]
            rfl
          · rw [hsame]
            rfl
          · rw [hrecorded] at hanswer
            cases hanswer
      | ok transformed? =>
          have hne : project.moduleId id ≠ module := by
            intro hmodule
            exact h ⟨hmodule, by rw [hanswer]; rfl⟩
          rcases transform_of_ok hanswer with ⟨-, -, hsame⟩ | ⟨-, -, hrecorded⟩
          · rw [hsame]
            rfl
          · rw [hrecorded]
            exact hother hne
  | load world request => exact importNames_load hregular world session request
  | invalidateModule id => exact (waits_invalidateModule hfiled id).importNames module
  | invalidateFontFile file => exact (waits_invalidateFontFile hfiled file).importNames module
  | removeModule id => exact hother h
  | reset => exact absurd trivial h

/-- One operation, which a condition on the session allows. -/
def Step (project : Project) (allowed : Session → Operation → Prop) (before after : Session) :
    Prop :=
  ∃ operation, Operation.IsPlain operation ∧ allowed before operation ∧
    after = (before.perform project operation).session

/-- A sequence of allowed operations. -/
abbrev Later (project : Project) (allowed : Session → Operation → Prop) :
    Session → Session → Prop :=
  Relation.ReflTransGen (Step project allowed)

theorem Reachable.transform (h : Reachable project session) (id source : String) :
    Reachable project (session.transform project id source).session := by
  have hstep := Reachable.step (.transform id source) h trivial
  simp only [Session.perform] at hstep
  exact hstep

theorem Reachable.load (h : Reachable project session) (world : Loader.World) {request : Request}
    (hplain : ¬ HasRepeatedMark request.id) :
    Reachable project (session.load project world request).session := by
  have hstep := Reachable.step (.load world request) h hplain
  simp only [Session.perform] at hstep
  exact hstep

theorem Reachable.later {allowed : Session → Operation → Prop}
    (hreachable : Reachable project before) (h : Later project allowed before after) :
    Reachable project after := by
  induction h with
  | refl => exact hreachable
  | tail _ hstep ih =>
      obtain ⟨operation, hplain, -, rfl⟩ := hstep
      exact .step operation ih hplain

/-- A build goes on with an allowed operation. -/
theorem Later.append {allowed : Session → Operation → Prop} {operations : List Operation}
    (h : Later project allowed before (built project operations)) (last : Operation)
    (hplain : last.IsPlain) (hallowed : allowed (built project operations) last) :
    Later project allowed before (built project (operations ++ [last])) :=
  h.tail ⟨last, hplain, hallowed, built_append project operations last⟩

theorem importNames_later (hregular : project.Regular) (hreachable : Reachable project before)
    (h : Later project (fun session operation => ¬ operation.Replaces project session module)
      before after) :
    after.importNames module = before.importNames module := by
  induction h with
  | refl => rfl
  | tail hpath hstep ih =>
      obtain ⟨operation, -, hkeeps, rfl⟩ := hstep
      rw [importNames_perform hregular ((hreachable.later hpath).filed hregular) hkeeps, ih]

/-- **The imports of a module are those of a text of it.** -/
theorem Reachable.exists_text (hregular : project.Regular)
    (hreachable : Reachable project session) (module : String) :
    session.importNames module = [] ∨ ∃ source transformed,
      FontCall.transform project.calls module module source = .ok (some transformed) ∧
        session.importNames module = namesOf transformed.imports := by
  induction hreachable with
  | new => exact Or.inl rfl
  | @step session operation hbefore _ ih =>
      have hkept : ¬ operation.Replaces project session module →
          (session.perform project operation).session.importNames module =
            session.importNames module :=
        importNames_perform hregular (hbefore.filed hregular)
      cases operation with
      | transform id source =>
          by_cases hreplaces :
              (Operation.transform id source).Replaces project session module
          · obtain ⟨rfl, hok⟩ := hreplaces
            cases hanswer : (session.transform project id source).answer with
            | error refusal =>
                rw [hanswer] at hok
                cases hok
            | ok transformed? =>
                simp only [Session.perform]
                rcases transform_of_ok hanswer with ⟨-, -, hsame⟩ | ⟨-, htext, hrecorded⟩
                · rw [hsame]
                  exact ih
                · rw [hrecorded]
                  dsimp only
                  rw [importNames_recordImports]
                  cases transformed? with
                  | none => exact Or.inl rfl
                  | some transformed => exact Or.inr ⟨source, transformed, htext, rfl⟩
          · rw [hkept hreplaces]
            exact ih
      | load world request =>
          rw [hkept not_false]
          exact ih
      | invalidateModule id =>
          rw [hkept not_false]
          exact ih
      | invalidateFontFile file =>
          rw [hkept not_false]
          exact ih
      | removeModule id =>
          by_cases hmodule : project.moduleId id = module
          · subst hmodule
            exact Or.inl (importNames_recordImports session _ [])
          · rw [hkept hmodule]
            exact ih
      | reset => exact Or.inl rfl

end FontHosting.Session
