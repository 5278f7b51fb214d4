import FontHosting.Proofs.Session.Operation

/-!
# What the loaders leave behind

The caches of the loaders, the loaders that were made and the log are the `Traces` of a
session.  Only a loader that runs looks at them or adds to them.  Everything else an operation
does is the same whatever they are, and leaves them as they are; both is said at once by saying
that it commutes with exchanging them (`Session.withTraces`).
-/

namespace FontHosting

open Stylesheet (Collection Failure Loaded Request key?)

namespace Stylesheet.Collection

/-- What the loaders left behind. -/
structure Traces where
  caches : LoaderKind → Loader.Caches
  constructed : List LoaderKind
  log : List Loader.Event

/-- What the loaders of a collection left behind. -/
def traces (collection : Collection) : Traces :=
  ⟨collection.caches, collection.constructed, collection.log⟩

/-- A collection with other traces. -/
def withTraces (collection : Collection) (traces : Traces) : Collection :=
  { collection with
    caches := traces.caches
    constructed := traces.constructed
    log := traces.log }

variable (collection : Collection) (traces : Traces)

theorem removeAll_withTraces (keys : List String) :
    (collection.withTraces traces).removeAll keys =
      ((collection.removeAll keys).1.withTraces traces, (collection.removeAll keys).2) := by
  induction keys generalizing collection with
  | nil => rfl
  | cons first rest ih =>
      have hremove : (collection.withTraces traces).remove first =
          ((collection.remove first).1.withTraces traces, (collection.remove first).2) := by
        unfold remove
        cases key? first <;> rfl
      unfold removeAll
      rw [hremove]
      dsimp only
      rw [ih]

end Stylesheet.Collection

namespace Session

open Stylesheet.Collection (Traces Started)

/-- A session with other traces. -/
def withTraces (session : Session) (traces : Traces) : Session :=
  { session with collection := session.collection.withTraces traces }

/-- An outcome whose session has other traces. -/
def Outcome.withTraces {α : Type} (outcome : Outcome α) (traces : Traces) : Outcome α :=
  { outcome with session := outcome.session.withTraces traces }

variable {project : Project} (session : Session) (traces : Traces)

theorem settle_withTraces {α : Type} (answer : α) :
    (session.withTraces traces).settle answer = (session.settle answer).withTraces traces := by
  have hcomplete : (session.withTraces traces).isComplete = session.isComplete := rfl
  unfold settle
  rw [hcomplete]
  split <;> rfl

/-! ## Retraction -/

theorem drop_withTraces (keys : List String) :
    (session.withTraces traces).drop keys =
      ((session.drop keys).1.withTraces traces, (session.drop keys).2) := by
  have hremove := session.collection.removeAll_withTraces traces keys
  unfold drop
  dsimp only [withTraces]
  rw [hremove]

theorem retract_withTraces (module : String) (keys : List String) (all : Bool) :
    (session.withTraces traces).retract module keys all =
      (session.retract module keys all).withTraces traces := by
  have hentries : ∀ collection : Collection,
      (collection.withTraces traces).entriesOf module = collection.entriesOf module :=
    fun _ => rfl
  unfold retract
  rw [drop_withTraces]
  dsimp only [withTraces]
  rw [hentries]
  split <;> rfl

theorem invalidate_withTraces (keys : List String) :
    (session.withTraces traces).invalidate keys =
      (session.invalidate keys).withTraces traces := by
  unfold invalidate
  rw [drop_withTraces]
  rfl

theorem discard_withTraces (key : String) :
    (session.withTraces traces).discard key = (session.discard key).withTraces traces := by
  unfold discard
  rw [drop_withTraces]
  rfl

/-! ## Modules -/

theorem replaceImports_withTraces (module : String) (specifiers : List String) :
    (session.withTraces traces).replaceImports module specifiers =
      (session.replaceImports module specifiers).withTraces traces := by
  have hcurrent : (session.withTraces traces).currentImports specifiers =
      session.currentImports specifiers := rfl
  have hended : (session.withTraces traces).ended module specifiers =
      session.ended module specifiers := rfl
  have hopen : (session.withTraces traces).openModule module specifiers =
      (session.openModule module specifiers).withTraces traces := rfl
  have hretracted : (session.withTraces traces).retractEnded module specifiers =
      (session.retractEnded module specifiers).withTraces traces := by
    unfold retractEnded
    rw [hcurrent, hended, hopen]
    dsimp only
    split
    · rfl
    · exact retract_withTraces _ traces module _ _
  unfold replaceImports
  rw [hcurrent, hretracted]
  dsimp only
  split <;> rfl

theorem recordImports_withTraces (module : String) (specifiers : List String) :
    (session.withTraces traces).recordImports module specifiers =
      (session.recordImports module specifiers).withTraces traces := by
  have hended : (session.withTraces traces).ended module specifiers =
      session.ended module specifiers := rfl
  rw [recordImports_eq, recordImports_eq, replaceImports_withTraces, hended, settle_withTraces]

theorem transform_withTraces (id source : String) :
    (session.withTraces traces).transform project id source =
      (session.transform project id source).withTraces traces := by
  unfold transform
  dsimp only
  split
  · rfl
  · split
    · rfl
    · rw [recordImports_withTraces]
      rfl

theorem removeModule_withTraces (id : String) :
    (session.withTraces traces).removeModule project id =
      (session.removeModule project id).withTraces traces :=
  session.recordImports_withTraces traces _ []

/-! ## Changed files -/

theorem invalidateModule_withTraces (id : String) :
    (session.withTraces traces).invalidateModule project id =
      ((session.invalidateModule project id).1.withTraces traces,
        (session.invalidateModule project id).2) := by
  have hrecords : (session.withTraces traces).records = session.records := rfl
  unfold invalidateModule
  rw [hrecords]
  dsimp only
  cases session.records.get? (project.moduleId id) with
  | none => rfl
  | some records =>
      exact Prod.ext
        ((session.reopenModule (project.moduleId id) records).invalidate_withTraces traces _) rfl

theorem invalidateFontFile_withTraces (file : String) :
    (session.withTraces traces).invalidateFontFile file =
      ((session.invalidateFontFile file).1.withTraces traces,
        (session.invalidateFontFile file).2) := by
  have hkeys : (session.withTraces traces).collection.keysUsing file =
      session.collection.keysUsing file := rfl
  unfold invalidateFontFile
  rw [hkeys]
  dsimp only
  split
  · rfl
  · exact Prod.ext
      ((session.reopen (session.collection.keysUsing file)).invalidate_withTraces traces _) rfl

/-! ## Requests -/

theorem receive_withTraces (key : String) (loaded : Loaded) :
    (session.withTraces traces).receive key loaded =
      (session.receive key loaded).withTraces traces := by
  have hresolve : (session.withTraces traces).resolveImports key loaded =
      (session.resolveImports key loaded).withTraces traces := rfl
  have himports : (session.withTraces traces).isImported key = session.isImported key := rfl
  by_cases himported : session.isImported key = true
  · rw [receive_of_isImported himported, receive_of_isImported (himports.trans himported),
      hresolve, settle_withTraces]
  · rw [receive_of_not_isImported himported,
      receive_of_not_isImported (fun h => himported (himports.symm.trans h)), discard_withTraces]
    rfl

theorem finishFound_withTraces (key : String) (target : Stylesheet.Module) :
    (session.withTraces traces).finishFound key target =
      (session.finishFound key target).withTraces traces := by
  have hget : (session.withTraces traces).collection.get? key = session.collection.get? key := rfl
  unfold finishFound
  rw [hget]
  cases session.collection.get? key with
  | none => rfl
  | some loaded =>
      dsimp only
      rw [receive_withTraces]
      rfl

/-- How a request ends does not depend on the traces. -/
theorem finish_withTraces (request : Request) (started : Started) :
    (session.withTraces traces).finish request started =
      (session.finish request started).withTraces traces := by
  cases started with
  | unknown => rfl
  | failed failure => rfl
  | kept key target => exact session.finishFound_withTraces traces key target
  | made key loaded =>
      let kept := { session with
        collection := session.collection.keep key request.environment loaded }
      exact kept.finishFound_withTraces traces key loaded.target

end Session

end FontHosting
