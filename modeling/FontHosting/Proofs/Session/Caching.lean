import FontHosting.Proofs.Session.Reference
import FontHosting.Proofs.Session.Traces
import FontHosting.Proofs.Stylesheet.Determined

/-!
# The caches of the loaders do not show

A loader keeps what it has downloaded for whoever asks next, even after a session was reset,
and hands it out once.  So what it asks the net for depends on the whole history, but in a
world that does not change nothing that a host is shown does: not the answer of any operation,
not the manifest that it hands out and not the `View` of the session after it.

The argument is a simulation.  Two sessions are `Twins` if they differ in their traces only,
and the caches of both are true.  Operations that run no loader commute with exchanging the
traces, and a loader comes to the same with any true caches (`Stylesheet.Collection.Alike`), so
every operation is answered alike by twins and makes twins of them (`Twins.respond`).  To empty
the caches ahead of a request also makes a twin (`Twins.emptyCaches`), and to forget all
makes a twin of the new session (`twins_reset`).
-/

namespace FontHosting

open Stylesheet (Collection Failure Request)

theorem Project.HasLibrary.isDetermined {project : Project} {catalog : Google.Catalog}
    (h : project.HasLibrary catalog) : project.setup.IsDetermined := by
  intro kind registered hregistered
  cases kind with
  | google => exact h.google registered hregistered ▸ Loader.isDetermined_google catalog
  | «local» => exact h.files registered hregistered ▸ Loader.isDetermined_local

namespace Session

open FontCall (Refusal Transformed)

/-! ## What a host is shown -/

/-- What an operation answers. -/
inductive Answer where
  | transformed (answer : Except Refusal (Option Transformed))
  | loaded (answer : Except Failure (Option Stylesheet.Module))
  /-- The imports that an operation has ended or keeps waiting. -/
  | imports (specifiers : List String)
  | done

/-- An operation with its answer. -/
def respond (project : Project) (session : Session) : Operation → Outcome Answer
  | .transform id source =>
      let outcome := session.transform project id source
      ⟨outcome.session, .transformed outcome.answer, outcome.completed⟩
  | .load world request =>
      let outcome := session.load project world request
      ⟨outcome.session, .loaded outcome.answer, outcome.completed⟩
  | .invalidateModule id =>
      let outcome := session.invalidateModule project id
      outcome.1.answering (.imports outcome.2)
  | .invalidateFontFile file =>
      let outcome := session.invalidateFontFile file
      outcome.1.answering (.imports outcome.2)
  | .removeModule id =>
      let outcome := session.removeModule project id
      ⟨outcome.session, .imports outcome.answer, outcome.completed⟩
  | .reset => session.reset.answering .done

/-- What is seen of a session without a look into its loaders. -/
structure View where
  records : Table (List Record)
  manifest : Manifest
  isFinished : Bool
  stylesheets : Table Stylesheet.Loaded
  environments : List (String × String)
  store : Asset.Store

/-- What is seen of a session. -/
def view (session : Session) : View where
  records := session.records
  manifest := session.manifest
  isFinished := session.isFinished
  stylesheets := session.collection.stylesheets
  environments := session.collection.environments
  store := session.collection.store

/-- What an operation shows. -/
structure Reply where
  answer : Answer
  /-- The manifest, if the operation finished the session. -/
  completed : Option Manifest
  view : View

/-- What the operations of a sequence show, if the session is prepared ahead of each. -/
def replies (project : Project) (prepare : Operation → Session → Session) :
    Session → List Operation → List Reply
  | _, [] => []
  | session, operation :: rest =>
      let outcome := (prepare operation session).respond project operation
      ⟨outcome.answer, outcome.completed, outcome.session.view⟩ ::
        replies project prepare outcome.session rest

/-- The caches are left as they are. -/
def keepCaches (_ : Operation) (session : Session) : Session := session

/-- The caches of all loaders are emptied ahead of a request. -/
def emptyCaches : Operation → Session → Session
  | .load .., session => { session with
      collection := LoaderKind.all.foldl Collection.clearCaches session.collection }
  | _, session => session

/-- The requests of an operation are answered by a world. -/
def Operation.IsIn (world : Loader.World) : Operation → Prop
  | .load other _ => other = world
  | _ => True

variable {project : Project} {catalog : Google.Catalog} {world : Loader.World}
  {session first second : Session}

/-- To answer is to perform. -/
theorem session_respond (operation : Operation) :
    (session.respond project operation).session =
      (session.perform project operation).session := by
  cases operation <;> rfl

/-- Operations that run no loader commute with exchanging the traces. -/
theorem respond_withTraces (session : Session) (traces : Collection.Traces)
    {operation : Operation} (h : ∀ world request, operation ≠ .load world request) :
    (session.withTraces traces).respond project operation =
      (session.respond project operation).withTraces traces := by
  cases operation with
  | load world request => exact absurd rfl (h world request)
  | transform id source =>
      unfold respond
      dsimp only
      rw [transform_withTraces]
      generalize session.transform project id source = outcome
      rfl
  | invalidateModule id =>
      unfold respond
      dsimp only
      rw [invalidateModule_withTraces]
      generalize session.invalidateModule project id = outcome
      rfl
  | invalidateFontFile file =>
      unfold respond
      dsimp only
      rw [invalidateFontFile_withTraces]
      generalize session.invalidateFontFile file = outcome
      rfl
  | removeModule id =>
      unfold respond
      dsimp only
      rw [removeModule_withTraces]
      generalize session.removeModule project id = outcome
      rfl
  | reset => rfl

/-! ## Twins -/

/-- Two sessions differ in their traces only, and their caches are true. -/
structure Twins (project : Project) (world : Loader.World) (first second : Session) : Prop where
  same : second = first.withTraces second.collection.traces
  first : first.collection.HasTrueCaches project.setup world
  second : second.collection.HasTrueCaches project.setup world

namespace Twins

theorem refl (h : session.collection.HasTrueCaches project.setup world) :
    Twins project world session session :=
  ⟨rfl, h, h⟩

theorem view_eq (h : Twins project world first second) : first.view = second.view := by
  rw [h.same]
  rfl

/-- **What commutes with exchanging the traces answers twins alike**, and leaves them twins. -/
theorem of_withTraces {α : Type} (h : Twins project world first second)
    (operate : Session → Outcome α)
    (hoperate : ∀ session traces,
      operate (Session.withTraces session traces) = (operate session).withTraces traces) :
    (operate first).answer = (operate second).answer ∧
      (operate first).completed = (operate second).completed ∧
      Twins project world (operate first).session (operate second).session := by
  have htraces : ∀ session, (operate session).session.collection.traces =
      session.collection.traces := by
    intro session
    have hown := hoperate session session.collection.traces
    rw [show session.withTraces session.collection.traces = session from rfl] at hown
    rw [hown]
    rfl
  have htrue : ∀ session : Session, session.collection.HasTrueCaches project.setup world →
      (operate session).session.collection.HasTrueCaches project.setup world := by
    intro session hsession
    have hcaches := congrArg Collection.Traces.caches (htraces session)
    have hcaches : (operate session).session.collection.caches = session.collection.caches :=
      hcaches
    unfold Collection.HasTrueCaches
    rw [hcaches]
    exact hsession
  have hsecond : operate second =
      (operate first).withTraces second.collection.traces := by
    rw [← hoperate, ← h.same]
  refine ⟨?_, ?_, ?_, htrue first h.first, htrue second h.second⟩
  · rw [hsecond]
    rfl
  · rw [hsecond]
    rfl
  · rw [htraces second, hsecond]
    rfl

/-- **A request is answered alike by twins**, whatever their loaders have in their caches. -/
theorem load (h : Twins project world first second) (hlibrary : project.HasLibrary catalog)
    (hfixed : world.IsFixed) (request : Request) :
    (first.load project world request).answer = (second.load project world request).answer ∧
      (first.load project world request).completed =
        (second.load project world request).completed ∧
      Twins project world (first.load project world request).session
        (second.load project world request).session := by
  have halike : Collection.Alike Eq project.setup world first.collection second.collection := by
    refine ⟨?_, h.first, h.second⟩
    rw [h.same]
    rfl
  have hkept : ∀ key, Stylesheet.key? request.id = some key →
      first.collection.kept? project.setup key request.environment =
        second.collection.kept? project.setup key request.environment := by
    intro key _
    rw [h.same]
    rfl
  obtain ⟨hstarted, hafter⟩ := halike.start hfixed
    (fun _ _ hsame url font => congrArg (Table.insert · url font) hsame) hlibrary.isDetermined
    hkept
  have hone := Collection.takenUp_start hlibrary.confined world first.collection request
  have hother := Collection.takenUp_start hlibrary.confined world second.collection request
  rcases hfirst : first.collection.start project.setup world request with ⟨one, started⟩
  rcases hsecond : second.collection.start project.setup world request with ⟨other, _⟩
  rw [hfirst] at hstarted hafter hone
  rw [hsecond] at hstarted hafter hother
  obtain rfl : started = _ := hstarted
  have hsame : other = one.withTraces other.traces := by
    have hstylesheets : other.stylesheets = one.stylesheets := by
      rw [hother.stylesheets, hone.stylesheets, h.same]
      rfl
    have henvironments : other.environments = one.environments := by
      rw [hother.environments, hone.environments, h.same]
      rfl
    have hstore : one.store = other.store := hafter.stores
    unfold Collection.withTraces
    rw [← hstylesheets, ← henvironments, hstore]
    rfl
  have htwins : Twins project world { first with collection := one }
      { second with collection := other } := by
    refine ⟨?_, hafter.first, hafter.second⟩
    unfold withTraces
    dsimp only
    rw [← hsame, h.same]
    rfl
  rw [load_eq hfirst, load_eq hsecond]
  exact htwins.of_withTraces (fun session => session.finish request started)
    fun session traces => session.finish_withTraces traces request started

/-- **Every operation is answered alike by twins**, and leaves them twins. -/
theorem respond (h : Twins project world first second) (hlibrary : project.HasLibrary catalog)
    (hfixed : world.IsFixed) {operation : Operation} (hworld : operation.IsIn world) :
    (first.respond project operation).answer = (second.respond project operation).answer ∧
      (first.respond project operation).completed =
        (second.respond project operation).completed ∧
      Twins project world (first.respond project operation).session
        (second.respond project operation).session := by
  cases operation with
  | load other request =>
      obtain rfl : other = world := hworld
      obtain ⟨hanswer, hcompleted, htwins⟩ := h.load hlibrary hfixed request
      exact ⟨congrArg Answer.loaded hanswer, hcompleted, htwins⟩
  | transform id source =>
      exact h.of_withTraces (fun session => session.respond project (.transform id source))
        fun session traces => session.respond_withTraces traces nofun
  | invalidateModule id =>
      exact h.of_withTraces (fun session => session.respond project (.invalidateModule id))
        fun session traces => session.respond_withTraces traces nofun
  | invalidateFontFile file =>
      exact h.of_withTraces (fun session => session.respond project (.invalidateFontFile file))
        fun session traces => session.respond_withTraces traces nofun
  | removeModule id =>
      exact h.of_withTraces (fun session => session.respond project (.removeModule id))
        fun session traces => session.respond_withTraces traces nofun
  | reset =>
      exact h.of_withTraces (fun session => session.respond project .reset)
        fun session traces => session.respond_withTraces traces nofun

/-- To empty the caches of one of them leaves twins. -/
theorem emptyCaches (h : Twins project world first second) (operation : Operation) :
    Twins project world first (Session.emptyCaches operation second) := by
  cases operation with
  | load other request =>
      refine ⟨?_, h.first, fun kind => ?_⟩
      · rw [h.same]
        rfl
      · cases kind <;> exact Loader.Caches.areTrue_empty world project.setup.isDev
  | transform id source => exact h
  | invalidateModule id => exact h
  | invalidateFontFile file => exact h
  | removeModule id => exact h
  | reset => exact h

/-- **Twins show the same for a whole sequence of operations**, if they are left twins ahead of
each. -/
theorem replies_eq (h : Twins project world first second) (hlibrary : project.HasLibrary catalog)
    (hfixed : world.IsFixed) {prepare : Operation → Session → Session}
    (hprepare : ∀ operation {one other : Session}, Twins project world one other →
      Twins project world one (prepare operation other)) {operations : List Operation}
    (hworld : ∀ operation ∈ operations, operation.IsIn world) :
    replies project keepCaches first operations =
      replies project prepare second operations := by
  induction operations generalizing first second with
  | nil => rfl
  | cons operation rest ih =>
      obtain ⟨hanswer, hcompleted, htwins⟩ := (hprepare operation h).respond hlibrary hfixed
        (hworld operation List.mem_cons_self)
      unfold replies keepCaches
      dsimp only
      rw [hanswer, hcompleted, htwins.view_eq]
      exact congrArg (_ :: ·)
        (ih htwins fun other hother => hworld other (List.mem_cons_of_mem _ hother))

end Twins

/-- The caches of every session that a sequence of operations leads to are true. -/
theorem hasTrueCaches_built (hlibrary : project.HasLibrary catalog) (hfixed : world.IsFixed)
    {operations : List Operation} (hworld : ∀ operation ∈ operations, operation.IsIn world) :
    (built project operations).collection.HasTrueCaches project.setup world := by
  induction operations using List.reverseRecOn with
  | nil => exact Collection.hasTrueCaches_empty project.setup world
  | append_singleton operations last ih =>
      have hbefore := ih fun operation hoperation =>
        hworld operation (List.mem_append_left _ hoperation)
      obtain ⟨-, -, htwins⟩ := (Twins.refl hbefore).respond hlibrary hfixed
        (hworld last (List.mem_append_right _ (List.mem_singleton_self last)))
      rw [built_append, ← session_respond]
      exact htwins.first

/-- A session in which all was forgotten is a twin of the new one. -/
theorem twins_reset (h : session.collection.HasTrueCaches project.setup world) :
    Twins project world session.reset Session.empty :=
  ⟨rfl, h, Collection.hasTrueCaches_empty project.setup world⟩

/-- **The caches of the loaders do not show.**  In a world that does not change, every sequence
of operations on a new session is answered alike, hands out the same manifests and leads
through the same views, whether the caches are kept or emptied ahead of each request.  So
after any history a session in which all was forgotten answers every sequence of operations
as a new one does. -/
theorem caches_do_not_show (hlibrary : project.HasLibrary catalog) (hfixed : world.IsFixed) :
    (∀ operations : List Operation, (∀ operation ∈ operations, operation.IsIn world) →
      replies project keepCaches Session.empty operations =
        replies project emptyCaches Session.empty operations) ∧
    ∀ history operations : List Operation, (∀ operation ∈ history, operation.IsIn world) →
      (∀ operation ∈ operations, operation.IsIn world) →
        replies project keepCaches (built project history).reset operations =
          replies project keepCaches Session.empty operations := by
  constructor
  · intro operations hworld
    have hempty := Collection.hasTrueCaches_empty project.setup world
    have htwins : Twins project world Session.empty Session.empty := Twins.refl hempty
    exact htwins.replies_eq hlibrary hfixed (fun operation _ _ h => h.emptyCaches operation) hworld
  · intro history operations hhistory hworld
    have htwins := twins_reset (hasTrueCaches_built hlibrary hfixed hhistory)
    exact htwins.replies_eq hlibrary hfixed (fun _ _ _ h => h) hworld

theorem isFixed_familyWorld (hasFile : String → Bool) : (familyWorld hasFile).IsFixed :=
  ⟨fun _ _ _ _ _ _ => rfl, fun _ _ _ _ => rfl, fun _ _ _ => rfl⟩

/-- The build of the family. -/
def familyBuild : List Operation := [familyTransform, wholeLoad]

/-- The family is built twice, and the second build takes the downloads of the first one from
the cache. -/
theorem second_family_build_shows_the_same :
    (wholeSession.collection.caches .google).fonts.keys =
      ["https://a.woff2", "https://b.woff2"] ∧
    replies libraryProject keepCaches Session.empty (familyBuild ++ [.reset] ++ familyBuild) =
      replies libraryProject emptyCaches Session.empty (familyBuild ++ [.reset] ++ familyBuild) ∧
    replies libraryProject keepCaches (built libraryProject familyBuild).reset familyBuild =
      replies libraryProject keepCaches Session.empty familyBuild := by
  have hworld : ∀ operation ∈ familyBuild, operation.IsIn (familyWorld fun _ => true) := by
    intro operation hoperation
    rcases List.mem_pair.mp hoperation with rfl | rfl
    · exact trivial
    · rfl
  have htwice : ∀ operation ∈ familyBuild ++ [.reset] ++ familyBuild,
      operation.IsIn (familyWorld fun _ => true) := by
    intro operation hoperation
    rcases List.mem_append.mp hoperation with hfirst | hsecond
    · rcases List.mem_append.mp hfirst with hfirst | hreset
      · exact hworld operation hfirst
      · rw [List.mem_singleton.mp hreset]
        exact trivial
    · exact hworld operation hsecond
  obtain ⟨hreplies, hreset⟩ :=
    caches_do_not_show hasLibrary_libraryProject (isFixed_familyWorld fun _ => true)
  obtain ⟨-, -, hfonts, -⟩ := familyBuilds_run
  exact ⟨hfonts, hreplies _ htwice, hreset familyBuild familyBuild hworld hworld⟩

end Session

end FontHosting
