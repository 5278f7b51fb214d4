import FontHosting.Proofs.Session.Serving

/-!
# Requests that fail

A loader emits its files one by one and may give up at any of them, when those before it
are in the store already.  Nobody takes them out again, so a request that fails is not
quite without effect: the files that its loader had emitted stay, while everything else is
as it was before (`failed_load_leaves_only_its_files`).

A call of two files of which the second cannot be read leaves the first one behind
(`failed_load_leaves_a_file`).
-/

namespace FontHosting.Session

open Stylesheet (Collection Failure Query Request)

variable {project : Project} {session : Session}

/-- A request fails only where taking it up fails, and then nothing is done to end it. -/
theorem start_of_failed_load {world : Loader.World} {request : Request} {failure : Failure}
    (hanswer : (session.load project world request).answer = .error failure) :
    ∃ collection, session.collection.start project.setup world request =
        (collection, .failed failure) ∧
      session.load project world request =
        ({ session with collection }).answering (.error failure) := by
  cases hstart : session.collection.start project.setup world request with
  | mk collection started =>
      rw [load_eq hstart] at hanswer ⊢
      -- A stylesheet that is found or made is handed out, whatever becomes of it.
      have hfound : ∀ (other : Session) key target,
          ∃ target?, (other.finishFound key target).answer = .ok target? := by
        intro other key target
        unfold finishFound
        split <;> exact ⟨_, rfl⟩
      cases started with
      | unknown => cases hanswer
      | failed failed =>
          cases hanswer
          exact ⟨collection, rfl, rfl⟩
      | kept key target =>
          obtain ⟨target?, hok⟩ := hfound { session with collection } key target
          cases hok.symm.trans hanswer
      | made key loaded =>
          obtain ⟨target?, hok⟩ := hfound _ key loaded.target
          cases hok.symm.trans hanswer

/-- **A request that fails leaves nothing but the files that its loader had emitted.**  The
imports, the manifest, the flag, the stylesheets and the environments are as before, no
manifest is handed out, and the store has gained exactly the URLs of those files.  If the
name of the stylesheet lacks a field or its arguments cannot be read, then nothing at all
has changed. -/
theorem failed_load_leaves_only_its_files (hregular : project.Regular) {world : Loader.World}
    {request : Request} {failure : Failure}
    (hanswer : (session.load project world request).answer = .error failure) :
    let outcome := session.load project world request
    (outcome.session.records = session.records ∧
      outcome.session.manifest = session.manifest ∧
      outcome.session.isFinished = session.isFinished ∧
      outcome.session.collection.stylesheets = session.collection.stylesheets ∧
      outcome.session.collection.environments = session.collection.environments ∧
      outcome.completed = none) ∧
    (∀ url, outcome.session.collection.store.contains url = true ↔
      session.collection.store.contains url = true ∨
        ∃ name ∈ session.collection.emittedFor project.setup world request,
          project.setup.base.url name = url) ∧
    ((∀ error, failure ≠ .loader error) → outcome.session = session) := by
  intro outcome
  obtain ⟨collection, hstart, hload⟩ := start_of_failed_load hanswer
  have houtcome : outcome = ({ session with collection }).answering (.error failure) := hload
  have htaken := Collection.takenUp_start hregular.confined world session.collection request
  rw [hstart] at htaken
  obtain ⟨hstore, hunchanged⟩ := Collection.failed_start hregular.confined hstart
  rw [houtcome]
  refine ⟨⟨rfl, rfl, rfl, htaken.stylesheets, htaken.environments, rfl⟩, hstore, fun hcall => ?_⟩
  show ({ session with collection } : Session) = session
  rw [hunchanged hcall]

/-! ## A call of two files -/

/-- A project with the loader of font files. -/
def localProject : Project := {
  setup := { smallProject.setup with loaders := fun _ => some ⟨LocalFont.loader, true⟩ }
  calls := ⟨[LoaderKind.local.module], Table.empty⟩ }

/-- A module asks for a font of two files. -/
def twoFilesTransform : Operation :=
  .transform "a.js"
    "import A from \"next-font/local\";const a = A(\x7bsrc: [\x7bpath: \"a.woff2\"\x7d, \x7bpath: \"b.woff2\"\x7d]\x7d);"

/-- The first file is there, the second one is not. -/
def firstFileWorld : Loader.World :=
  { Loader.World.unconnected with
    file := fun _ path => if path = "a.woff2" then .ok [1] else .error "no such file" }

/-- The stylesheet of the two files is asked for. -/
def twoFilesRequest : Request :=
  ⟨"next-font/local/target.css?path=a.js&import=&arguments=%5B%7B%22src%22%3A%5B%7B%22path%22%3A%22a.woff2%22%7D%2C%7B%22path%22%3A%22b.woff2%22%7D%5D%7D%5D&variableName=a",
    "client", false⟩

/-- The session in which the module was transformed. -/
def twoFilesSession : Session := built localProject [twoFilesTransform]

/-- The public URL of the first file. -/
def firstFileUrl : String := localProject.setup.base.url "static/media/4bf5122f344554c5-s.p.woff2"

theorem regular_localProject : localProject.Regular := by
  refine ⟨fun kind registered hregistered => ?_, fun loader hloader => ?_⟩
  · obtain rfl := Option.some_inj.mp hregistered
    exact Loader.confined_local
  · rw [List.mem_singleton.mp hloader]
    decide

/-- The fields of the name of the stylesheet. -/
def twoFilesQuery : Query :=
  ⟨"a.js", "", "[\x7b\"src\":[\x7b\"path\":\"a.woff2\"\x7d,\x7b\"path\":\"b.woff2\"\x7d]\x7d]", "a"⟩

/-- The arguments of the call. -/
def twoFilesArguments : List Json.Value :=
  [.object [("src", .list [.object [("path", .text "a.woff2")], .object [("path", .text "b.woff2")]])]]

/-- The text of the module. -/
def twoFilesText : String :=
  "import A from \"next-font/local\";const a = A(\x7bsrc: [\x7bpath: \"a.woff2\"\x7d, \x7bpath: \"b.woff2\"\x7d]\x7d);"

/-- What the loader does for the two files. -/
def twoFilesRun : Except Loader.Error Loader.Output × Loader.State :=
  (LocalFont.loader (Collection.callOf localProject.setup firstFileWorld twoFilesQuery
    twoFilesArguments false)).run (Collection.empty.startState .local ⟨LocalFont.loader, true⟩)

/-- How the name of the stylesheet is written, how the text of the module is read, and what the
loader leaves behind. -/
theorem twoFiles_runs :
    Stylesheet.IsNameOf twoFilesRequest.id .local twoFilesQuery twoFilesArguments ∧
    CallsOnce localProject "a.js" twoFilesText "a.js" twoFilesRequest.id ∧
    twoFilesRun.1.toOption = none ∧ twoFilesRun.2.store.contains firstFileUrl = true := by
  have hfits : (Json.Value.list twoFilesArguments).FitsWithin Json.maximalDepth := by
    simp [twoFilesArguments, Json.Value.FitsWithin, Json.maximalDepth]
  refine ⟨⟨?_, ?_, hfits⟩, ⟨?_, ?_, ?_⟩, ?_⟩ <;> decide +kernel

theorem twoFilesSession_eq : twoFilesSession = empty.awaiting "a.js" twoFilesRequest.id := by
  obtain ⟨hname, hcalls, -⟩ := twoFiles_runs
  exact built_of_callsOnce hcalls hname.isKey

/-- The request fails with what the loader left behind. -/
theorem start_twoFilesRequest : ∃ collection failure,
    Collection.empty.start localProject.setup firstFileWorld twoFilesRequest =
        (collection, .failed failure) ∧
      collection.store.contains firstFileUrl = true := by
  obtain ⟨hname, -, hfails, hstored⟩ := twoFiles_runs
  cases hran : twoFilesRun with
  | mk result state =>
      rw [hran] at hfails hstored
      cases result with
      | ok output => cases hfails
      | error error =>
          have hstart := @Collection.start_of_error _ _ _ localProject.setup Collection.empty
            twoFilesRequest hname ⟨LocalFont.loader, true⟩ rfl
            List.not_mem_nil firstFileWorld error state hran
          exact ⟨_, _, hstart, hstored⟩

/-- What the request comes to. -/
theorem twoFilesRequest_runs :
    (twoFilesSession.isImported twoFilesRequest.id = true ∧
      twoFilesSession.collection.store.contains firstFileUrl = false) ∧
    (twoFilesSession.load localProject firstFileWorld twoFilesRequest).answer.toOption.isNone =
      true ∧
    (twoFilesSession.load localProject firstFileWorld
      twoFilesRequest).session.collection.store.contains firstFileUrl = true := by
  obtain ⟨collection, failure, hstart, hstored⟩ := start_twoFilesRequest
  rw [twoFilesSession_eq]
  rw [@load_eq (empty.awaiting "a.js" twoFilesRequest.id) localProject firstFileWorld
    twoFilesRequest collection _ hstart]
  refine ⟨⟨isImported_awaiting _ _ _, ?_⟩, rfl, hstored⟩
  rw [collection_awaiting]
  rfl

theorem exists_failure_of_twoFilesRequest :
    ∃ failure, (twoFilesSession.load localProject firstFileWorld twoFilesRequest).answer =
      .error failure := by
  obtain ⟨-, hfails, -⟩ := twoFilesRequest_runs
  cases hanswer : (twoFilesSession.load localProject firstFileWorld twoFilesRequest).answer with
  | ok target? =>
      rw [hanswer] at hfails
      cases hfails
  | error failure => exact ⟨failure, rfl⟩

/-- The import still waits after the request has failed, and the file that is new in the store
is one that the loader had emitted. -/
theorem twoFilesRequest_leaves_only_its_file :
    (twoFilesSession.load localProject firstFileWorld twoFilesRequest).session.records =
      twoFilesSession.records ∧
    ∃ name ∈ twoFilesSession.collection.emittedFor localProject.setup firstFileWorld
        twoFilesRequest, localProject.setup.base.url name = firstFileUrl := by
  obtain ⟨⟨-, hmissing⟩, -, hstored⟩ := twoFilesRequest_runs
  obtain ⟨failure, hanswer⟩ := exists_failure_of_twoFilesRequest
  obtain ⟨⟨hrecords, -⟩, hstore, -⟩ :=
    failed_load_leaves_only_its_files regular_localProject hanswer
  refine ⟨hrecords, ((hstore firstFileUrl).mp hstored).resolve_left ?_⟩
  rw [hmissing]
  exact Bool.false_ne_true

/-- **A request that fails is not without effect.**  In a session that a build leads to, a
request for an imported stylesheet fails at the second file, and the first one is in the
store from then on. -/
theorem failed_load_leaves_a_file :
    Reachable localProject twoFilesSession ∧
    twoFilesSession.isImported twoFilesRequest.id = true ∧
    (∃ failure, (twoFilesSession.load localProject firstFileWorld twoFilesRequest).answer =
      .error failure) ∧
    twoFilesSession.collection.store.contains firstFileUrl = false ∧
    (twoFilesSession.load localProject firstFileWorld
      twoFilesRequest).session.collection.store.contains firstFileUrl = true := by
  obtain ⟨⟨himported, hmissing⟩, -, hstored⟩ := twoFilesRequest_runs
  refine ⟨reachable_built localProject fun operation hoperation => ?_, himported,
    exists_failure_of_twoFilesRequest, hmissing, hstored⟩
  rw [List.mem_singleton.mp hoperation]
  exact trivial

end FontHosting.Session
