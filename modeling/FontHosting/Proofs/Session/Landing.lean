import FontHosting.Proofs.Loader.Emission
import FontHosting.Proofs.Session.Interleaving

/-!
# Loads that land

A request of a run lands if it makes a stylesheet and, when it is ended, a module imports that
stylesheet.  Then the manifest takes up the files that the loader has emitted
(`Landing.manifest_eq`).  A `Landing` is such a request, with the moves before it and those while
it is in flight; what its loader has emitted is `Landing.Emitted`.

Every move of a run is a `Change` of the manifest, and there are four kinds.  A reset empties the
manifest.  A stylesheet that was kept is received again, or one that was just made lands.  All
other moves at most take something away (`reduces_perform`), and none of these touches the flag.

A request lands at most once, since its end takes it out of those in flight.  So the end of a
request is a landing only if no earlier move was the same end (`notMem_finish`), and the request is
found if none was (`find?_flights`).
-/

namespace FontHosting

/-! ## Loaders that are run -/

/-- Every loader of a setup emits font files only. -/
def Stylesheet.Setup.HostsFonts (setup : Stylesheet.Setup) : Prop :=
  ∀ kind registered, setup.loaders kind = some registered → Loader.HostsFonts registered.loader

theorem Project.HasLibrary.hostsFonts {project : Project} {catalog : Google.Catalog}
    (h : project.HasLibrary catalog) : project.setup.HostsFonts := by
  intro kind registered hregistered
  cases kind with
  | google =>
      rw [h.google registered hregistered]
      exact Loader.hostsFonts_google catalog
  | «local» =>
      rw [h.files registered hregistered]
      exact Loader.hostsFonts_local

namespace Stylesheet.Collection

open Loader (FontLoader World)

/-- A loader that is run, with its call and the state in which it starts. -/
structure LoaderRun where
  loader : FontLoader
  call : Loader.Call
  start : Loader.State

/-- What the loader answers, and the state in which it ends. -/
def LoaderRun.result (run : LoaderRun) : Except Loader.Error Loader.Output × Loader.State :=
  (run.loader run.call).run run.start

/-- The loader that a request would run. -/
def loaderRun? (setup : Setup) (world : World) (collection : Collection) (request : Request) :
    Option LoaderRun :=
  match LoaderKind.ofTargetPath? (pathPart request.id.toList), readCall request.id with
  | some kind, .ok (query, arguments) =>
      (setup.loaders kind).map fun registered =>
        ⟨registered.loader, callOf setup world query arguments request.isServer,
          collection.startState kind registered⟩
  | _, _ => none

/-- A stylesheet is made by the run of a loader. -/
structure LoaderRun.Makes (run : LoaderRun) (setup : Setup) (loaded : Loaded) : Prop where
  loader : ∃ kind registered, setup.loaders kind = some registered ∧ registered.loader = run.loader
  base : run.call.base = setup.base
  output : ∃ output, run.result.1 = .ok output
  fresh : run.start.emitted = []
  assets : run.result.2.emitted = loaded.assets

/-- What a request makes is made by the loader that it runs. -/
theorem exists_run_of_made {setup : Setup} {world : World} {collection after : Collection}
    {request : Request} {key : String} {loaded : Loaded}
    (h : collection.start setup world request = (after, .made key loaded)) :
    ∃ run, collection.loaderRun? setup world request = some run ∧ run.Makes setup loaded := by
  obtain ⟨kind, registered, query, arguments, hkind, hregistered, -, hcall, -, output, target, hran,
    -, rfl⟩ := made_start h
  let run : LoaderRun := ⟨registered.loader, callOf setup world query arguments request.isServer,
    collection.startState kind registered⟩
  have hrun : collection.loaderRun? setup world request = some run := by
    simp only [loaderRun?, hkind, hcall, hregistered]
    rfl
  have hresult : run.result = _ := hran
  exact ⟨run, hrun, ⟨kind, registered, hregistered, rfl⟩, rfl, ⟨output, by rw [hresult]⟩, rfl,
    by rw [hresult]; rfl⟩

end Stylesheet.Collection

namespace Session

open Asset (FontFile)
open Stylesheet (Collection Loaded Request key?)
open Stylesheet.Collection (LoaderRun Started)

variable {project : Project} {session : Session}

/-! ## Loads of recorded imports -/

/-- A load of a recorded import that runs its loader and succeeds: a request makes a stylesheet,
and when it is ended, a module imports the stylesheet. -/
structure Landing (project : Project) where
  before : List Move
  world : Loader.World
  request : Request
  /-- The moves while the request is in flight. -/
  middle : List Move
  key : String
  loaded : Loaded
  made : startedAfter project before world request = .made key loaded
  inFlight : Move.finish before.length ∉ middle
  /-- A module imports the stylesheet when the request is ended. -/
  imported : (traffic project (before ++ .start world request :: middle)).session.isImported key =
    true

/-- A request that is not ended yet is found by the number of the move that took it up. -/
theorem find?_flights {before middle : List Move} {world : Loader.World} {request : Request}
    (h : Move.finish before.length ∉ middle) :
    ((traffic project (before ++ .start world request :: middle)).flights.find? fun flight =>
      flight.taken == before.length) =
      some ⟨before.length, request, startedAfter project before world request⟩ := by
  induction middle using List.reverseRecOn with
  | nil => exact find?_flights_start project before world request
  | append_singleton middle last ih =>
      have hearlier := ih fun hmem => h (List.mem_append_left _ hmem)
      have hlast : last ≠ .finish before.length := by
        rintro rfl
        exact h (List.mem_append_right _ (List.mem_singleton_self _))
      rw [← List.cons_append, ← List.append_assoc, traffic_append]
      cases last with
      | start other taken => simp only [Traffic.step, List.find?_append, hearlier, Option.some_or]
      | perform operation hother => exact hearlier
      | finish taken =>
          simp only [Traffic.step]
          split
          · exact hearlier
          · -- what is taken out is another request
            rw [List.find?_filter, ← hearlier]
            congr 1
            funext flight
            have htaken : taken ≠ before.length := fun hsame => hlast (hsame ▸ rfl)
            by_cases hflight : flight.taken = before.length <;> simp [hflight, htaken.symm]

/-- A request that is in flight was not ended. -/
theorem notMem_finish {before middle : List Move} {world : Loader.World} {request : Request}
    {flight : Flight}
    (h : flight ∈ (traffic project (before ++ .start world request :: middle)).flights)
    (htaken : flight.taken = before.length) : Move.finish before.length ∉ middle := by
  induction middle using List.reverseRecOn with
  | nil => exact List.not_mem_nil
  | append_singleton middle last ih =>
      rw [← List.cons_append, ← List.append_assoc, traffic_append] at h
      rw [List.mem_append, List.mem_singleton, not_or]
      cases last with
      | start other taken =>
          refine ⟨ih ((List.mem_append.mp h).resolve_right fun hnew => ?_), nofun⟩
          have hclock : flight.taken =
              (traffic project (before ++ .start world request :: middle)).clock :=
            congrArg Flight.taken (List.mem_singleton.mp hnew)
          rw [htaken, clock_traffic, List.length_append, List.length_cons] at hclock
          omega
      | perform operation hother => exact ⟨ih h, nofun⟩
      | finish taken =>
          simp only [Traffic.step] at h
          split at h
          · rename_i hnone
            refine ⟨ih h, ?_⟩
            rintro ⟨rfl⟩
            exact List.find?_eq_none.mp hnone flight h (beq_iff_eq.mpr htaken)
          · obtain ⟨hflight, hkept⟩ := List.mem_filter.mp h
            refine ⟨ih hflight, ?_⟩
            rintro ⟨rfl⟩
            exact bne_iff_ne.mp hkept htaken

namespace Landing

variable (landing : Landing project)

/-- The moves up to the end of the load. -/
def moves : List Move :=
  throughFlight landing.before landing.world landing.request landing.middle

/-- The session in which the request is ended. -/
def previous : Session :=
  (traffic project (landing.before ++ .start landing.world landing.request ::
    landing.middle)).session

theorem moves_eq : landing.moves = landing.before ++ .start landing.world landing.request ::
    landing.middle ++ [.finish landing.before.length] := by
  simp [moves, throughFlight]

/-- **The end of the load takes the files of its stylesheet up into the manifest.** -/
theorem manifest_eq : (traffic project landing.moves).session.manifest =
    landing.previous.manifest.record landing.loaded.module landing.loaded.assets := by
  have hkey := isKey_of_startedAfter landing.made
  have hget : (landing.previous.keepMade landing.request landing.key
      landing.loaded).collection.stylesheets.get? landing.key = some landing.loaded :=
    (get?_keepMade landing.key).trans (if_pos rfl)
  have hfinish : (landing.previous.finish landing.request (.made landing.key landing.loaded)).session =
      ((landing.previous.keepMade landing.request landing.key landing.loaded).receive landing.key
        landing.loaded).session :=
    congrArg Outcome.session (finishFound_eq hkey hget landing.loaded.target)
  rw [moves_eq, traffic_append]
  simp only [Traffic.step, find?_flights landing.inFlight, landing.made]
  refine (congrArg Session.manifest hfinish).trans ?_
  exact (manifest_receive _ _ _).trans (if_pos landing.imported)

/-! ### What the loader has emitted -/

theorem exists_run : ∃ run,
    (traffic project landing.before).session.collection.loaderRun? project.setup landing.world
      landing.request = some run ∧ run.Makes project.setup landing.loaded :=
  Collection.exists_run_of_made (Prod.ext rfl landing.made)

theorem isSome_loaderRun? :
    ((traffic project landing.before).session.collection.loaderRun? project.setup landing.world
      landing.request).isSome = true := by
  obtain ⟨run, hrun, -⟩ := landing.exists_run
  exact Option.isSome_of_mem hrun

/-- The loader that was run. -/
def run : LoaderRun :=
  Option.get _ landing.isSome_loaderRun?

theorem loaderRun?_eq :
    (traffic project landing.before).session.collection.loaderRun? project.setup landing.world
      landing.request = some landing.run :=
  (Option.some_get _).symm

theorem makes_run : landing.run.Makes project.setup landing.loaded := by
  obtain ⟨run, hrun, hmakes⟩ := landing.exists_run
  obtain rfl := Option.some_inj.mp (landing.loaderRun?_eq.symm.trans hrun)
  exact hmakes

/-- The loader has emitted these files. -/
def Emitted (files : List FontFile) : Prop :=
  Loader.Emits project.setup.base landing.run.start files landing.run.result.2

theorem exists_emitted (hhosts : project.setup.HostsFonts) : ∃ files, landing.Emitted files := by
  obtain ⟨kind, registered, hregistered, hloader⟩ := landing.makes_run.loader
  have hrun := hhosts kind registered hregistered landing.run.call landing.run.start
  rwa [hloader, landing.makes_run.base] at hrun

variable {landing}

/-- The stylesheet has the names of the files. -/
theorem Emitted.mem_assets {files : List FontFile} (h : landing.Emitted files) {name : String} :
    name ∈ landing.loaded.assets ↔ ∃ file ∈ files, file.name = name := by
  rw [← landing.makes_run.assets, Loader.Emits.mem_emitted h, landing.makes_run.fresh]
  simp

theorem Emitted.any_isSizeAdjusted {files : List FontFile} (h : landing.Emitted files) :
    landing.loaded.assets.any Asset.isSizeAdjusted = true ↔
      ∃ file ∈ files, file.sizeAdjusted = true := by
  simp only [List.any_eq_true, h.mem_assets]
  constructor
  · rintro ⟨_, ⟨file, hfile, rfl⟩, hadjusted⟩
    exact ⟨file, hfile, by rwa [← Asset.isSizeAdjusted_name]⟩
  · rintro ⟨file, hfile, hadjusted⟩
    exact ⟨file.name, ⟨file, hfile, rfl⟩, by rwa [Asset.isSizeAdjusted_name]⟩

/-- A font call for files has emitted a file for each source. -/
theorem exists_emitted_local (landing : Landing project)
    (hlocal : landing.run.loader = LocalFont.loader) :
    ∃ options files,
      LocalFont.Options.check landing.run.call.function landing.run.call.options? = .ok options ∧
      List.Forall₂ (LocalFont.HostedFor landing.run.call options) options.sources files ∧
      landing.Emitted files := by
  obtain ⟨output, houtput⟩ := landing.makes_run.output
  have hran : (LocalFont.loader landing.run.call).run landing.run.start =
      (.ok output, landing.run.result.2) := by
    rw [← hlocal]
    exact Prod.ext houtput rfl
  obtain ⟨options, files, hcheck, hfiles, hemits, -⟩ := LocalFont.emits_of_loader hran
  rw [landing.makes_run.base] at hemits
  exact ⟨options, files, hcheck, hfiles, hemits⟩

end Landing

/-! ## What a move does to the manifest -/

/-- **An operation that is no request adds nothing to the manifest**, and only a reset takes the
flag back. -/
theorem reduces_perform {operation : Operation} (hother : operation.isRequest = false)
    (hreset : operation ≠ .reset) :
    session.manifest.Reduces (session.perform project operation).session.manifest := by
  cases operation with
  | load world request => cases hother
  | reset => exact absurd rfl hreset
  | transform id source =>
      simp only [Session.perform]
      rcases transform_session project session id source with hsame | ⟨specifiers, hrecorded⟩
      · rw [hsame]
        exact .refl _
      · rw [hrecorded]
        exact reduces_recordImports session _ specifiers
  | removeModule id => exact reduces_recordImports session _ []
  | invalidateModule id => exact reduces_invalidateModule session id
  | invalidateFontFile file => exact reduces_invalidateFontFile session file

/-- What a move can come to for the manifest. -/
inductive Change (project : Project) (moves : List Move) (last : Move) : Prop where
  | reset (hlast : last = .perform .reset rfl)
      (hempty : (traffic project (moves ++ [last])).session.manifest = Manifest.empty)
  | reduced (hlast : last ≠ .perform .reset rfl)
      (hreduces : (traffic project moves).session.manifest.Reduces
        (traffic project (moves ++ [last])).session.manifest)
  /-- A stylesheet that was kept is received again. -/
  | again (hlast : last ≠ .perform .reset rfl) (key : String) (loaded : Loaded)
      (hget : (traffic project moves).session.collection.stylesheets.get? key = some loaded)
      (hrecord : (traffic project (moves ++ [last])).session.manifest =
        (traffic project moves).session.manifest.record loaded.module loaded.assets)
  /-- A stylesheet that was made is received for the first time. -/
  | landed (hlast : last ≠ .perform .reset rfl) (landing : Landing project)
      (hmoves : landing.moves = moves ++ [last])
      (hrecord : (traffic project (moves ++ [last])).session.manifest =
        (traffic project moves).session.manifest.record landing.loaded.module
          landing.loaded.assets)

/-- **The manifest gains something only from a stylesheet that is received.** -/
theorem change_finish (project : Project) (moves : List Move) (taken : Nat) :
    Change project moves (.finish taken) := by
  have hsession : (traffic project (moves ++ [.finish taken])).session =
      ((traffic project moves).step project (.finish taken)).session := by
    rw [traffic_append]
  have hsame : (traffic project (moves ++ [.finish taken])).session.manifest =
      (traffic project moves).session.manifest → Change project moves (.finish taken) :=
    fun hsame => .reduced nofun (hsame ▸ .refl _)
  rcases step_finish project (traffic project moves) taken with
    hnone | ⟨flight, hflight, htaken, hfinished⟩
  · exact hsame (by rw [hsession, hnone])
  · obtain ⟨before, world, middle, hmoves, hnumber, hstarted⟩ := exists_start hflight
    rw [← hsession] at hfinished
    rcases finish_cases (traffic project moves).session hstarted with hnone |
      ⟨key, loaded, -, hget, hreceived⟩ | ⟨key, loaded, -, hmade, hreceived⟩
    · exact hsame (by rw [hfinished, hnone])
    · rw [hreceived] at hfinished
      have hmanifest := (congrArg Session.manifest hfinished).trans (manifest_receive _ _ _)
      split at hmanifest
      · exact .again nofun key loaded hget hmanifest
      · exact hsame hmanifest
    · rw [hreceived] at hfinished
      have hmanifest := (congrArg Session.manifest hfinished).trans (manifest_receive _ _ _)
      split at hmanifest
      · rename_i himported
        subst hmoves
        let landing : Landing project := {
          before, world, request := flight.request, middle, key, loaded
          made := hstarted.trans hmade
          inFlight := notMem_finish hflight hnumber.symm
          imported := himported }
        refine .landed nofun landing ?_ hmanifest
        rw [landing.moves_eq, ← htaken, ← hnumber]
      · exact hsame hmanifest

theorem change (project : Project) (moves : List Move) (last : Move) :
    Change project moves last := by
  cases last with
  | start world request => exact .reduced nofun (by rw [traffic_append]; exact .refl _)
  | finish taken => exact change_finish project moves taken
  | perform operation hother =>
      by_cases hreset : operation = .reset
      · subst hreset
        exact .reset rfl (by rw [traffic_append]; rfl)
      · refine .reduced (fun hlast => hreset (Move.perform.inj hlast)) ?_
        rw [traffic_append]
        exact reduces_perform hother hreset

/-- **After any run the manifest is neat.** -/
theorem neat_traffic (project : Project) (moves : List Move) :
    (traffic project moves).session.manifest.Neat := by
  induction moves using List.reverseRecOn with
  | nil => exact .empty
  | append_singleton moves last ih =>
      cases change project moves last with
      | reset _ hempty => exact hempty ▸ .empty
      | reduced _ hreduces => exact ih.reduces hreduces
      | again _ _ loaded _ hrecord => exact hrecord ▸ ih.record loaded.module loaded.assets
      | landed _ landing _ hrecord =>
          exact hrecord ▸ ih.record landing.loaded.module landing.loaded.assets

end Session

end FontHosting
