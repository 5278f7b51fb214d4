import FontHosting.Proofs.Json.Document
import FontHosting.Proofs.Session.Operation
import FontHosting.Proofs.Stylesheet.Scope

/-!
# A call and the first request for it

A text with one font call gives its module one import, under the name of the call
(`transform_of_callsOnce`).  A request under that name runs the loader of the call
(`start_of_isNameOf`).  The stylesheet that the loader makes is kept, its files are listed, and
the import is resolved (`load_of_made`).

Whole builds are followed with these three lemmas.  What is left to evaluate is how a text is
read, how a name is written, and what a loader makes.
-/

namespace FontHosting

open Stylesheet (Id Loaded Query Request key? pathPart)

/-! ## Names of calls -/

namespace Stylesheet

/-- A name that is written for a call: the kind of its loader, its fields and its arguments. -/
structure IsNameOf (name : String) (kind : LoaderKind) (query : Query)
    (arguments : List Json.Value) : Prop where
  written : String.ofList (Id.mk kind.module query).render = name
  told : (Json.Value.list arguments).toText = query.arguments
  fits : (Json.Value.list arguments).FitsWithin Json.maximalDepth

theorem fitsWithin_nil : (Json.Value.list []).FitsWithin Json.maximalDepth := by
  simp [Json.Value.FitsWithin, Json.maximalDepth]

section
variable {name : String} {kind : LoaderKind} {query : Query} {arguments : List Json.Value}

theorem IsNameOf.isKey (h : IsNameOf name kind query arguments) : key? name = some name := by
  rw [← h.written]
  exact key?_render rfl

theorem IsNameOf.isPlain (h : IsNameOf name kind query arguments) : ¬ HasRepeatedMark name :=
  Bool.eq_false_iff.mp (not_repeatedMark_key h.isKey)

theorem IsNameOf.kind_eq (h : IsNameOf name kind query arguments) :
    LoaderKind.ofTargetPath? (pathPart name.toList) = some kind := by
  rw [← h.written, String.toList_ofList,
    @pathPart_render (Id.mk kind.module query) (notMem_module kind), targetPath_eq rfl,
    ofTargetPath?_targetPath]

theorem IsNameOf.readCall_eq (h : IsNameOf name kind query arguments) :
    Collection.readCall name = .ok (query, arguments) := by
  have hread : Query.read? (queryPart name.toList) = some query := by
    rw [← h.written, String.toList_ofList,
      @queryPart_render (Id.mk kind.module query) (notMem_module kind), read?_render]
  have harguments : Collection.readArguments? query.arguments = some arguments := by
    rw [← h.told, Collection.readArguments?, Json.Value.toText, String.toList_ofList,
      Json.Value.read?_render h.fits]
  unfold Collection.readCall
  rw [hread]
  dsimp only
  rw [harguments]

/-- A request under the name of a call runs the loader of the call, if the environment asks for
the stylesheet for the first time. -/
theorem Collection.start_of_isNameOf {setup : Setup} {collection : Collection} {request : Request}
    (h : IsNameOf request.id kind query arguments) {registered : Registered}
    (hregistered : setup.loaders kind = some registered)
    (hnew : (request.id, request.environment) ∉ collection.environments) (world : Loader.World) :
    collection.start setup world request =
      run setup world collection kind registered query arguments request.id request.isServer := by
  have hkept : collection.kept? setup request.id request.environment = none := by
    have hcontains : collection.environments.contains (request.id, request.environment) = false :=
      by simpa using hnew
    rw [kept?, hcontains, Bool.and_false]
    rfl
  unfold start
  rw [h.isKey, h.kind_eq]
  dsimp only
  rw [hregistered]
  dsimp only
  rw [hkept, h.readCall_eq]

/-- A loader that hands out rules with a family makes the stylesheet. -/
theorem Collection.start_of_output {setup : Setup} {collection : Collection} {request : Request}
    (h : IsNameOf request.id kind query arguments) {registered : Registered}
    (hregistered : setup.loaders kind = some registered)
    (hnew : (request.id, request.environment) ∉ collection.environments) {world : Loader.World}
    {output : Loader.Output} {state : Loader.State} {target : Module}
    (hran : (registered.loader (callOf setup world query arguments request.isServer)).run
      (collection.startState kind registered) = (.ok output, state))
    (htarget : Module.generate setup.minify query.path output = .ok target) :
    collection.start setup world request =
      ((collection.announce kind registered).absorb kind state,
        .made request.id (loadedOf setup query state target)) := by
  rw [start_of_isNameOf h hregistered hnew world]
  unfold startState at hran
  dsimp only at hran
  unfold run
  dsimp only
  rw [hran]
  dsimp only
  rw [htarget]

/-- A loader that gives up leaves what it has done. -/
theorem Collection.start_of_error {setup : Setup} {collection : Collection} {request : Request}
    (h : IsNameOf request.id kind query arguments) {registered : Registered}
    (hregistered : setup.loaders kind = some registered)
    (hnew : (request.id, request.environment) ∉ collection.environments) {world : Loader.World}
    {error : Loader.Error} {state : Loader.State}
    (hran : (registered.loader (callOf setup world query arguments request.isServer)).run
      (collection.startState kind registered) = (.error error, state)) :
    collection.start setup world request =
      ((collection.announce kind registered).absorb kind state, .failed (.loader error)) := by
  rw [start_of_isNameOf h hregistered hnew world]
  unfold startState at hran
  dsimp only at hran
  unfold run
  dsimp only
  rw [hran]

end

end Stylesheet

namespace Session

variable {project : Project} {session : Session}

/-! ## A text with one call -/

/-- A file is a script with one font call, whose stylesheet has a certain name. -/
structure CallsOnce (project : Project) (id source module name : String) : Prop where
  module_eq : project.moduleId id = module
  isScript : isScript module = true
  imports : (FontCall.transform project.calls module module source).toOption.join.map
    FontCall.Transformed.imports = some [name]

/-- A session in which a module waits for one stylesheet. -/
def awaiting (session : Session) (module name : String) : Session :=
  { session with
    records := session.records.insert module [⟨name, name, false⟩]
    isFinished := false }

theorem collection_awaiting (session : Session) (module name : String) :
    (session.awaiting module name).collection = session.collection := rfl

theorem manifest_awaiting (session : Session) (module name : String) :
    (session.awaiting module name).manifest = session.manifest := rfl

theorem isImported_congr {first second : Session} (h : first.records = second.records)
    (key : String) : first.isImported key = second.isImported key := by
  rw [isImported, isImported, allRecords, allRecords, h]

theorem hasRecord_awaiting (session : Session) (module name : String) :
    (session.awaiting module name).HasRecord module ⟨name, name, false⟩ :=
  ⟨_, (Table.get?_insert _ _ _ _).trans (if_pos rfl), List.mem_singleton_self _⟩

theorem pending_awaiting (session : Session) (module name : String) :
    (session.awaiting module name).pending ≠ 0 := by
  intro hnone
  have hresolved := pending_eq_zero_iff.mp hnone _ _ (session.hasRecord_awaiting module name)
  cases hresolved

theorem isImported_awaiting (session : Session) (module name : String) :
    (session.awaiting module name).isImported name = true :=
  isImported_iff.mpr ⟨_, _, session.hasRecord_awaiting module name, rfl⟩

/-- **A text with one call makes its module wait for the stylesheet of the call**, if neither
of them was seen before. -/
theorem transform_of_callsOnce {id source module name : String}
    (h : CallsOnce project id source module name) (hkey : key? name = some name)
    (hmodule : session.records.get? module = none)
    (hname : session.collection.stylesheets.get? name = none) :
    (session.transform project id source).session = session.awaiting module name ∧
      (session.transform project id source).answer.isOk = true := by
  obtain ⟨transformed, htransformed, himports⟩ := Option.map_eq_some_iff.mp h.imports
  have htransform := ok_some_of_toOption htransformed
  have hcurrent : session.currentImports [name] = [⟨name, name, false⟩] := by
    have hmissing : session.collection.contains name = false := by
      unfold Stylesheet.Collection.contains
      rw [Stylesheet.Collection.get?_of_isKey hkey, hname]
      rfl
    simp [currentImports, recordOf?, hkey, hmissing]
  have hended : session.ended module [name] = [] := by
    unfold ended
    rw [hmodule]
    rfl
  have hreplaced : session.replaceImports module [name] = session.awaiting module name := by
    unfold replaceImports retractEnded openModule awaiting
    simp [hcurrent, hended, Table.erase_eq_self hmodule]
  have hsettled : ((session.awaiting module name).settle
      ((session.ended module [name]).map Record.specifier)).session =
        session.awaiting module name := by
    unfold settle isComplete
    simp [pending_awaiting, answering]
  unfold transform
  rw [h.module_eq]
  dsimp only
  rw [h.isScript, htransform]
  refine ⟨?_, rfl⟩
  rw [← hsettled, ← hreplaced, ← recordImports_eq, ← himports]
  rfl

/-- In a new session the module waits for it. -/
theorem built_of_callsOnce {id source module name : String}
    (h : CallsOnce project id source module name) (hkey : key? name = some name) :
    built project [.transform id source] = empty.awaiting module name := by
  have hbuilt := built_transform project [] id source
  exact hbuilt.trans (transform_of_callsOnce h hkey rfl rfl).1

/-! ## The request -/

/-- A request that makes a stylesheet is answered with it. -/
theorem answer_of_made (hconfined : project.setup.Confined) {world : Loader.World}
    {request : Request} {collection : Stylesheet.Collection} {key : String} {loaded : Loaded}
    (hmade : session.collection.start project.setup world request =
      (collection, .made key loaded)) :
    (session.load project world request).answer = .ok (some loaded.target) := by
  rw [load_eq hmade, (finish_made hconfined hmade).2]

/-- **The first request for a stylesheet that is imported** keeps it, lists its files and
resolves its imports. -/
theorem load_of_made (hconfined : project.setup.Confined) {world : Loader.World}
    {request : Request} {collection : Stylesheet.Collection} {key : String} {loaded : Loaded}
    (hmade : session.collection.start project.setup world request =
      (collection, .made key loaded)) (himported : session.isImported key = true) :
    let outcome := session.load project world request
    outcome.answer = .ok (some loaded.target) ∧
      Holds project request session.collection outcome.session.collection key loaded ∧
      outcome.session.collection = collection.keep key request.environment loaded ∧
      outcome.session.manifest = session.manifest.record loaded.module loaded.assets ∧
      outcome.session.records = (session.mark true [key]).records := by
  intro outcome
  obtain ⟨hholds, hfinish⟩ := finish_made hconfined hmade
  have houtcome : outcome = _ := (load_eq hmade).trans hfinish
  have hkept : ({ session with
      collection := collection.keep key request.environment loaded }).isImported key = true :=
    himported
  rw [receive_of_isImported hkept] at houtcome
  rw [houtcome]
  refine ⟨rfl, ?_, ?_, ?_, ?_⟩
  · rw [collection_settle]
    exact hholds
  · rw [collection_settle]
    rfl
  · rw [manifest_settle]
    rfl
  · unfold settle
    split <;> rfl

/-! ## The small build -/

/-- The rules that the loader of the small project makes. -/
def smallRules : String :=
  Loader.fillUrls "@font-face \x7b font-family: a; src: url(\x7burl0\x7d) \x7d"
    [smallProject.setup.base.url smallAsset]

/-- How the text of the small build is read, how the name in it is written, and what its loader
makes. -/
theorem smallProject_runs :
    Stylesheet.IsNameOf smallKey .google ⟨"a.js", "A", "[]", "a"⟩ [] ∧
    CallsOnce smallProject "a.js" "import {A} from \"next-font/google\";const a = A();" "a.js"
      smallKey ∧
    Asset.fileName [] "woff2" true false = smallAsset ∧
    (Css.renameFamilies (Stylesheet.scopedFamily (Stylesheet.scopeOf smallRules))
      smallRules.toList).isSome = true := by
  refine ⟨⟨?_, ?_, Stylesheet.fitsWithin_nil⟩, ⟨?_, ?_, ?_⟩, ?_, ?_⟩ <;> decide +kernel

theorem isNameOf_smallKey : Stylesheet.IsNameOf smallKey .google ⟨"a.js", "A", "[]", "a"⟩ [] :=
  smallProject_runs.1

theorem callsOnce_smallProject :
    CallsOnce smallProject "a.js" "import {A} from \"next-font/google\";const a = A();" "a.js"
      smallKey :=
  smallProject_runs.2.1

theorem fileName_smallAsset : Asset.fileName [] "woff2" true false = smallAsset :=
  smallProject_runs.2.2.1

theorem isPlain_smallLoad : smallLoad.IsPlain :=
  isNameOf_smallKey.isPlain

theorem isPlain_smallBuild : ∀ operation ∈ smallBuild, operation.IsPlain := by
  intro operation hoperation
  rcases List.mem_pair.mp hoperation with rfl | rfl
  · exact trivial
  · exact isPlain_smallLoad

theorem exists_rename_smallRules : ∃ rules family,
    Css.renameFamilies (Stylesheet.scopedFamily (Stylesheet.scopeOf smallRules))
      smallRules.toList = some (rules, family) := by
  obtain ⟨-, -, -, hsome⟩ := smallProject_runs
  obtain ⟨⟨rules, family⟩, hrename⟩ := Option.isSome_iff_exists.mp hsome
  exact ⟨rules, family, hrename⟩

/-- The loader of the small project emits one file and hands out the rules with its URL. -/
theorem run_smallLoader {kind : LoaderKind} {registered : Stylesheet.Registered}
    (hregistered : smallProject.setup.loaders kind = some registered) {call : Loader.Call}
    (hbase : call.base = smallProject.setup.base) (state : Loader.State) :
    ((registered.loader call).run state).1 = .ok ⟨smallRules, [], none, none, none, none⟩ ∧
      ((registered.loader call).run state).2.emitted =
        if state.emitted.contains smallAsset then state.emitted
        else state.emitted ++ [smallAsset] := by
  obtain rfl := Option.some_inj.mp hregistered
  rw [smallRules, ← fileName_smallAsset, ← hbase]
  refine ⟨rfl, ?_⟩
  cases hdev : call.isDev <;>
  · simp only [Loader.Scripted.loader, Loader.emit, hdev]
    rfl

/-- A request in the small project makes a stylesheet with one file, whatever it is for. -/
theorem run_smallProject {kind : LoaderKind} {registered : Stylesheet.Registered}
    (hregistered : smallProject.setup.loaders kind = some registered) (world : Loader.World)
    (collection : Stylesheet.Collection) (query : Query) (arguments : List Json.Value)
    (key : String) (isServer : Bool) :
    ∃ after loaded, Stylesheet.Collection.run smallProject.setup world collection kind registered
        query arguments key isServer = (after, .made key loaded) ∧
      loaded.module = query.path ∧ loaded.assets = [smallAsset] ∧
      loaded.urls = [smallProject.setup.base.url smallAsset] := by
  let call := Stylesheet.Collection.callOf smallProject.setup world query arguments isServer
  have hbase : call.base = smallProject.setup.base := rfl
  obtain ⟨hanswer, hemitted⟩ :=
    run_smallLoader hregistered hbase (collection.startState kind registered)
  obtain ⟨rules, family, hrename⟩ := exists_rename_smallRules
  obtain ⟨target, htarget⟩ := @Stylesheet.exists_generate ⟨smallRules, [], none, none, none, none⟩
    rules family hrename query.path
  refine ⟨_, _, Stylesheet.Collection.run_eq_made hanswer htarget key, rfl, hemitted, ?_⟩
  exact congrArg (List.map smallProject.setup.base.url) hemitted

/-- A new request in the small project makes a stylesheet with one file. -/
theorem start_smallProject {collection : Stylesheet.Collection} {request : Request}
    {kind : LoaderKind} {query : Query} {arguments : List Json.Value}
    (hname : Stylesheet.IsNameOf request.id kind query arguments)
    (hnew : (request.id, request.environment) ∉ collection.environments) (world : Loader.World) :
    ∃ after loaded, collection.start smallProject.setup world request =
        (after, .made request.id loaded) ∧
      loaded.module = query.path ∧ loaded.assets = [smallAsset] ∧
      loaded.urls = [smallProject.setup.base.url smallAsset] := by
  have hregistered : (smallProject.setup.loaders kind).isSome = true := rfl
  obtain ⟨registered, hregistered⟩ := Option.isSome_iff_exists.mp hregistered
  obtain ⟨after, loaded, hrun, hloaded⟩ := run_smallProject hregistered world collection query
    arguments request.id request.isServer
  have hstart := Stylesheet.Collection.start_of_isNameOf hname hregistered hnew world
  exact ⟨after, loaded, hstart.trans hrun, hloaded⟩

/-- If the stylesheet is imported, it is kept and resolves its imports. -/
theorem load_smallProject {request : Request} {kind : LoaderKind} {query : Query}
    {arguments : List Json.Value} (hname : Stylesheet.IsNameOf request.id kind query arguments)
    (hnew : (request.id, request.environment) ∉ session.collection.environments)
    (himported : session.isImported request.id = true) (world : Loader.World) :
    ∃ loaded, loaded.module = query.path ∧ loaded.assets = [smallAsset] ∧
      loaded.urls = [smallProject.setup.base.url smallAsset] ∧
      let outcome := session.load smallProject world request
      outcome.answer = .ok (some loaded.target) ∧
        Holds smallProject request session.collection outcome.session.collection request.id
          loaded ∧
        outcome.session.manifest = session.manifest.record query.path [smallAsset] ∧
        outcome.session.records = (session.mark true [request.id]).records := by
  obtain ⟨after, loaded, hmade, hmodule, hassets, hurls⟩ := start_smallProject hname hnew world
  obtain ⟨hanswer, hholds, -, hmanifest, hrecords⟩ :=
    load_of_made regular_smallProject.confined hmade himported
  rw [hmodule, hassets] at hmanifest
  exact ⟨loaded, hmodule, hassets, hurls, hanswer, hholds, hmanifest, hrecords⟩

/-- The module of the small build waits for its stylesheet. -/
theorem built_smallTransform :
    built smallProject [smallTransform] = empty.awaiting "a.js" smallKey :=
  built_of_callsOnce callsOnce_smallProject isNameOf_smallKey.isKey

/-- The small build has the stylesheet of its module. -/
theorem exists_loaded_smallBuild : ∃ loaded, loaded.module = "a.js" ∧
    loaded.assets = [smallAsset] ∧ loaded.urls = [smallProject.setup.base.url smallAsset] ∧
    (∀ key, (built smallProject smallBuild).collection.stylesheets.get? key =
      if key = smallKey then some loaded else none) ∧
    (∀ seen, seen ∈ (built smallProject smallBuild).collection.environments ↔
      seen = (smallKey, "client")) ∧
    (built smallProject smallBuild).manifest = Manifest.empty.record "a.js" [smallAsset] ∧
    (built smallProject smallBuild).records =
      ((empty.awaiting "a.js" smallKey).mark true [smallKey]).records := by
  have hbuilt : built smallProject smallBuild = ((built smallProject [smallTransform]).load
      smallProject .unconnected ⟨smallKey, "client", false⟩).session :=
    built_load smallProject [smallTransform] .unconnected ⟨smallKey, "client", false⟩
  rw [hbuilt, built_smallTransform]
  obtain ⟨loaded, hmodule, hassets, hurls, -, hholds, hmanifest, hrecords⟩ :=
    @load_smallProject (empty.awaiting "a.js" smallKey) ⟨smallKey, "client", false⟩ _ _ _
      isNameOf_smallKey List.not_mem_nil (isImported_awaiting _ _ _) .unconnected
  refine ⟨loaded, hmodule, hassets, hurls, hholds.stylesheets, fun seen => ?_, hmanifest, hrecords⟩
  rw [hholds.environments]
  exact or_iff_right List.not_mem_nil

theorem allRecords_smallBuild :
    (built smallProject smallBuild).allRecords = [⟨smallKey, smallKey, true⟩] := by
  obtain ⟨_, -, -, -, -, -, -, hrecords⟩ := exists_loaded_smallBuild
  rw [allRecords, hrecords]
  rfl

theorem assets_smallBuild :
    ((built smallProject smallBuild).collection.stylesheets.get? smallKey).map Loaded.assets =
      some [smallAsset] := by
  obtain ⟨loaded, -, hassets, -, hget, -⟩ := exists_loaded_smallBuild
  rw [hget, if_pos rfl, Option.map_some, hassets]

end Session

end FontHosting
