import FontHosting.Proofs.Loader.Effects
import FontHosting.Proofs.Stylesheet.Key
import FontHosting.Proofs.Table
import FontHosting.Stylesheet.Collection

/-!
# Changes of a collection

Stylesheets are dropped by `removeAll`, and made in the two steps `start` and `keep`.
The lemmas here say what each of them does to the stylesheets, to the environments and
to the store.

Keys come from `key?`, and a key is its own key, so everything that is dropped is looked
up under the very key it was kept under.  What `start` can come to is said once, in
`start_cases` and `run_cases`; `takenUp_start` and `madeFor_start` are all that a session
needs to know of it.
-/

namespace FontHosting.Stylesheet

/-- A key whose call is in a module. -/
structure BelongsTo (key module : String) : Prop where
  isKey : key? key = some key
  reads : ∃ query, Query.read? (queryPart key.toList) = some query ∧ query.path = module

theorem BelongsTo.unique {key first second : String} (hfirst : BelongsTo key first)
    (hsecond : BelongsTo key second) : first = second := by
  obtain ⟨query, hread, rfl⟩ := hfirst.reads
  obtain ⟨other, hother, rfl⟩ := hsecond.reads
  rw [hread] at hother
  rw [Option.some_inj.mp hother]

/-- The key of a rendered name belongs to the module in its query. -/
theorem belongsTo_key_render {id : Id} (hloader : '?' ∉ id.loader.toList) {key : String}
    (h : key? (String.ofList id.render) = some key) : BelongsTo key id.query.path :=
  ⟨key?_key h, id.query, read?_key_render hloader h, rfl⟩

/-- Every loader of a setup acts through the functions of its call only. -/
def Setup.Confined (setup : Setup) : Prop :=
  ∀ kind registered, setup.loaders kind = some registered → Loader.Confined registered.loader

/-- A setup with the loaders of the library is confined, whatever the catalog of families. -/
theorem Setup.confined_of_library {setup : Setup}
    (hloaders : ∀ kind registered, setup.loaders kind = some registered →
      (∃ catalog, registered.loader = Google.loader catalog) ∨
        registered.loader = LocalFont.loader ∨
        ∃ script : Loader.Scripted, registered.loader = script.loader) :
    setup.Confined := by
  intro kind registered hregistered
  rcases hloaders kind registered hregistered with ⟨catalog, hloader⟩ | hloader | ⟨script, hloader⟩
  · exact hloader ▸ Loader.confined_google catalog
  · exact hloader ▸ Loader.confined_local
  · exact hloader ▸ Loader.confined_scripted script

namespace Collection

open Loader (World NamesByContent)

variable {collection : Collection}

/-! ## Looking through the stylesheets -/

theorem get?_of_isKey {key : String} (hkey : key? key = some key) :
    collection.get? key = collection.stylesheets.get? key := by
  unfold get?
  rw [hkey]
  rfl

theorem mem_entriesOf {module key : String} {loaded : Loaded} :
    (key, loaded) ∈ collection.entriesOf module ↔
      collection.stylesheets.get? key = some loaded ∧ loaded.module = module := by
  unfold entriesOf
  rw [List.mem_filter, Table.mem_entries_iff, beq_iff_eq]

theorem references_iff {url : String} :
    collection.references url = true ↔
      ∃ key loaded, collection.stylesheets.get? key = some loaded ∧ url ∈ loaded.urls := by
  unfold references
  simp only [List.any_eq_true, Table.mem_values_iff, List.contains_iff_mem]
  constructor
  · rintro ⟨loaded, ⟨key, hkey⟩, hurl⟩
    exact ⟨key, loaded, hkey, hurl⟩
  · rintro ⟨key, loaded, hkey, hurl⟩
    exact ⟨loaded, ⟨key, hkey⟩, hurl⟩

theorem mem_keysUsing {file key : String} :
    key ∈ collection.keysUsing file ↔ ∃ loaded, collection.stylesheets.get? key = some loaded ∧
      (loaded.fontFiles.any fun used => Text.Path.same used file) = true := by
  unfold keysUsing
  simp only [List.mem_map, List.mem_filter]
  constructor
  · rintro ⟨⟨key, loaded⟩, ⟨hmem, hused⟩, rfl⟩
    exact ⟨loaded, Table.mem_entries_iff.mp hmem, hused⟩
  · rintro ⟨loaded, hget, hused⟩
    exact ⟨(key, loaded), ⟨Table.mem_entries_iff.mpr hget, hused⟩, rfl⟩

/-- A stylesheet of a module has an asset. -/
def HasAsset (collection : Collection) (module asset : String) : Prop :=
  ∃ key loaded, collection.stylesheets.get? key = some loaded ∧ loaded.module = module ∧
    asset ∈ loaded.assets

/-! ## Dropping -/

/-- What dropping does not touch. -/
structure KeepsFiles (before after : Collection) : Prop where
  store : after.store = before.store
  caches : after.caches = before.caches
  log : after.log = before.log
  constructed : after.constructed = before.constructed

theorem keepsFiles_removeAll (keys : List String) :
    KeepsFiles collection (collection.removeAll keys).1 := by
  induction keys generalizing collection with
  | nil => exact ⟨rfl, rfl, rfl, rfl⟩
  | cons first rest ih =>
      have hfirst : KeepsFiles collection (collection.remove first).1 := by
        unfold remove
        cases key? first <;> exact ⟨rfl, rfl, rfl, rfl⟩
      have hrest := @ih (collection.remove first).1
      exact ⟨hrest.store.trans hfirst.store, hrest.caches.trans hfirst.caches,
        hrest.log.trans hfirst.log, hrest.constructed.trans hfirst.constructed⟩

theorem remove_of_isKey {key : String} (hkey : key? key = some key) :
    collection.remove key =
      ({ collection with
        environments := collection.environments.filter fun seen => seen.1 != key
        stylesheets := collection.stylesheets.erase key }, collection.stylesheets.get? key) := by
  unfold remove
  rw [hkey]

theorem get?_removeAll {keys : List String} (hkeys : ∀ key ∈ keys, key? key = some key)
    (key : String) : (collection.removeAll keys).1.stylesheets.get? key =
      if key ∈ keys then none else collection.stylesheets.get? key := by
  induction keys generalizing collection with
  | nil => rfl
  | cons first rest ih =>
      rw [removeAll, ih fun key hkey => hkeys key (List.mem_cons_of_mem _ hkey),
        remove_of_isKey (hkeys first List.mem_cons_self), Table.get?_erase]
      by_cases hrest : key ∈ rest
      · simp [hrest]
      · by_cases hfirst : key = first <;> simp [hrest, hfirst]

theorem mem_environments_removeAll {keys : List String} (hkeys : ∀ key ∈ keys, key? key = some key)
    {seen : String × String} : seen ∈ (collection.removeAll keys).1.environments ↔
      seen ∈ collection.environments ∧ seen.1 ∉ keys := by
  induction keys generalizing collection with
  | nil => simp [removeAll]
  | cons first rest ih =>
      rw [removeAll, ih fun key hkey => hkeys key (List.mem_cons_of_mem _ hkey),
        remove_of_isKey (hkeys first List.mem_cons_self), List.mem_filter, bne_iff_ne,
        List.mem_cons, not_or, and_assoc]

theorem mem_dropped_removeAll {keys : List String} (hkeys : ∀ key ∈ keys, key? key = some key)
    {loaded : Loaded} : loaded ∈ (collection.removeAll keys).2 ↔
      ∃ key ∈ keys, collection.stylesheets.get? key = some loaded := by
  induction keys generalizing collection with
  | nil => simp [removeAll]
  | cons first rest ih =>
      rw [removeAll, remove_of_isKey (hkeys first List.mem_cons_self), List.mem_append,
        ih fun key hkey => hkeys key (List.mem_cons_of_mem _ hkey), Option.mem_toList]
      constructor
      · rintro (hget | ⟨key, hkey, hget⟩)
        · exact ⟨first, List.mem_cons_self, hget⟩
        · rw [Table.get?_erase] at hget
          split at hget
          · cases hget
          · exact ⟨key, List.mem_cons_of_mem _ hkey, hget⟩
      · rintro ⟨key, hkey, hget⟩
        by_cases hfirst : key = first
        · exact Or.inl (hfirst ▸ hget)
        · refine Or.inr ⟨key, (List.mem_cons.mp hkey).resolve_left hfirst, ?_⟩
          rw [Table.get?_erase, if_neg hfirst, hget]

/-! ## Making -/

theorem mem_environments_keep {key environment : String} {loaded : Loaded}
    {seen : String × String} : seen ∈ (collection.keep key environment loaded).environments ↔
      seen ∈ collection.environments ∨ seen = (key, environment) := by
  simp only [keep]
  split
  · rename_i hmem
    have hmem : (key, environment) ∈ collection.environments := List.contains_iff_mem.mp hmem
    constructor
    · exact Or.inl
    · rintro (h | rfl)
      · exact h
      · exact hmem
  · rw [List.mem_append, List.mem_singleton]

variable {setup : Setup} {world : World} {request : Request}

/-- What a request can come to. -/
theorem start_cases (setup : Setup) (world : World) (collection : Collection)
    (request : Request) :
    collection.start setup world request = (collection, .unknown) ∨
    (∃ key target, key? request.id = some key ∧
      collection.kept? setup key request.environment = some target ∧
      collection.start setup world request = (collection, .kept key target)) ∨
    (∃ failure, readCall request.id = .error failure ∧
      collection.start setup world request = (collection, .failed failure)) ∨
    ∃ key kind registered query arguments, key? request.id = some key ∧
      LoaderKind.ofTargetPath? (pathPart request.id.toList) = some kind ∧
      setup.loaders kind = some registered ∧
      collection.kept? setup key request.environment = none ∧
      readCall request.id = .ok (query, arguments) ∧
      collection.start setup world request =
        run setup world collection kind registered query arguments key request.isServer := by
  unfold start
  split
  · rename_i key kind hkey hkind
    cases hregistered : setup.loaders kind with
    | none => exact Or.inl rfl
    | some registered =>
        dsimp only
        cases hkept : collection.kept? setup key request.environment with
        | some target => exact Or.inr (Or.inl ⟨key, target, hkey, hkept, rfl⟩)
        | none =>
            dsimp only
            cases hcall : readCall request.id with
            | error failure => exact Or.inr (Or.inr (Or.inl ⟨failure, rfl, rfl⟩))
            | ok call =>
                exact Or.inr (Or.inr (Or.inr
                  ⟨key, kind, registered, call.1, call.2, hkey, hkind, hregistered, hkept, rfl,
                    rfl⟩))
  · exact Or.inl rfl

/-- The state in which a loader starts. -/
def startState (collection : Collection) (kind : LoaderKind) (registered : Registered) :
    Loader.State :=
  let collection := collection.announce kind registered
  .start (collection.caches kind) collection.store collection.log

/-- The state in which a loader ends. -/
def ranState (setup : Setup) (world : World) (collection : Collection) (kind : LoaderKind)
    (registered : Registered) (query : Query) (arguments : List Json.Value) (isServer : Bool) :
    Loader.State :=
  let collection := collection.announce kind registered
  ((registered.loader (callOf setup world query arguments isServer)).run
    (.start (collection.caches kind) collection.store collection.log)).2

/-- What a run of a loader can come to. -/
theorem run_cases (setup : Setup) (world : World) (collection : Collection) (kind : LoaderKind)
    (registered : Registered) (query : Query) (arguments : List Json.Value) (key : String)
    (isServer : Bool) :
    let state := ranState setup world collection kind registered query arguments isServer
    let after := (collection.announce kind registered).absorb kind state
    let answer := run setup world collection kind registered query arguments key isServer
    (∃ error, answer = (after, .failed (.loader error))) ∨
      ∃ output target,
        (registered.loader (callOf setup world query arguments isServer)).run
          (collection.startState kind registered) = (.ok output, state) ∧
        Module.generate setup.minify query.path output = .ok target ∧
        answer = (after, .made key (loadedOf setup query state target)) := by
  intro state after answer
  have hanswer : run setup world collection kind registered query arguments key isServer =
      answer := rfl
  have hstate : ((registered.loader (callOf setup world query arguments isServer)).run
      (collection.startState kind registered)).2 = state := rfl
  unfold run at hanswer
  cases hran : (registered.loader (callOf setup world query arguments isServer)).run
      (collection.startState kind registered) with
  | mk result last =>
      rw [hran] at hstate
      obtain rfl : last = state := hstate
      unfold startState at hran
      dsimp only at hanswer hran
      rw [hran] at hanswer
      cases result with
      | error error => exact Or.inl ⟨error, hanswer.symm⟩
      | ok output =>
          dsimp only at hanswer
          cases hgenerate : Module.generate setup.minify query.path output with
          | error error =>
              rw [hgenerate] at hanswer
              exact Or.inl ⟨error, hanswer.symm⟩
          | ok target =>
              rw [hgenerate] at hanswer
              exact Or.inr ⟨output, target, rfl, hgenerate, hanswer.symm⟩

/-- A run makes a stylesheet if the loader hands out rules that make one. -/
theorem run_eq_made {kind : LoaderKind} {registered : Registered} {query : Query}
    {arguments : List Json.Value} {isServer : Bool} {output : Loader.Output} {target : Module}
    (hran : ((registered.loader (callOf setup world query arguments isServer)).run
      (collection.startState kind registered)).1 = .ok output)
    (hgenerate : Module.generate setup.minify query.path output = .ok target) (key : String) :
    run setup world collection kind registered query arguments key isServer =
      ((collection.announce kind registered).absorb kind
          (ranState setup world collection kind registered query arguments isServer),
        .made key (loadedOf setup query
          (ranState setup world collection kind registered query arguments isServer) target)) := by
  unfold run
  dsimp only
  rw [show ((registered.loader (callOf setup world query arguments isServer)).run
    (.start ((collection.announce kind registered).caches kind)
      (collection.announce kind registered).store (collection.announce kind registered).log)) =
        (.ok output, ranState setup world collection kind registered query arguments isServer)
    from Prod.ext hran rfl]
  dsimp only
  rw [hgenerate]

theorem read?_of_readCall {id : String} {query : Query} {arguments : List Json.Value}
    (h : readCall id = .ok (query, arguments)) :
    Query.read? (queryPart id.toList) = some query := by
  unfold readCall at h
  cases hread : Query.read? (queryPart id.toList) with
  | none => rw [hread] at h; cases h
  | some other =>
      rw [hread] at h
      dsimp only at h
      split at h
      · cases h
      · obtain ⟨rfl, -⟩ := Prod.mk.inj (Except.ok.inj h)
        rfl

/-- What a session needs to know of a request that was taken up. -/
structure TakenUp (setup : Setup) (before after : Collection) : Prop where
  stylesheets : after.stylesheets = before.stylesheets
  environments : after.environments = before.environments
  keeps : ∀ url, before.store.contains url = true → after.store.contains url = true
  names : NamesByContent setup.base before.store → NamesByContent setup.base after.store

theorem TakenUp.refl : TakenUp setup collection collection :=
  ⟨rfl, rfl, fun _ h => h, fun h => h⟩

/-- What a session needs to know of a stylesheet that was made. -/
structure MadeFor (setup : Setup) (request : Request) (after : Collection) (key : String)
    (loaded : Loaded) : Prop where
  isKey : key? request.id = some key
  module : ∃ query, Query.read? (queryPart request.id.toList) = some query ∧
    query.path = loaded.module
  urls : loaded.urls = loaded.assets.map setup.base.url
  stored : ∀ asset ∈ loaded.assets, after.store.contains (setup.base.url asset) = true

theorem announce_frame (collection : Collection) (kind : LoaderKind) (registered : Registered) :
    (collection.announce kind registered).stylesheets = collection.stylesheets ∧
      (collection.announce kind registered).environments = collection.environments ∧
      (collection.announce kind registered).store = collection.store := by
  unfold announce
  split <;> exact ⟨rfl, rfl, rfl⟩

/-- The effects of a confined loader, from the store of the collection on. -/
theorem grown_ranState (hconfined : setup.Confined) (world : World) (collection : Collection)
    {kind : LoaderKind} {registered : Registered}
    (hregistered : setup.loaders kind = some registered) (query : Query)
    (arguments : List Json.Value) (isServer : Bool) :
    let start := Loader.State.start ((collection.announce kind registered).caches kind)
      collection.store (collection.announce kind registered).log
    Loader.Grown setup.base start
      (ranState setup world collection kind registered query arguments isServer) := by
  intro start
  have heffects := hconfined kind registered hregistered
    (callOf setup world query arguments isServer) start
  have hstore := (announce_frame collection kind registered).2.2
  unfold ranState
  dsimp only
  rw [hstore]
  exact heffects.grown

theorem takenUp_run (hconfined : setup.Confined) (world : World) (collection : Collection)
    {kind : LoaderKind} {registered : Registered}
    (hregistered : setup.loaders kind = some registered) (query : Query)
    (arguments : List Json.Value) (isServer : Bool) :
    TakenUp setup collection ((collection.announce kind registered).absorb kind
      (ranState setup world collection kind registered query arguments isServer)) := by
  obtain ⟨hstylesheets, henvironments, -⟩ :=
    announce_frame collection kind registered
  have hgrown := grown_ranState hconfined world collection hregistered query arguments isServer
  exact ⟨hstylesheets, henvironments, hgrown.keeps, hgrown.names⟩

/-- **Taking up a request changes no stylesheet**, and the store only grows. -/
theorem takenUp_start (hconfined : setup.Confined) (world : World) (collection : Collection)
    (request : Request) :
    TakenUp setup collection (collection.start setup world request).1 := by
  rcases start_cases setup world collection request with hstart | ⟨key, target, -, -, hstart⟩ |
    ⟨failure, -, hstart⟩ |
    ⟨key, kind, registered, query, arguments, -, -, hregistered, -, -, hstart⟩
  · rw [hstart]
    exact .refl
  · rw [hstart]
    exact .refl
  · rw [hstart]
    exact .refl
  · have htaken := takenUp_run hconfined world collection hregistered query arguments
      request.isServer
    rw [hstart]
    rcases run_cases setup world collection kind registered query arguments key request.isServer
      with ⟨error, hrun⟩ | ⟨output, target, -, -, hrun⟩ <;> rw [hrun] <;> exact htaken

/-- A stylesheet that was made is that of a loader's run. -/
theorem made_start {after : Collection} {key : String} {loaded : Loaded}
    (h : collection.start setup world request = (after, .made key loaded)) :
    ∃ kind registered query arguments,
      LoaderKind.ofTargetPath? (pathPart request.id.toList) = some kind ∧
      setup.loaders kind = some registered ∧
      key? request.id = some key ∧ readCall request.id = .ok (query, arguments) ∧
      let state := ranState setup world collection kind registered query arguments request.isServer
      (collection.announce kind registered).absorb kind state = after ∧
      ∃ output target,
        (registered.loader (callOf setup world query arguments request.isServer)).run
          (collection.startState kind registered) = (.ok output, state) ∧
        Module.generate setup.minify query.path output = .ok target ∧
        loadedOf setup query state target = loaded := by
  rcases start_cases setup world collection request with hstart | ⟨_, _, -, -, hstart⟩ |
    ⟨_, -, hstart⟩ |
    ⟨key', kind, registered, query, arguments, hkey, hkind, hregistered, -, hcall, hstart⟩
  · rw [hstart] at h; cases h
  · rw [hstart] at h; cases h
  · rw [hstart] at h; cases h
  · rw [hstart] at h
    rcases run_cases setup world collection kind registered query arguments key' request.isServer
      with ⟨error, hrun⟩ | ⟨output, target, hran, hgenerate, hrun⟩
    · rw [hrun] at h; cases h
    · rw [hrun] at h
      obtain ⟨hafter, hmade⟩ := Prod.mk.inj h
      obtain ⟨rfl, hloaded⟩ := Started.made.inj hmade
      exact ⟨kind, registered, query, arguments, hkind, hregistered, hkey, hcall, hafter, output,
        target, hran, hgenerate, hloaded⟩

/-- **A stylesheet that was made is that of the request**, and its files are in the store. -/
theorem madeFor_start (hconfined : setup.Confined) {after : Collection} {key : String}
    {loaded : Loaded} (h : collection.start setup world request = (after, .made key loaded)) :
    MadeFor setup request after key loaded := by
  obtain ⟨kind, registered, query, arguments, -, hregistered, hkey, hcall, rfl, _, _, -, -, rfl⟩ :=
    made_start h
  have hgrown := grown_ranState hconfined world collection hregistered query arguments
    request.isServer
  refine ⟨hkey, ⟨query, read?_of_readCall hcall, rfl⟩, rfl, fun asset hasset => ?_⟩
  exact (hgrown.stores asset hasset).resolve_left List.not_mem_nil

/-- **What a request adds to the store are the files of the stylesheet that it makes.** -/
theorem stored_of_start (hconfined : setup.Confined) {after : Collection} {key : String}
    {loaded : Loaded} (h : collection.start setup world request = (after, .made key loaded))
    {url : String} (hurl : after.store.contains url = true) :
    collection.store.contains url = true ∨ url ∈ loaded.urls := by
  obtain ⟨kind, registered, query, arguments, -, hregistered, -, -, rfl, _, _, -, -, rfl⟩ :=
    made_start h
  rcases (grown_ranState hconfined world collection hregistered query arguments
    request.isServer).sourced url hurl with hstored | hemitted
  · exact Or.inl hstored
  · exact Or.inr (List.mem_map.mpr hemitted)

/-- The names that the loader of a request emits. -/
def emittedFor (setup : Setup) (world : World) (collection : Collection) (request : Request) :
    List String :=
  match LoaderKind.ofTargetPath? (pathPart request.id.toList), readCall request.id with
  | some kind, .ok (query, arguments) =>
      match setup.loaders kind with
      | none => []
      | some registered =>
          (ranState setup world collection kind registered query arguments
            request.isServer).emitted
  | _, _ => []

/-- **A request that fails adds exactly the files that its loader emitted before it failed**,
and one whose call cannot be read changes nothing. -/
theorem failed_start (hconfined : setup.Confined) {after : Collection} {failure : Failure}
    (h : collection.start setup world request = (after, .failed failure)) :
    (∀ url, after.store.contains url = true ↔ collection.store.contains url = true ∨
      ∃ name ∈ emittedFor setup world collection request, setup.base.url name = url) ∧
    ((∀ error, failure ≠ .loader error) → after = collection) := by
  rcases start_cases setup world collection request with hstart | ⟨_, _, -, -, hstart⟩ |
    ⟨failed, hcall, hstart⟩ |
    ⟨key, kind, registered, query, arguments, -, hkind, hregistered, -, hcall, hstart⟩
  · rw [hstart] at h; cases h
  · rw [hstart] at h; cases h
  · rw [hstart] at h
    obtain ⟨rfl, hfailed⟩ := Prod.mk.inj h
    obtain rfl := Started.failed.inj hfailed
    have hnone : emittedFor setup world collection request = [] := by
      unfold emittedFor
      rw [hcall]
      cases LoaderKind.ofTargetPath? (pathPart request.id.toList) <;> rfl
    rw [hnone]
    simp
  · rw [hstart] at h
    have hemitted : emittedFor setup world collection request =
        (ranState setup world collection kind registered query arguments
          request.isServer).emitted := by
      unfold emittedFor
      rw [hcall, hkind]
      dsimp only
      rw [hregistered]
    have hgrown := grown_ranState hconfined world collection hregistered query arguments
      request.isServer
    rcases run_cases setup world collection kind registered query arguments key request.isServer
      with ⟨error, hrun⟩ | ⟨_, _, -, -, hrun⟩
    · rw [hrun] at h
      obtain ⟨rfl, hfailed⟩ := Prod.mk.inj h
      obtain rfl := Started.failed.inj hfailed
      refine ⟨fun url => ?_, fun hcall => absurd rfl (hcall error)⟩
      rw [hemitted]
      constructor
      · exact hgrown.sourced url
      · intro hurl
        rcases hurl with hstored | ⟨name, hname, rfl⟩
        · exact hgrown.keeps url hstored
        · exact (hgrown.stores name hname).resolve_left List.not_mem_nil
    · rw [hrun] at h; cases h

/-- A request for no stylesheet leaves the collection as it is. -/
theorem unknown_start {after : Collection}
    (h : collection.start setup world request = (after, .unknown)) : after = collection := by
  rcases start_cases setup world collection request with hstart | ⟨_, _, -, -, hstart⟩ |
    ⟨_, -, hstart⟩ | ⟨key, kind, registered, query, arguments, -, -, -, -, -, hstart⟩
  · rw [hstart] at h
    exact (Prod.mk.inj h).1.symm
  · rw [hstart] at h; cases h
  · rw [hstart] at h; cases h
  · rw [hstart] at h
    rcases run_cases setup world collection kind registered query arguments key request.isServer
      with ⟨_, hrun⟩ | ⟨_, _, -, -, hrun⟩ <;> rw [hrun] at h <;> cases h

/-- What is kept is the stylesheet of the request. -/
theorem kept_start {after : Collection} {key : String} {target : Module}
    (h : collection.start setup world request = (after, .kept key target)) :
    after = collection ∧ key? request.id = some key ∧
      (key, request.environment) ∈ collection.environments ∧
      ∃ loaded, collection.stylesheets.get? key = some loaded ∧ loaded.target = target := by
  rcases start_cases setup world collection request with hstart |
    ⟨key', target', hkey, hkept, hstart⟩ | ⟨_, -, hstart⟩ |
    ⟨key', kind, registered, query, arguments, -, -, -, -, -, hstart⟩
  · rw [hstart] at h; cases h
  · rw [hstart] at h
    obtain ⟨rfl, hsame⟩ := Prod.mk.inj h
    obtain ⟨rfl, rfl⟩ := Started.kept.inj hsame
    refine ⟨rfl, hkey, ?_⟩
    unfold kept? at hkept
    split at hkept
    · rename_i hseen
      exact ⟨List.contains_iff_mem.mp (Bool.and_eq_true_iff.mp hseen).2,
        Option.map_eq_some_iff.mp hkept⟩
    · cases hkept
  · rw [hstart] at h; cases h
  · rw [hstart] at h
    rcases run_cases setup world collection kind registered query arguments key' request.isServer
      with ⟨_, hrun⟩ | ⟨_, _, -, -, hrun⟩ <;> rw [hrun] at h <;> cases h

end Collection

end FontHosting.Stylesheet
