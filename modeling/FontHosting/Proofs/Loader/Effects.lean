import FontHosting.Loader.Scripted
import FontHosting.Proofs.Loader.Composition
import FontHosting.Proofs.Table
import Mathlib.Logic.Relation

/-!
# What a loader can do

A loader sees the session only through the functions of its call.  An `Effect` is one
step that such a function takes on the state, and a loader is `Confined` if every run
of it is a sequence of effects, whatever the world answers and whether the run ends
well or not.  The loaders of the library are confined, and so is every loader put
together from the functions of a call.

What a session needs to know of a run follows by induction on its effects
(`Effects.grown`): the store only grows, every file in it lies under the URL of its
own name, and what it has gained are the emitted names.
-/

namespace FontHosting.Loader

open Asset (Bytes Store UrlBase)

/-! ## Effects -/

/-- The state after a font file was put into the store. -/
def State.put (base : UrlBase) (content : Bytes) (extension : String)
    (preload sizeAdjusted : Bool) (state : State) : State :=
  let name := Asset.fileName content extension preload sizeAdjusted
  { state with
    store := state.store.insert (base.url name) ⟨name, content⟩
    emitted := if state.emitted.contains name then state.emitted else state.emitted ++ [name] }

/-- One step that the functions of a call take on the state of a loader. -/
inductive Effect (base : UrlBase) : State → State → Prop where
  | tell (state : State) (event : Event) : Effect base state (state.tell event)
  | cache (state : State) (caches : Caches) : Effect base state { state with caches }
  | resolve (state : State) (path : String) :
      Effect base state { state with resolved := state.resolved ++ [path] }
  | report (state : State) (message : String) :
      Effect base state { state with errors := state.errors ++ [message] }
  | put (state : State) (content : Bytes) (extension : String) (preload sizeAdjusted : Bool) :
      Effect base state (state.put base content extension preload sizeAdjusted)

/-- A sequence of effects. -/
abbrev Effects (base : UrlBase) : State → State → Prop :=
  Relation.ReflTransGen (Effect base)

/-- A run changes the state by effects only. -/
def Within {α : Type} (base : UrlBase) (run : Run α) : Prop :=
  ∀ state, Effects base state (run.run state).2

/-- A loader acts through the functions of its call only. -/
def Confined (loader : FontLoader) : Prop :=
  ∀ call, Within call.base (loader call)

/-! ## Putting runs together -/

variable {α β : Type} {base : UrlBase}

theorem within_pure (value : α) : Within base (pure value : Run α) :=
  fun _ => .refl

theorem within_throw (error : Error) : Within base (throw error : Run α) :=
  fun _ => .refl

/-- What runs after another run starts where that one ended. -/
theorem run_bind (first : Run α) (next : α → Run β) (state : State) :
    (first >>= next).run state =
      match first.run state with
      | (.ok value, state) => (next value).run state
      | (.error error, state) => (.error error, state) := by
  show (ExceptT.bindCont next (first.run state).1).run (first.run state).2 = _
  rcases first.run state with ⟨_ | _, _⟩ <;> rfl

/-- A handler starts where the run that failed ended. -/
theorem run_tryCatch (first : Run α) (handler : Error → Run α) (state : State) :
    (tryCatch first handler).run state =
      match first.run state with
      | (.ok value, state) => (.ok value, state)
      | (.error error, state) => (handler error).run state := by
  simp only [tryCatch, tryCatchThe, MonadExceptOf.tryCatch, ExceptT.tryCatch, ExceptT.run,
    ExceptT.mk, bind, StateT.bind]
  rcases first state with ⟨_ | _, _⟩ <;> rfl

theorem within_bind {first : Run α} {next : α → Run β} (hfirst : Within base first)
    (hnext : ∀ value, Within base (next value)) : Within base (first >>= next) := by
  intro state
  have hstate := hfirst state
  rw [run_bind]
  rcases hanswer : first.run state with ⟨error | value, after⟩
  · rwa [hanswer] at hstate
  · rw [hanswer] at hstate
    exact hstate.trans (hnext value after)

theorem within_tryCatch {first : Run α} {handler : Error → Run α} (hfirst : Within base first)
    (hhandler : ∀ error, Within base (handler error)) :
    Within base (tryCatch first handler) := by
  intro state
  have hstate := hfirst state
  rw [run_tryCatch]
  rcases hanswer : first.run state with ⟨error | value, after⟩
  · rw [hanswer] at hstate
    exact hstate.trans (hhandler error after)
  · rwa [hanswer] at hstate

theorem within_forIn {run : α → Run (ForInStep PUnit)} (h : ∀ value, Within base (run value))
    (values : List α) : Within base (forIn values PUnit.unit fun value _ => run value) := by
  induction values with
  | nil => exact within_pure PUnit.unit
  | cons value rest ih =>
      rw [List.forIn_cons]
      refine within_bind (h value) fun step => ?_
      cases step with
      | done => exact within_pure _
      | yield => exact ih

theorem within_modify {change : State → State} (h : ∀ state, Effects base state (change state)) :
    Within base (modify change : Run PUnit) :=
  h

/-- A run that looks at the state before it changes it. -/
theorem within_get_set {change : State → State} {next : State → Run α}
    (hchange : ∀ state, Effects base state (change state))
    (hnext : ∀ state, Within base (next state)) :
    Within base (do let before ← get; set (change before); next before) := by
  intro state
  have hrun : (do let before ← get; set (change before); next before : Run α).run state =
      (next state).run (change state) := rfl
  rw [hrun]
  exact (hchange state).trans (hnext state (change state))

/-! ## The functions of a call -/

section
variable (call : Call)

theorem within_emit (content : Bytes) (extension : String) (preload sizeAdjusted : Bool) :
    Within call.base (emit call content extension preload sizeAdjusted) := by
  refine within_bind (within_modify fun state => ?_) fun _ => within_pure _
  let told := if call.isDev then state
    else state.tell (.emit (Asset.fileName content extension preload sizeAdjusted) content)
  have htold : Effects call.base state told := by
    unfold told
    split
    · exact .refl
    · exact .single (.tell state _)
  exact htold.tail (.put told content extension preload sizeAdjusted)

theorem within_resolve (source : String) : Within base (resolve call source) :=
  within_bind (within_modify fun state => .single (.resolve state _)) fun _ => within_pure _

theorem within_report (message : String) : Within base (report message) :=
  within_modify fun state => .single (.report state message)

/-- How a loader goes on when a file was asked for. -/
def answerFile (path : String) : Except String Asset.Bytes → Run Asset.Bytes
  | .ok content => pure content
  | .error reason => throw (.notRead path reason)

/-- To read a file is told of, whatever the world has. -/
theorem run_readFile (call : Call) (path : String) (before : State) :
    (readFile call path).run before =
      (answerFile path (call.world.file before.log path)).run (before.tell (.askFile path)) :=
  rfl

theorem within_readFile (path : String) : Within base (readFile call path) := by
  refine within_get_set (fun state => .single (.tell state _)) fun state => ?_
  cases call.world.file state.log path with
  | ok content => exact within_pure content
  | error reason => exact within_throw _

/-- A download that was not in the cache is told of, and the cache changes either way. -/
private theorem effects_fetch (state : State) (fetched : Bool) (event : Event)
    (change : Caches → Caches) :
    let after := if fetched then state.tell event else state
    Effects base state { after with caches := change after.caches } := by
  intro after
  have hafter : Effects base state after := by
    unfold after
    split
    · exact .single (.tell state event)
    · exact .refl
  exact hafter.tail (.cache after _)

theorem within_fetchStylesheet (url family : String) :
    Within base (fetchStylesheet call url family) := by
  refine within_get_set (fun state => ?_) fun _ => within_pure _
  exact effects_fetch state _ (.askStylesheet url family call.isDev) fun caches =>
    { caches with stylesheets := _ }

theorem within_fetchFont (url : String) : Within base (fetchFont call url) := by
  refine within_get_set (fun state => ?_) fun _ => within_pure _
  exact effects_fetch state _ (.askFont url call.isDev) fun caches => { caches with fonts := _ }

end

/-! ## The loaders -/

/-- What acts through the functions of its call does so wherever it is put together. -/
theorem closed_within (call : Call) : Closed call (Within call.base) where
  pure := within_pure
  throw := within_throw
  bind := within_bind
  tryCatch := within_tryCatch
  emit content extension _ := within_emit call content extension
  resolve := within_resolve call
  report := within_report
  readFile := within_readFile call
  fetchStylesheet := within_fetchStylesheet call
  fetchFont := within_fetchFont call

/-- The loader of font families is confined. -/
theorem confined_google (catalog : Google.Catalog) : Confined (Google.loader catalog) :=
  fun call => (closed_within call).google catalog

/-- The loader of font files is confined. -/
theorem confined_local : Confined LocalFont.loader :=
  fun call => (closed_within call).files

/-- A loader that does what it is told is confined. -/
theorem confined_scripted (script : Scripted) : Confined script.loader := by
  intro call
  refine within_bind (within_modify fun state => .single (.tell state _)) fun _ => ?_
  refine within_bind ((closed_within call).mapM fun file _ => ?_) fun urls => ?_
  · exact within_emit call file.content file.extension file.preload file.sizeAdjusted
  refine within_bind (within_forIn (fun source => ?_) script.resolved) fun _ => ?_
  · exact within_bind (within_resolve call source) fun _ => within_pure _
  refine within_bind (within_forIn (fun message => ?_) script.errors) fun _ => ?_
  · exact within_bind (within_report message) fun _ => within_pure _
  cases script.failure with
  | some reason => exact within_throw _
  | none => exact within_pure _

/-! ## What follows from the effects -/

/-- Every file lies under the URL of its own name, which is made of its content. -/
def NamesByContent (base : UrlBase) (store : Store) : Prop :=
  ∀ url font, store.get? url = some font → url = base.url font.fileName ∧
    ∃ extension preload sizeAdjusted,
      Asset.fileName font.content extension preload sizeAdjusted = font.fileName

/-- What a session may rely on after a run. -/
structure Grown (base : UrlBase) (before after : State) : Prop where
  keeps : ∀ url, before.store.contains url = true → after.store.contains url = true
  names : NamesByContent base before.store → NamesByContent base after.store
  stores : ∀ name ∈ after.emitted,
    name ∈ before.emitted ∨ after.store.contains (base.url name) = true
  emits : ∀ name ∈ before.emitted, name ∈ after.emitted
  sourced : ∀ url, after.store.contains url = true →
    before.store.contains url = true ∨ ∃ name ∈ after.emitted, base.url name = url

theorem Grown.of_eq {before after : State} (hstore : after.store = before.store)
    (hemitted : after.emitted = before.emitted) : Grown base before after :=
  ⟨fun _ h => hstore ▸ h, fun h => hstore ▸ h, fun _ h => Or.inl (hemitted ▸ h),
    fun _ h => hemitted ▸ h, fun _ h => Or.inl (hstore ▸ h)⟩

theorem Grown.trans {first second third : State} (hfirst : Grown base first second)
    (hsecond : Grown base second third) : Grown base first third where
  keeps url h := hsecond.keeps url (hfirst.keeps url h)
  names h := hsecond.names (hfirst.names h)
  stores name h := by
    rcases hsecond.stores name h with hmem | hstored
    · rcases hfirst.stores name hmem with hmem | hstored
      · exact Or.inl hmem
      · exact Or.inr (hsecond.keeps _ hstored)
    · exact Or.inr hstored
  emits name h := hsecond.emits name (hfirst.emits name h)
  sourced url h := by
    rcases hsecond.sourced url h with hstored | hemitted
    · rcases hfirst.sourced url hstored with hstored | ⟨name, hname, hurl⟩
      · exact Or.inl hstored
      · exact Or.inr ⟨name, hsecond.emits name hname, hurl⟩
    · exact Or.inr hemitted

theorem mem_emitted_put {state : State} {content : Bytes} {extension : String}
    {preload sizeAdjusted : Bool} {name : String} :
    name ∈ (state.put base content extension preload sizeAdjusted).emitted ↔
      name ∈ state.emitted ∨ name = Asset.fileName content extension preload sizeAdjusted := by
  simp only [State.put]
  split
  · rename_i hmem
    constructor
    · exact Or.inl
    · rintro (h | rfl)
      · exact h
      · exact List.contains_iff_mem.mp hmem
  · rw [List.mem_append, List.mem_singleton]

/-- Putting a file into the store is the only effect that changes it. -/
theorem Effect.grown {before after : State} (h : Effect base before after) :
    Grown base before after := by
  cases h with
  | tell event => exact .of_eq rfl rfl
  | cache caches => exact .of_eq rfl rfl
  | resolve path => exact .of_eq rfl rfl
  | report message => exact .of_eq rfl rfl
  | put content extension preload sizeAdjusted =>
      constructor
      · intro url hurl
        exact Table.contains_insert.mpr (Or.inr hurl)
      · intro hnames url font hget
        simp only [State.put, Table.get?_insert] at hget
        split at hget
        · rename_i hurl
          obtain rfl := Option.some_inj.mp hget
          exact ⟨hurl, extension, preload, sizeAdjusted, rfl⟩
        · exact hnames url font hget
      · intro name hname
        rcases mem_emitted_put.mp hname with hname | rfl
        · exact Or.inl hname
        · exact Or.inr (Table.contains_insert.mpr (Or.inl rfl))
      · exact fun name hname => mem_emitted_put.mpr (Or.inl hname)
      · intro url hurl
        rcases Table.contains_insert.mp hurl with rfl | hurl
        · exact Or.inr ⟨_, mem_emitted_put.mpr (Or.inr rfl), rfl⟩
        · exact Or.inl hurl

/-- **A sequence of effects only adds files to the store**, and those are the files that
were emitted on the way. -/
theorem Effects.grown {before after : State} (h : Effects base before after) :
    Grown base before after := by
  induction h with
  | refl => exact .of_eq rfl rfl
  | tail _ hlast ih => exact ih.trans hlast.grown

end FontHosting.Loader
