import FontHosting.Proofs.Loader.Effects

/-!
# Loaders in a world that does not change

The caches of a loader hand every download out once and keep the next one, so whether a
loader asks the net depends on all that was asked before.  What it comes to does not, if the
world answers every question always in the same way (`World.IsFixed`): then every cache is
`IsTrue`, which says that its entries are the answers of the world, and it makes no difference
whether an answer is taken from it or fetched (`Cache.IsTrue.takeOrFetch`).

So a run is determined by its call: two runs from states that are `Alike`, which may differ
in their caches and logs, end in the same way and are alike afterwards (`Agrees`).  Of the
stores it is only asked that files which are put into both keep them in some relation, so
that the same lemmas serve for equal stores and for stores of which one has more.
-/

namespace FontHosting.Loader

open Asset (Bytes Store StoredFont)

/-- A world whose answers do not depend on what happened before, and whose stylesheets do not
depend on the family but on the URL. -/
structure World.IsFixed (world : World) : Prop where
  stylesheet : ∀ (url : String) (isDev : Bool) (log later : List Event) (family other : String),
    world.stylesheet log url family isDev = world.stylesheet later url other isDev
  font : ∀ (url : String) (isDev : Bool) (log later : List Event),
    world.font log url isDev = world.font later url isDev
  file : ∀ (path : String) (log later : List Event), world.file log path = world.file later path

/-! ## True caches -/

/-- Every entry of a cache is the answer to its key. -/
def Cache.IsTrue {α : Type} (answer : String → Option α) (cache : Cache α) : Prop :=
  ∀ key outcome, cache.get? key = some outcome → outcome = answer key

theorem Cache.isTrue_empty {α : Type} (answer : String → Option α) :
    Cache.IsTrue answer Table.empty := by
  intro key outcome h
  cases h

/-- **A true cache gives the answer**, from its entry or from the outcome of fetching it, and
stays true. -/
theorem Cache.IsTrue.takeOrFetch {α : Type} {answer : String → Option α} {cache : Cache α}
    (h : cache.IsTrue answer) (key : String) :
    (cache.takeOrFetch key (answer key)).value = answer key ∧
      (cache.takeOrFetch key (answer key)).cache.IsTrue answer := by
  unfold Cache.takeOrFetch
  cases hget : cache.get? key with
  | none =>
      refine ⟨rfl, fun other outcome hother => ?_⟩
      rw [Table.get?_insert] at hother
      split at hother
      · rename_i hsame
        rw [hsame, ← Option.some_inj.mp hother]
      · exact h other outcome hother
  | some stored =>
      refine ⟨h key stored hget, fun other outcome hother => ?_⟩
      rw [Table.get?_erase] at hother
      split at hother
      · cases hother
      · exact h other outcome hother

/-- The entries of both caches are what the world answers. -/
structure Caches.AreTrue (world : World) (isDev : Bool) (caches : Caches) : Prop where
  stylesheets : caches.stylesheets.IsTrue fun url => world.stylesheet [] url "" isDev
  fonts : caches.fonts.IsTrue fun url => world.font [] url isDev

theorem Caches.areTrue_empty (world : World) (isDev : Bool) :
    Caches.empty.AreTrue world isDev :=
  ⟨Cache.isTrue_empty _, Cache.isTrue_empty _⟩

/-! ## Runs that agree -/

/-- Two stores stay in a relation when the same file is put into both. -/
def KeptByFiles (stores : Store → Store → Prop) : Prop :=
  ∀ first second, stores first second → ∀ (url : String) (font : StoredFont),
    stores (first.insert url font) (second.insert url font)

/-- Two states have the same output, related stores and true caches. -/
structure Alike (stores : Store → Store → Prop) (world : World) (isDev : Bool)
    (first second : State) : Prop where
  stores : stores first.store second.store
  emitted : first.emitted = second.emitted
  resolved : first.resolved = second.resolved
  errors : first.errors = second.errors
  first : first.caches.AreTrue world isDev
  second : second.caches.AreTrue world isDev

/-- A run comes to the same from any two states that are alike. -/
def Agrees {α : Type} (stores : Store → Store → Prop) (call : Call) (run : Run α) : Prop :=
  ∀ first second, Alike stores call.world call.isDev first second →
    (run.run first).1 = (run.run second).1 ∧
      Alike stores call.world call.isDev (run.run first).2 (run.run second).2

/-- A loader is determined by its call, as long as the world does not change. -/
def IsDetermined (loader : FontLoader) : Prop :=
  ∀ call, call.world.IsFixed → ∀ stores, KeptByFiles stores → Agrees stores call (loader call)

variable {stores : Store → Store → Prop} {call : Call} {α β : Type}

theorem agrees_pure (value : α) : Agrees stores call (pure value : Run α) :=
  fun _ _ halike => ⟨rfl, halike⟩

theorem agrees_throw (error : Error) : Agrees stores call (throw error : Run α) :=
  fun _ _ halike => ⟨rfl, halike⟩

theorem agrees_bind {run : Run α} {next : α → Run β} (hrun : Agrees stores call run)
    (hnext : ∀ value, Agrees stores call (next value)) : Agrees stores call (run >>= next) := by
  intro first second halike
  obtain ⟨hanswer, hafter⟩ := hrun first second halike
  rw [run_bind, run_bind]
  rcases hfirst : run.run first with ⟨error | value, firstAfter⟩ <;>
    rcases hsecond : run.run second with ⟨other | other, secondAfter⟩ <;>
    rw [hfirst, hsecond] at hanswer hafter
  · cases hanswer
    exact ⟨rfl, hafter⟩
  · cases hanswer
  · cases hanswer
  · cases hanswer
    exact hnext value firstAfter secondAfter hafter

theorem agrees_tryCatch {run : Run α} {handler : Error → Run α} (hrun : Agrees stores call run)
    (hhandler : ∀ error, Agrees stores call (handler error)) :
    Agrees stores call (tryCatch run handler) := by
  intro first second halike
  obtain ⟨hanswer, hafter⟩ := hrun first second halike
  rw [run_tryCatch, run_tryCatch]
  rcases hfirst : run.run first with ⟨error | value, firstAfter⟩ <;>
    rcases hsecond : run.run second with ⟨other | other, secondAfter⟩ <;>
    rw [hfirst, hsecond] at hanswer hafter
  · cases hanswer
    exact hhandler error firstAfter secondAfter hafter
  · cases hanswer
  · cases hanswer
  · cases hanswer
    exact ⟨rfl, hafter⟩

theorem agrees_modify {change : State → State}
    (h : ∀ first second, Alike stores call.world call.isDev first second →
      Alike stores call.world call.isDev (change first) (change second)) :
    Agrees stores call (modify change : Run PUnit) :=
  fun first second halike => ⟨rfl, h first second halike⟩

namespace Alike

variable {world : World} {isDev : Bool} {first second : State}

/-- Events do not matter. -/
theorem tell (h : Alike stores world isDev first second) (event : Event) :
    Alike stores world isDev (first.tell event) (second.tell event) :=
  ⟨h.stores, h.emitted, h.resolved, h.errors, h.first, h.second⟩

/-- It does not matter which of two runs has to ask. -/
theorem ask (h : Alike stores world isDev first second) (event : Event)
    (firstAsks secondAsks : Bool) :
    Alike stores world isDev (if firstAsks then first.tell event else first)
      (if secondAsks then second.tell event else second) := by
  cases firstAsks <;> cases secondAsks <;>
    exact ⟨h.stores, h.emitted, h.resolved, h.errors, h.first, h.second⟩

theorem put (h : Alike stores world isDev first second) (hkept : KeptByFiles stores)
    (base : Asset.UrlBase) (content : Bytes) (extension : String) (preload sizeAdjusted : Bool) :
    Alike stores world isDev (first.put base content extension preload sizeAdjusted)
      (second.put base content extension preload sizeAdjusted) := by
  refine ⟨hkept _ _ h.stores _ _, ?_, h.resolved, h.errors, h.first, h.second⟩
  unfold State.put
  dsimp only
  rw [h.emitted]

theorem caches (h : Alike stores world isDev first second) {one other : Caches}
    (hone : one.AreTrue world isDev) (hother : other.AreTrue world isDev) :
    Alike stores world isDev { first with caches := one } { second with caches := other } :=
  ⟨h.stores, h.emitted, h.resolved, h.errors, hone, hother⟩

end Alike

/-! ## The functions of a call -/

theorem agrees_emit (hkept : KeptByFiles stores) (content : Bytes) (extension : String)
    (preload sizeAdjusted : Bool) :
    Agrees stores call (emit call content extension preload sizeAdjusted) := by
  refine agrees_bind (agrees_modify fun first second halike => ?_) fun _ => agrees_pure _
  let told (state : State) := if call.isDev then state
    else state.tell (.emit (Asset.fileName content extension preload sizeAdjusted) content)
  have htold : Alike stores call.world call.isDev (told first) (told second) := by
    unfold told
    by_cases hdev : call.isDev = true
    · rw [if_pos hdev, if_pos hdev]
      exact halike
    · rw [if_neg hdev, if_neg hdev]
      exact halike.tell _
  exact htold.put hkept call.base content extension preload sizeAdjusted

theorem agrees_resolve (source : String) : Agrees stores call (resolve call source) := by
  refine agrees_bind (agrees_modify fun first second halike => ?_) fun _ => agrees_pure _
  exact ⟨halike.stores, halike.emitted, congrArg (· ++ _) halike.resolved, halike.errors,
    halike.first, halike.second⟩

theorem agrees_report (message : String) : Agrees stores call (report message) := by
  refine agrees_modify fun first second halike => ?_
  exact ⟨halike.stores, halike.emitted, halike.resolved, congrArg (· ++ _) halike.errors,
    halike.first, halike.second⟩

theorem agrees_readFile (hfixed : call.world.IsFixed) (path : String) :
    Agrees stores call (readFile call path) := by
  intro first second halike
  rw [run_readFile, run_readFile, hfixed.file path first.log second.log]
  cases call.world.file second.log path with
  | ok content => exact ⟨rfl, halike.tell _⟩
  | error reason => exact ⟨rfl, halike.tell _⟩

/-- A stylesheet is the answer of the world, whether it is in the cache or not. -/
theorem agrees_fetchStylesheet (hfixed : call.world.IsFixed) (url family : String) :
    Agrees stores call (fetchStylesheet call url family) := by
  intro first second halike
  let taken (state : State) := state.caches.stylesheets.takeOrFetch url
    (call.world.stylesheet state.log url family call.isDev)
  have htaken : ∀ state : State, state.caches.AreTrue call.world call.isDev →
      (taken state).value = call.world.stylesheet [] url "" call.isDev ∧
        Cache.IsTrue (fun url => call.world.stylesheet [] url "" call.isDev)
          (taken state).cache := by
    intro state htrue
    unfold taken
    rw [hfixed.stylesheet url call.isDev state.log [] family ""]
    exact htrue.stylesheets.takeOrFetch url
  obtain ⟨hfirst, hfirstTrue⟩ := htaken first halike.first
  obtain ⟨hsecond, hsecondTrue⟩ := htaken second halike.second
  have hasked := halike.ask (.askStylesheet url family call.isDev) (taken first).fetched
    (taken second).fetched
  exact ⟨congrArg Except.ok (hfirst.trans hsecond.symm),
    hasked.caches ⟨hfirstTrue, hasked.first.fonts⟩ ⟨hsecondTrue, hasked.second.fonts⟩⟩

/-- A font file is the answer of the world, whether it is in the cache or not. -/
theorem agrees_fetchFont (hfixed : call.world.IsFixed) (url : String) :
    Agrees stores call (fetchFont call url) := by
  intro first second halike
  let taken (state : State) := state.caches.fonts.takeOrFetch url
    (call.world.font state.log url call.isDev)
  have htaken : ∀ state : State, state.caches.AreTrue call.world call.isDev →
      (taken state).value = call.world.font [] url call.isDev ∧
        Cache.IsTrue (fun url => call.world.font [] url call.isDev) (taken state).cache := by
    intro state htrue
    unfold taken
    rw [hfixed.font url call.isDev state.log []]
    exact htrue.fonts.takeOrFetch url
  obtain ⟨hfirst, hfirstTrue⟩ := htaken first halike.first
  obtain ⟨hsecond, hsecondTrue⟩ := htaken second halike.second
  have hasked := halike.ask (.askFont url call.isDev) (taken first).fetched
    (taken second).fetched
  exact ⟨congrArg Except.ok (hfirst.trans hsecond.symm),
    hasked.caches ⟨hasked.first.stylesheets, hfirstTrue⟩ ⟨hasked.second.stylesheets, hsecondTrue⟩⟩

/-! ## The loaders -/

theorem closed_agrees (hfixed : call.world.IsFixed) (hkept : KeptByFiles stores) :
    Closed call (Agrees stores call) where
  pure := agrees_pure
  throw := agrees_throw
  bind := agrees_bind
  tryCatch := agrees_tryCatch
  emit content extension _ := agrees_emit hkept content extension
  resolve := agrees_resolve
  report := agrees_report
  readFile := agrees_readFile hfixed
  fetchStylesheet := agrees_fetchStylesheet hfixed
  fetchFont := agrees_fetchFont hfixed

/-- **What the loader of font families comes to does not depend on its caches.** -/
theorem isDetermined_google (catalog : Google.Catalog) :
    IsDetermined (Google.loader catalog) :=
  fun _ hfixed _ hkept => (closed_agrees hfixed hkept).google catalog

/-- **Nor does what the loader of font files comes to.** -/
theorem isDetermined_local : IsDetermined LocalFont.loader :=
  fun _ hfixed _ hkept => (closed_agrees hfixed hkept).files

end FontHosting.Loader
