import FontHosting.Proofs.Loader.Determined
import FontHosting.Proofs.Stylesheet.Collection

/-!
# Requests in a world that does not change

A request that nothing is kept for is taken up by its loader, so in a world that does not
change it comes to the same in any two collections, as long as the entries of their caches
are true (`Collection.Alike.start`).  In particular it comes to what it would come to at the
very beginning, which is the `attempt` of the request, and the store gains the files that the
attempt stores (`Collection.start_eq_attempt`).
-/

namespace FontHosting.Stylesheet

open Asset (Store)
open Loader (Caches KeptByFiles World)

/-- Every loader of a setup is determined by its call, as long as the world does not change. -/
def Setup.IsDetermined (setup : Setup) : Prop :=
  ∀ kind registered, setup.loaders kind = some registered →
    Loader.IsDetermined registered.loader

namespace Collection

/-- What the loaders of a collection have in their caches is what the world answers. -/
def HasTrueCaches (setup : Setup) (world : World) (collection : Collection) : Prop :=
  ∀ kind, (collection.caches kind).AreTrue world setup.isDev

theorem hasTrueCaches_empty (setup : Setup) (world : World) :
    Collection.empty.HasTrueCaches setup world :=
  fun _ => Loader.Caches.areTrue_empty world setup.isDev

/-- Two collections have related stores and true caches. -/
structure Alike (stores : Store → Store → Prop) (setup : Setup) (world : World)
    (first second : Collection) : Prop where
  stores : stores first.store second.store
  first : first.HasTrueCaches setup world
  second : second.HasTrueCaches setup world

variable {stores : Store → Store → Prop} {setup : Setup} {world : World}
  {first second collection : Collection}

theorem caches_announce (collection : Collection) (kind : LoaderKind) (registered : Registered) :
    (collection.announce kind registered).caches = collection.caches := by
  unfold announce
  split <;> rfl

theorem Alike.announce (h : Alike stores setup world first second) (kind : LoaderKind)
    (registered : Registered) :
    Alike stores setup world (first.announce kind registered)
      (second.announce kind registered) := by
  constructor
  · rw [(announce_frame first kind registered).2.2, (announce_frame second kind registered).2.2]
    exact h.stores
  · unfold HasTrueCaches
    rw [caches_announce]
    exact h.first
  · unfold HasTrueCaches
    rw [caches_announce]
    exact h.second

theorem HasTrueCaches.absorb (h : collection.HasTrueCaches setup world) {kind : LoaderKind}
    {state : Loader.State} (hstate : state.caches.AreTrue world setup.isDev) :
    (collection.absorb kind state).HasTrueCaches setup world := by
  intro other
  unfold Collection.absorb
  dsimp only
  split
  · exact hstate
  · exact h other

/-- **A loader comes to the same in collections that are alike.** -/
theorem Alike.run (h : Alike stores setup world first second) (hfixed : world.IsFixed)
    (hkept : KeptByFiles stores) {registered : Registered}
    (hdetermined : Loader.IsDetermined registered.loader) (kind : LoaderKind) (query : Query)
    (arguments : List Json.Value) (key : String) (isServer : Bool) :
    (Collection.run setup world first kind registered query arguments key isServer).2 =
        (Collection.run setup world second kind registered query arguments key isServer).2 ∧
      Alike stores setup world
        (Collection.run setup world first kind registered query arguments key isServer).1
        (Collection.run setup world second kind registered query arguments key isServer).1 := by
  have hannounced := h.announce kind registered
  obtain ⟨hresult, hstate⟩ := hdetermined (callOf setup world query arguments isServer) hfixed
    stores hkept
    (.start ((first.announce kind registered).caches kind) (first.announce kind registered).store
      (first.announce kind registered).log)
    (.start ((second.announce kind registered).caches kind)
      (second.announce kind registered).store (second.announce kind registered).log)
    ⟨hannounced.stores, rfl, rfl, rfl, hannounced.first kind, hannounced.second kind⟩
  unfold Collection.run
  dsimp only
  rcases hfirst : (registered.loader (callOf setup world query arguments isServer)).run
    (.start ((first.announce kind registered).caches kind) (first.announce kind registered).store
      (first.announce kind registered).log) with ⟨result, one⟩
  rcases hsecond : (registered.loader (callOf setup world query arguments isServer)).run
    (.start ((second.announce kind registered).caches kind)
      (second.announce kind registered).store (second.announce kind registered).log) with
    ⟨_, other⟩
  rw [hfirst, hsecond] at hresult hstate
  obtain rfl : result = _ := hresult
  have hafter : Alike stores setup world ((first.announce kind registered).absorb kind one)
      ((second.announce kind registered).absorb kind other) :=
    ⟨hstate.stores, hannounced.first.absorb hstate.first, hannounced.second.absorb hstate.second⟩
  cases result with
  | error error => exact ⟨rfl, hafter⟩
  | ok output =>
      dsimp only
      cases Module.generate setup.minify query.path output with
      | error error => exact ⟨rfl, hafter⟩
      | ok target =>
          have hloaded : loadedOf setup query one target = loadedOf setup query other target := by
            unfold loadedOf
            rw [hstate.emitted, hstate.resolved, hstate.errors]
          exact ⟨congrArg (Started.made key) hloaded, hafter⟩

/-- **A request comes to the same in collections that are alike**, if both or neither keep the
stylesheet for it. -/
theorem Alike.start (h : Alike stores setup world first second) (hfixed : world.IsFixed)
    (hkept : KeptByFiles stores) (hdetermined : setup.IsDetermined) {request : Request}
    (hsame : ∀ key, key? request.id = some key →
      first.kept? setup key request.environment = second.kept? setup key request.environment) :
    (first.start setup world request).2 = (second.start setup world request).2 ∧
      Alike stores setup world (first.start setup world request).1
        (second.start setup world request).1 := by
  unfold Collection.start
  split
  · rename_i key kind hkey hkind
    cases hregistered : setup.loaders kind with
    | none => exact ⟨rfl, h⟩
    | some registered =>
        dsimp only
        rw [hsame key hkey]
        cases second.kept? setup key request.environment with
        | some target => exact ⟨rfl, h⟩
        | none =>
            dsimp only
            cases readCall request.id with
            | error failure => exact ⟨rfl, h⟩
            | ok call =>
                exact h.run hfixed hkept (hdetermined kind registered hregistered) kind call.1
                  call.2 key request.isServer
  · exact ⟨rfl, h⟩

/-! ## Attempts -/

/-- What a request comes to when nothing was done yet, with the collection after it. -/
def attempt (setup : Setup) (world : World) (request : Request) : Collection × Started :=
  Collection.empty.start setup world request

/-- A store that has the files of two others. -/
def Joins (before : Store) (joined added : Store) : Prop :=
  ∀ url, joined.contains url = true ↔ before.contains url = true ∨ added.contains url = true

theorem keptByFiles_joins (before : Store) : KeptByFiles (Joins before) := by
  intro joined added hjoins url font other
  rw [Table.contains_insert, Table.contains_insert, hjoins]
  exact or_left_comm

/-- **A request that nothing is kept for comes to its attempt**, and the store gains the files of
the attempt. -/
theorem start_eq_attempt (htrue : collection.HasTrueCaches setup world) (hfixed : world.IsFixed)
    (hdetermined : setup.IsDetermined) {request : Request}
    (hnew : ∀ key, key? request.id = some key →
      collection.kept? setup key request.environment = none) :
    (collection.start setup world request).2 = (attempt setup world request).2 ∧
    (collection.start setup world request).1.HasTrueCaches setup world ∧
    ∀ url, (collection.start setup world request).1.store.contains url = true ↔
      collection.store.contains url = true ∨
        (attempt setup world request).1.store.contains url = true := by
  have hempty : Alike (Joins collection.store) setup world collection Collection.empty := by
    refine ⟨fun url => ?_, htrue, hasTrueCaches_empty setup world⟩
    have hnone : ¬ Collection.empty.store.contains url = true := Bool.false_ne_true
    rw [or_iff_left hnone]
  have hsame : ∀ key, key? request.id = some key →
      collection.kept? setup key request.environment =
        Collection.empty.kept? setup key request.environment := by
    intro key hkey
    rw [hnew key hkey]
    unfold kept?
    split <;> rfl
  obtain ⟨hstarted, halike⟩ := hempty.start hfixed (keptByFiles_joins _) hdetermined hsame
  exact ⟨hstarted, halike.first, halike.stores⟩

end Collection

end FontHosting.Stylesheet
