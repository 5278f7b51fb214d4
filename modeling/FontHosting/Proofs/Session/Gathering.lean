import FontHosting.Proofs.Session.Caching
import FontHosting.Proofs.Session.Completion
import FontHosting.Proofs.Session.Imports

/-!
# What requests gather

A part of a site asks for stylesheets one after the other, each for the first time.  The
requests are connected through the caches, through the files that they share and through the
number of imports that still wait.  Yet in a world that does not change each comes to its
attempt (`Stylesheet.Collection.start_eq_attempt`), and all that a session gains by it can be
told fact by fact.

A `Fact` is one thing that is seen of a session, such as an asset that is listed.  After a
sequence of requests a session `Shows` the facts that it showed before and those that one of
the attempts `Adds` (`shows_loads`), so the order of the requests cannot matter.  Which of them
hands out the manifest depends only on how many imports are left (`completed_loads`).
-/

namespace FontHosting.Session

open Stylesheet (Collection Failure HasRepeatedMark Loaded Request key?)
open Stylesheet.Collection (Started attempt)

/-! ## Who asks -/

/-- A part of a site, with the world that it asks in. -/
structure Asker where
  world : Loader.World
  environment : String
  isServer : Bool

/-- The request for the stylesheet of a name. -/
def Asker.request (asker : Asker) (name : String) : Request :=
  ⟨name, asker.environment, asker.isServer⟩

/-- The stylesheets of several names are asked for, one after the other. -/
def Asker.loads (asker : Asker) (names : List String) : List Operation :=
  names.map fun name => .load asker.world (asker.request name)

/-- What the request for a name comes to when nothing was done yet. -/
def Asker.attempt (asker : Asker) (project : Project) (name : String) : Collection × Started :=
  Collection.attempt project.setup asker.world (asker.request name)

/-- What a request answers. -/
def answerOf : Started → Except Failure (Option Stylesheet.Module)
  | .unknown => .ok none
  | .kept _ target => .ok (some target)
  | .failed failure => .error failure
  | .made _ loaded => .ok (some loaded.target)

/-- The session after a sequence of operations on another one. -/
def after (project : Project) (session : Session) (operations : List Operation) : Session :=
  operations.foldl (fun session operation => (session.perform project operation).session) session

/-! ## Facts -/

/-- One thing that is seen of a session. -/
inductive Fact where
  | kept (key : String) (loaded : Loaded)
  | stored (url : String)
  /-- A module has an entry in the manifest. -/
  | entered (module : String)
  | listed (module asset : String)
  /-- Some stand-in is adjusted to the size of a font. -/
  | adjusted

/-- A fact is seen of a session. -/
def Shows (session : Session) : Fact → Prop
  | .kept key loaded => session.collection.stylesheets.get? key = some loaded
  | .stored url => session.collection.store.contains url = true
  | .entered module => session.manifest.HasEntry module
  | .listed module asset => session.manifest.Lists module asset
  | .adjusted => session.manifest.isUsingSizeAdjust = true

/-- What the manifest takes up of a stylesheet. -/
def TakesUp (loaded : Loaded) : Fact → Prop
  | .entered module => loaded.module = module ∧ loaded.assets ≠ []
  | .listed module asset =>
      loaded.module = module ∧ asset ∈ loaded.assets ∧ Asset.isPreloadable asset = true
  | .adjusted => loaded.assets.any Asset.isSizeAdjusted = true
  | .kept .. | .stored _ => False

/-- What a session gains by a request that comes to its attempt. -/
def Adds (attempt : Collection × Started) : Fact → Prop
  | .kept key loaded => attempt.2 = .made key loaded
  | .stored url => attempt.1.store.contains url = true
  | fact => ∃ key loaded, attempt.2 = .made key loaded ∧ TakesUp loaded fact

variable {project : Project} {catalog : Google.Catalog} {asker : Asker} {session : Session}

theorem shows_settle {α : Type} (answer : α) (fact : Fact) :
    (session.settle answer).session.Shows fact ↔ session.Shows fact := by
  unfold settle
  split <;> cases fact <;> exact Iff.rfl

/-- What a stylesheet that is received adds to the manifest. -/
theorem shows_resolveImports {key : String} {loaded : Loaded} {fact : Fact} :
    (session.resolveImports key loaded).Shows fact ↔ session.Shows fact ∨ TakesUp loaded fact := by
  cases fact with
  | kept other found => exact (or_iff_left not_false).symm
  | stored url => exact (or_iff_left not_false).symm
  | entered module =>
      refine Manifest.hasEntry_record.trans (or_congr_right (and_congr_left fun _ => ?_))
      exact eq_comm
  | listed module asset =>
      refine Manifest.lists_record.trans (or_congr_right (and_congr_left fun _ => ?_))
      exact eq_comm
  | adjusted =>
      have hflag : (session.resolveImports key loaded).manifest.isUsingSizeAdjust =
          (session.manifest.isUsingSizeAdjust || loaded.assets.any Asset.isSizeAdjusted) :=
        Manifest.isUsingSizeAdjust_record
      show (session.resolveImports key loaded).manifest.isUsingSizeAdjust = true ↔ _
      rw [hflag, Bool.or_eq_true]
      exact Iff.rfl

/-- A request that makes nothing adds the files of its attempt. -/
theorem shows_of_taken {collection : Collection} {attempt : Collection × Started}
    (hstylesheets : collection.stylesheets = session.collection.stylesheets)
    (hstored : ∀ url, collection.store.contains url = true ↔
      session.collection.store.contains url = true ∨ attempt.1.store.contains url = true)
    (hnone : ∀ key loaded, attempt.2 ≠ .made key loaded) (fact : Fact) :
    ({ session with collection }).Shows fact ↔ session.Shows fact ∨ Adds attempt fact := by
  have hnothing : ¬ ∃ key loaded, attempt.2 = .made key loaded ∧ TakesUp loaded fact :=
    fun ⟨key, loaded, hmade, _⟩ => hnone key loaded hmade
  cases fact with
  | kept key loaded =>
      show collection.stylesheets.get? key = some loaded ↔ _
      rw [hstylesheets]
      exact (or_iff_left (hnone key loaded)).symm
  | stored url => exact hstored url
  | entered module => exact (or_iff_left hnothing).symm
  | listed module asset => exact (or_iff_left hnothing).symm
  | adjusted => exact (or_iff_left hnothing).symm

/-- A request that makes a stylesheet adds it too, with all that the manifest takes up of it. -/
theorem shows_of_made {collection : Collection} {attempt : Collection × Started} {key : String}
    {loaded : Loaded} (hmade : attempt.2 = .made key loaded)
    (hstylesheets : ∀ other, collection.stylesheets.get? other =
      if other = key then some loaded else session.collection.stylesheets.get? other)
    (hunmade : session.collection.stylesheets.get? key = none)
    (hstored : ∀ url, collection.store.contains url = true ↔
      session.collection.store.contains url = true ∨ attempt.1.store.contains url = true)
    (fact : Fact) :
    (({ session with collection }).resolveImports key loaded).Shows fact ↔
      session.Shows fact ∨ Adds attempt fact := by
  have htaken : ∀ taken : Fact, TakesUp loaded taken ↔
      ∃ own found, attempt.2 = .made own found ∧ TakesUp found taken := by
    intro taken
    simp only [hmade, Started.made.injEq, and_assoc, exists_and_left, exists_eq_left']
  rw [shows_resolveImports]
  cases fact with
  | kept other found =>
      have hadds : Adds attempt (.kept other found) ↔ key = other ∧ loaded = found := by
        show attempt.2 = Started.made other found ↔ _
        rw [hmade, Started.made.injEq]
      refine (or_iff_left not_false).trans ?_
      rw [hadds]
      show collection.stylesheets.get? other = some found ↔
        session.collection.stylesheets.get? other = some found ∨ _
      rw [hstylesheets]
      -- Nothing was kept under the key, so nothing is replaced by the new stylesheet.
      by_cases hother : other = key
      · subst hother
        simp [hunmade]
      · simp [hother, Ne.symm hother]
  | stored url => exact (or_iff_left not_false).trans (hstored url)
  | entered module => exact or_congr_right (htaken _)
  | listed module asset => exact or_congr_right (htaken _)
  | adjusted => exact or_congr_right (htaken _)

/-! ## One request -/

/-- Imports of a session wait for stylesheets that were never made. -/
structure Awaits (project : Project) (world : Loader.World) (session : Session)
    (names : List String) : Prop where
  reachable : Reachable project session
  trueCaches : session.collection.HasTrueCaches project.setup world
  isKey : ∀ name ∈ names, key? name = some name
  imported : ∀ name ∈ names, session.isImported name = true
  unmade : ∀ name ∈ names, session.collection.stylesheets.get? name = none
  nodup : names.Nodup

/-- A key can be asked for. -/
theorem not_hasRepeatedMark_of_isKey {name : String} (h : key? name = some name) :
    ¬ HasRepeatedMark name := by
  unfold HasRepeatedMark
  rw [Stylesheet.not_repeatedMark_key h]
  exact Bool.false_ne_true

/-- An attempt finds nothing that is kept. -/
theorem attempt_ne_kept (name key : String) (target : Stylesheet.Module) :
    (asker.attempt project name).2 ≠ .kept key target := by
  intro h
  have hstart : Collection.empty.start project.setup asker.world (asker.request name) =
      ((asker.attempt project name).1, .kept key target) := Prod.ext rfl h
  obtain ⟨-, -, hseen, -⟩ := Collection.kept_start hstart
  cases hseen

/-- A key is not unknown, if every loader is registered. -/
theorem attempt_ne_unknown (hregistered : ∀ kind, (project.setup.loaders kind).isSome = true)
    {name : String} (hkey : key? name = some name) :
    (asker.attempt project name).2 ≠ .unknown := by
  obtain ⟨kind, hkind, -⟩ := Stylesheet.key?_eq_some_iff.mp hkey
  obtain ⟨registered, hloader⟩ := Option.isSome_iff_exists.mp (hregistered kind)
  unfold Asker.attempt Collection.attempt Collection.start Asker.request
  dsimp only
  rw [hkey, hkind]
  dsimp only
  rw [hloader]
  dsimp only
  cases Collection.empty.kept? project.setup name asker.environment with
  | some target => nofun
  | none =>
      dsimp only
      cases Collection.readCall name with
      | error failure => nofun
      | ok call =>
          dsimp only
          rcases Collection.run_cases project.setup asker.world Collection.empty kind registered
            call.1 call.2 name asker.isServer with ⟨_, hrun⟩ | ⟨_, _, -, -, hrun⟩ <;>
          · rw [hrun]
            nofun

/-- What an attempt makes is the stylesheet of its name. -/
theorem key_of_attempt {name key : String} (hname : key? name = some name) {loaded : Loaded}
    (h : (asker.attempt project name).2 = .made key loaded) : key = name := by
  have hstart : Collection.empty.start project.setup asker.world (asker.request name) =
      ((asker.attempt project name).1, .made key loaded) := Prod.ext rfl h
  obtain ⟨-, -, -, -, -, -, hkey, -⟩ := Collection.made_start hstart
  exact Option.some_inj.mp (hkey.symm.trans hname)

/-- Whether something is imported is told by the names of the imports. -/
theorem isImported_iff_importNames {key : String} :
    session.isImported key = true ↔
      ∃ module specifier, (specifier, key) ∈ session.importNames module := by
  rw [isImported_iff]
  constructor
  · rintro ⟨module, record, hrecord, rfl⟩
    exact ⟨module, record.specifier, mem_importNames.mpr ⟨record, hrecord, rfl⟩⟩
  · rintro ⟨module, specifier, hname⟩
    obtain ⟨record, hrecord, hsame⟩ := mem_importNames.mp hname
    exact ⟨module, record, hrecord, congrArg Prod.snd hsame⟩

theorem isImported_load (hregular : project.Regular) (world : Loader.World) (request : Request)
    (key : String) :
    (session.load project world request).session.isImported key = session.isImported key := by
  rw [Bool.eq_iff_iff, isImported_iff_importNames, isImported_iff_importNames]
  simp only [importNames_load hregular]

namespace Awaits

variable {name : String} {names : List String}

/-- **What a session comes to by the request that is next in line**: the answer is what its
attempt comes to, and the session gains what that adds. -/
theorem load_eq_attempt (h : Awaits project asker.world session (name :: names))
    (hregular : project.Regular) (hlibrary : project.HasLibrary catalog)
    (hfixed : asker.world.IsFixed) :
    (session.load project asker.world (asker.request name)).answer =
        answerOf (asker.attempt project name).2 ∧
      ∀ fact, (session.load project asker.world (asker.request name)).session.Shows fact ↔
        session.Shows fact ∨ Adds (asker.attempt project name) fact := by
  have hkey := h.isKey name List.mem_cons_self
  have hunmade := h.unmade name List.mem_cons_self
  have hnew : ∀ key, key? (asker.request name).id = some key →
      session.collection.kept? project.setup key asker.environment = none := by
    intro key hown
    obtain rfl : name = key := Option.some_inj.mp (hkey.symm.trans hown)
    unfold Collection.kept?
    rw [hunmade]
    split <;> rfl
  obtain ⟨hstarted, -, hstored⟩ :=
    Collection.start_eq_attempt h.trueCaches hfixed hlibrary.isDetermined hnew
  have htaken := Collection.takenUp_start hregular.confined asker.world session.collection
    (asker.request name)
  rcases hstart : session.collection.start project.setup asker.world (asker.request name) with
    ⟨collection, started⟩
  rw [hstart] at hstarted hstored htaken
  have hcame : (asker.attempt project name).2 = started := hstarted.symm
  rw [load_eq hstart, hcame]
  cases started with
  | unknown =>
      refine ⟨rfl, shows_of_taken htaken.stylesheets hstored fun key loaded hmade => ?_⟩
      cases hcame.symm.trans hmade
  | failed failure =>
      refine ⟨rfl, shows_of_taken htaken.stylesheets hstored fun key loaded hmade => ?_⟩
      cases hcame.symm.trans hmade
  | kept key target => exact absurd hcame (attempt_ne_kept name key target)
  | made key loaded =>
      obtain rfl := key_of_attempt hkey hcame
      obtain ⟨hholds, hfinish⟩ := finish_made hregular.confined hstart
      let kept := { session with
        collection := collection.keep key (asker.request key).environment loaded }
      -- The stylesheet is imported, so it is taken up and not discarded.
      have himported : kept.isImported key = true := h.imported key List.mem_cons_self
      rw [hfinish]
      refine ⟨rfl, fun fact => ?_⟩
      show (kept.receive key loaded).session.Shows fact ↔ _
      rw [receive_of_isImported himported, shows_settle]
      exact shows_of_made hcame hholds.stylesheets hunmade hstored fact

/-- **A request leaves the others waiting.** -/
theorem load (h : Awaits project asker.world session (name :: names))
    (hregular : project.Regular) (hlibrary : project.HasLibrary catalog)
    (hfixed : asker.world.IsFixed) :
    Awaits project asker.world
      (session.load project asker.world (asker.request name)).session names := by
  have hkey := h.isKey name List.mem_cons_self
  obtain ⟨hnotMem, hnodup⟩ := List.nodup_cons.mp h.nodup
  obtain ⟨-, hshows⟩ := h.load_eq_attempt hregular hlibrary hfixed
  refine ⟨h.reachable.load asker.world (not_hasRepeatedMark_of_isKey hkey), ?_,
    fun other hother => h.isKey other (List.mem_cons_of_mem _ hother), fun other hother => ?_,
    fun other hother => ?_, hnodup⟩
  · obtain ⟨-, -, htwins⟩ :=
      (Twins.refl h.trueCaches).load hlibrary hfixed (asker.request name)
    exact htwins.first
  · rw [isImported_load hregular]
    exact h.imported other (List.mem_cons_of_mem _ hother)
  · -- Only the stylesheet of the name itself was made, and no name comes twice.
    refine Option.eq_none_iff_forall_ne_some.mpr fun loaded hget => ?_
    rcases (hshows (.kept other loaded)).mp hget with hbefore | hmade
    · have hunmade := h.unmade other (List.mem_cons_of_mem _ hother)
      cases hunmade.symm.trans hbefore
    · obtain rfl := key_of_attempt hkey hmade
      exact hnotMem hother

end Awaits

/-! ## Sequences of requests -/

/-- What the first of several requests shows, ahead of what the others show. -/
theorem replies_loads_cons (session : Session) (name : String) (names : List String) :
    replies project keepCaches session (asker.loads (name :: names)) =
      ⟨.loaded (session.load project asker.world (asker.request name)).answer,
        (session.load project asker.world (asker.request name)).completed,
        (session.load project asker.world (asker.request name)).session.view⟩ ::
      replies project keepCaches
        (session.load project asker.world (asker.request name)).session (asker.loads names) :=
  rfl

theorem after_loads_cons (session : Session) (name : String) (names : List String) :
    session.after project (asker.loads (name :: names)) =
      (session.load project asker.world (asker.request name)).session.after project
        (asker.loads names) := by
  unfold after Asker.loads
  simp only [List.map_cons, List.foldl_cons, perform]

section
variable {names : List String}

/-- Several requests leave nothing waiting. -/
theorem Awaits.loads (h : Awaits project asker.world session names)
    (hregular : project.Regular) (hlibrary : project.HasLibrary catalog)
    (hfixed : asker.world.IsFixed) :
    Awaits project asker.world (session.after project (asker.loads names)) [] := by
  induction names generalizing session with
  | nil => exact h
  | cons name names ih =>
      rw [after_loads_cons]
      exact ih (h.load hregular hlibrary hfixed)

/-- **Each of several requests answers what its attempt comes to.** -/
theorem answers_loads (h : Awaits project asker.world session names)
    (hregular : project.Regular) (hlibrary : project.HasLibrary catalog)
    (hfixed : asker.world.IsFixed) :
    (replies project keepCaches session (asker.loads names)).map Reply.answer =
      names.map fun name => .loaded (answerOf (asker.attempt project name).2) := by
  induction names generalizing session with
  | nil => rfl
  | cons name names ih =>
      obtain ⟨hanswer, -⟩ := h.load_eq_attempt hregular hlibrary hfixed
      rw [replies_loads_cons, List.map_cons, List.map_cons, hanswer,
        ih (h.load hregular hlibrary hfixed)]

/-- **A session gains what the attempts of its requests add**, and nothing else. -/
theorem shows_loads (h : Awaits project asker.world session names)
    (hregular : project.Regular) (hlibrary : project.HasLibrary catalog)
    (hfixed : asker.world.IsFixed) (fact : Fact) :
    (session.after project (asker.loads names)).Shows fact ↔
      session.Shows fact ∨ ∃ name ∈ names, Adds (asker.attempt project name) fact := by
  induction names generalizing session with
  | nil => simp [after, Asker.loads]
  | cons name names ih =>
      obtain ⟨-, hshows⟩ := h.load_eq_attempt hregular hlibrary hfixed
      rw [after_loads_cons, ih (h.load hregular hlibrary hfixed), hshows, or_assoc]
      simp only [List.mem_cons, exists_eq_or_imp]

/-- Requests keep the names of the imports. -/
theorem importNames_loads (hregular : project.Regular) (session : Session)
    (names : List String) (module : String) :
    (session.after project (asker.loads names)).importNames module =
      session.importNames module := by
  induction names generalizing session with
  | nil => rfl
  | cons name names ih =>
      rw [after_loads_cons, ih, importNames_load hregular]

/-! ## When the session is finished -/

/-- All imports of a session have their stylesheets. -/
def HasAll (session : Session) : Prop :=
  ∀ module, ∀ name ∈ session.importNames module,
    ∃ loaded, session.Shows (.kept name.2 loaded)

/-- A session with imports is finished exactly if all of them have their stylesheets. -/
theorem Reachable.isFinished_iff (hregular : project.Regular)
    (hreachable : Reachable project session) (hsome : session.allRecords ≠ []) :
    session.isFinished = true ↔ session.HasAll := by
  have hsettled := hreachable.settled hregular
  have hfiled := hreachable.filed hregular
  have hpending : session.pending = 0 ↔ session.HasAll := by
    rw [pending_eq_zero_iff]
    constructor
    · intro hresolved module name hname
      obtain ⟨record, hrecord, rfl⟩ := mem_importNames.mp hname
      exact Table.contains_iff.mp
        ((hfiled.resolved module record hrecord).mp (hresolved module record hrecord))
    · intro hall module record hrecord
      refine (hfiled.resolved module record hrecord).mpr (Table.contains_iff.mpr ?_)
      exact hall module record.name (mem_importNames.mpr ⟨record, hrecord, rfl⟩)
  exact ⟨fun hfinished => hpending.mp (hsettled.quiet hfinished),
    fun hall => hsettled.finished hsome (hpending.mpr hall)⟩

/-- Whether anything is imported is told by the names of the imports. -/
theorem allRecords_ne_nil_iff_importNames :
    session.allRecords ≠ [] ↔ ∃ module name, name ∈ session.importNames module := by
  rw [allRecords_ne_nil_iff]
  refine exists_congr fun module => ⟨?_, ?_⟩
  · rintro ⟨record, hrecord⟩
    exact ⟨record.name, mem_importNames.mpr ⟨record, hrecord, rfl⟩⟩
  · rintro ⟨name, hname⟩
    obtain ⟨record, hrecord, -⟩ := mem_importNames.mp hname
    exact ⟨record, hrecord⟩

theorem allRecords_ne_nil_congr {after : Session}
    (hnames : ∀ {module}, after.importNames module = session.importNames module) :
    after.allRecords ≠ [] ↔ session.allRecords ≠ [] := by
  rw [allRecords_ne_nil_iff_importNames, allRecords_ne_nil_iff_importNames]
  simp only [hnames]

theorem Awaits.allRecords_ne_nil {name : String} {names : List String}
    (h : Awaits project asker.world session (name :: names)) : session.allRecords ≠ [] := by
  obtain ⟨module, specifier, hname⟩ :=
    isImported_iff_importNames.mp (h.imported name List.mem_cons_self)
  exact allRecords_ne_nil_iff_importNames.mpr ⟨module, (specifier, name), hname⟩

/-- A session is not finished while a stylesheet is waited for. -/
theorem Awaits.isFinished {name : String} {names : List String}
    (h : Awaits project asker.world session (name :: names)) (hregular : project.Regular) :
    session.isFinished = false := by
  refine Bool.eq_false_iff.mpr fun hfinished => ?_
  have hall := (h.reachable.isFinished_iff hregular h.allRecords_ne_nil).mp hfinished
  obtain ⟨module, specifier, hname⟩ :=
    isImported_iff_importNames.mp (h.imported name List.mem_cons_self)
  obtain ⟨loaded, hget⟩ := hall module (specifier, name) hname
  cases (h.unmade name List.mem_cons_self).symm.trans hget

/-- **The last of several requests finishes the session, and no other does**, if each makes a
stylesheet and no import is left without. -/
theorem completed_loads (h : Awaits project asker.world session names)
    (hregular : project.Regular) (hlibrary : project.HasLibrary catalog)
    (hfixed : asker.world.IsFixed) (hnames : names ≠ [])
    (hall : (session.after project (asker.loads names)).HasAll) :
    (replies project keepCaches session (asker.loads names)).map Reply.completed =
      List.replicate (names.length - 1) none ++
        [some (session.after project (asker.loads names)).manifest] := by
  induction names generalizing session with
  | nil => exact absurd rfl hnames
  | cons name names ih =>
      have hnext := h.load hregular hlibrary hfixed
      have hplain : ¬ HasRepeatedMark (asker.request name).id :=
        not_hasRepeatedMark_of_isKey (h.isKey name List.mem_cons_self)
      obtain ⟨-, hreports⟩ := (h.reachable.settled hregular).load
        (h.reachable.filed hregular) hregular asker.world hplain
      rw [after_loads_cons] at hall ⊢
      rw [replies_loads_cons, List.map_cons]
      -- The session stays unfinished as long as a name is left, and the last one finishes it.
      cases names with
      | nil =>
          have hsome := (allRecords_ne_nil_congr (importNames_load hregular asker.world session
            (asker.request name))).mpr h.allRecords_ne_nil
          have hfinished := (hnext.reachable.isFinished_iff hregular hsome).mpr hall
          obtain ⟨manifest, hcompleted⟩ := Option.isSome_iff_exists.mp
            (hreports.isSome_iff.mpr ⟨h.isFinished hregular, hfinished⟩)
          rw [hcompleted, hreports.manifest manifest hcompleted]
          rfl
      | cons other rest =>
          have hnone : (session.load project asker.world (asker.request name)).completed =
              none := by
            refine Option.not_isSome_iff_eq_none.mp fun hcompleted => ?_
            have hunfinished := hnext.isFinished hregular
            rw [(hreports.isSome_iff.mp hcompleted).2] at hunfinished
            cases hunfinished
          rw [ih hnext (List.cons_ne_nil other rest) hall, hnone]
          rfl

end

end FontHosting.Session
