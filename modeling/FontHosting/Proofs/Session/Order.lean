import FontHosting.Proofs.FontCall.Generated
import FontHosting.Proofs.Session.Gathering

/-!
# The order of requests

When all modules of a site were transformed, a host asks for the stylesheet of every import
once.  It may do so in any order, for each request comes to its attempt: the answers, the
stylesheets, the files and what pages are told to load early are the same in the end, and it
is always the last request that hands out the manifest (`order_of_requests_does_not_matter`).

That every import `Awaits` a stylesheet which nobody else asks for is due to the names.  With
the loader modules of the library the name of an import is its own key, which tells the module
and the variable, so no name is imported twice (`nodup_specifiers_allRecords`).
-/

namespace FontHosting

theorem Project.HasLibrary.regular {project : Project} {catalog : Google.Catalog}
    (h : project.HasLibrary catalog) (hloaders : project.calls.loaders = FontCall.defaultLoaders) :
    project.Regular := by
  refine ⟨h.confined, fun loader hloader => ?_⟩
  rw [hloaders] at hloader
  obtain ⟨kind, -, rfl⟩ := List.mem_map.mp hloader
  exact Stylesheet.notMem_module kind

namespace Session

open Stylesheet (Collection Failure key?)

variable {project : Project} {catalog : Google.Catalog} {asker : Asker} {session : Session}
  {module : String}

/-! ## The names of the imports of a site -/

/-- Names that are their own keys. -/
theorem namesOf_of_isKey {specifiers : List String}
    (h : ∀ specifier ∈ specifiers, key? specifier = some specifier) :
    namesOf specifiers = specifiers.map fun specifier => (specifier, specifier) := by
  unfold namesOf
  rw [← List.filterMap_eq_map]
  refine List.filterMap_congr fun specifier hspecifier => ?_
  rw [h specifier hspecifier]
  rfl

/-- **What a module imports from the loader modules of the library**: names that are their own
keys, each once. -/
theorem Reachable.exists_specifiers (hloaders : project.calls.loaders = FontCall.defaultLoaders)
    (hregular : project.Regular) (hreachable : Reachable project session) (module : String) :
    ∃ specifiers : List String,
      session.importNames module = specifiers.map (fun specifier => (specifier, specifier)) ∧
      (∀ specifier ∈ specifiers, key? specifier = some specifier) ∧ specifiers.Nodup := by
  rcases hreachable.exists_text hregular module with hnone | ⟨source, transformed, htext, hnames⟩
  · exact ⟨[], hnone, fun _ hspecifier => absurd hspecifier List.not_mem_nil, List.nodup_nil⟩
  · have hkeys : ∀ specifier ∈ transformed.imports, key? specifier = some specifier := by
      intro specifier hspecifier
      obtain ⟨id, rfl, -, hloader⟩ := FontCall.isName_of_transform htext specifier hspecifier
      rw [hloaders] at hloader
      obtain ⟨kind, -, hkind⟩ := List.mem_map.mp hloader
      exact Stylesheet.key?_render hkind
    have hsettings : project.calls = ⟨FontCall.defaultLoaders, project.calls.remapped⟩ := by
      rw [← hloaders]
    rw [hsettings] at htext
    exact ⟨transformed.imports, hnames.trans (namesOf_of_isKey hkeys), hkeys,
      FontCall.nodup_imports_of_transform htext⟩

/-- The name of an import is its own key. -/
theorem Reachable.isKey_specifier (hloaders : project.calls.loaders = FontCall.defaultLoaders)
    (hregular : project.Regular) (hreachable : Reachable project session) {record : Record}
    (hrecord : session.HasRecord module record) :
    record.key = record.specifier ∧ key? record.specifier = some record.specifier := by
  obtain ⟨specifiers, hnames, hkeys, -⟩ :=
    hreachable.exists_specifiers hloaders hregular module
  have hname : record.name ∈ session.importNames module :=
    mem_importNames.mpr ⟨record, hrecord, rfl⟩
  rw [hnames] at hname
  obtain ⟨specifier, hspecifier, hsame⟩ := List.mem_map.mp hname
  obtain ⟨rfl, hkey⟩ := Prod.mk.inj hsame
  exact ⟨hkey.symm, hkeys _ hspecifier⟩

/-- **No name is imported twice**, neither by a module nor by two. -/
theorem Reachable.nodup_specifiers_allRecords
    (hloaders : project.calls.loaders = FontCall.defaultLoaders) (hregular : project.Regular)
    (hreachable : Reachable project session) :
    (session.allRecords.map Record.specifier).Nodup := by
  have hrecords : ∀ entry ∈ session.records.entries,
      session.records.get? entry.1 = some entry.2 :=
    fun entry hentry => Table.mem_entries_iff.mp hentry
  unfold allRecords Table.values
  rw [← List.flatMap_def, List.map_flatMap, List.nodup_flatMap]
  constructor
  · -- Within a module.
    intro entry hentry
    obtain ⟨specifiers, hnames, -, hnodup⟩ :=
      hreachable.exists_specifiers hloaders hregular entry.1
    unfold importNames at hnames
    rw [hrecords entry hentry, Option.getD_some] at hnames
    have hspecifiers := congrArg (List.map Prod.fst) hnames
    simp only [List.map_map] at hspecifiers
    have hown : entry.2.map Record.specifier = specifiers :=
      hspecifiers.trans (List.map_id specifiers)
    rwa [hown]
  · -- Between two modules: a name is a key, and a key tells the module that it belongs to.
    refine session.records.sorted.imp_of_mem fun {first second} hfirst hsecond hlt => ?_
    intro specifier hleft hright
    obtain ⟨one, hone, rfl⟩ := List.mem_map.mp hleft
    obtain ⟨other, hother, hsame⟩ := List.mem_map.mp hright
    have honeRecord : session.HasRecord first.1 one := ⟨first.2, hrecords first hfirst, hone⟩
    have hotherRecord : session.HasRecord second.1 other :=
      ⟨second.2, hrecords second hsecond, hother⟩
    have hkeys : other.key = one.key := by
      rw [(hreachable.isKey_specifier hloaders hregular honeRecord).1,
        (hreachable.isKey_specifier hloaders hregular hotherRecord).1, hsame]
    have hfiled := hreachable.filed hregular
    have hmodule : first.1 = second.1 :=
      (hfiled.belongs first.1 one honeRecord).unique
        (hkeys ▸ hfiled.belongs second.1 other hotherRecord)
    rw [hmodule] at hlt
    exact String.lt_irrefl _ hlt

/-! ## Sites whose modules were transformed -/

/-- The texts of several modules are transformed, each under its id. -/
def transforms (texts : List (String × String)) : List Operation :=
  texts.map fun text => .transform text.1 text.2

theorem reachable_transforms (project : Project) (texts : List (String × String)) :
    Reachable project (built project (transforms texts)) := by
  refine reachable_built project fun operation hoperation => ?_
  obtain ⟨text, -, rfl⟩ := List.mem_map.mp hoperation
  exact trivial

/-- No stylesheet is made by a transformation. -/
theorem get?_stylesheets_transforms (hregular : project.Regular)
    (texts : List (String × String)) (key : String) :
    (built project (transforms texts)).collection.stylesheets.get? key = none := by
  induction texts using List.reverseRecOn with
  | nil => rfl
  | append_singleton texts last ih =>
      refine Option.eq_none_iff_forall_ne_some.mpr fun loaded hget => ?_
      have hlast : transforms (texts ++ [last]) =
          transforms texts ++ [.transform last.1 last.2] :=
        List.map_append
      rw [hlast, built_append] at hget
      rcases made_of_perform hregular (reachable_transforms project texts) hget with
        hbefore | ⟨world, request, collection, hload, -⟩
      · cases ih.symm.trans hbefore
      · cases hload

/-- **When the modules of a site were transformed, all that they import waits.** -/
theorem awaits_transforms (hlibrary : project.HasLibrary catalog)
    (hloaders : project.calls.loaders = FontCall.defaultLoaders) (hfixed : asker.world.IsFixed)
    (texts : List (String × String)) {names : List String}
    (hnames : names.Perm
      ((built project (transforms texts)).allRecords.map Record.specifier)) :
    Awaits project asker.world (built project (transforms texts)) names := by
  have hregular := hlibrary.regular hloaders
  have hreachable := reachable_transforms project texts
  have hrecord : ∀ name ∈ names, ∃ module record,
      (built project (transforms texts)).HasRecord module record ∧ record.specifier = name := by
    intro name hname
    obtain ⟨record, hmem, hspecifier⟩ := List.mem_map.mp (hnames.mem_iff.mp hname)
    obtain ⟨module, hrecord⟩ := mem_allRecords.mp hmem
    exact ⟨module, record, hrecord, hspecifier⟩
  refine ⟨hreachable, hasTrueCaches_built hlibrary hfixed fun operation hoperation => ?_,
    fun name hname => ?_, fun name hname => ?_,
    fun name _ => get?_stylesheets_transforms hregular texts name,
    hnames.nodup_iff.mpr (hreachable.nodup_specifiers_allRecords hloaders hregular)⟩
  · obtain ⟨text, -, rfl⟩ := List.mem_map.mp hoperation
    exact trivial
  · obtain ⟨module, record, hrecord, rfl⟩ := hrecord name hname
    exact (hreachable.isKey_specifier hloaders hregular hrecord).2
  · obtain ⟨module, record, hrecord, rfl⟩ := hrecord name hname
    exact isImported_iff.mpr
      ⟨module, record, hrecord, (hreachable.isKey_specifier hloaders hregular hrecord).1⟩

/-! ## What the requests come to -/

/-- Two sessions come to the same, for the host and for every page. -/
structure SameResult (project : Project) (first second : Session) : Prop where
  stylesheet : ∀ id, first.collection.get? id = second.collection.get? id
  stored : ∀ url, first.collection.store.contains url = second.collection.store.contains url
  isUsingSizeAdjust : first.manifest.isUsingSizeAdjust = second.manifest.isUsingSizeAdjust
  preloadableFonts : ∀ id,
    first.preloadableFonts project id = second.preloadableFonts project id
  hints : ∀ id, first.hints project id = second.hints project id
  isFinished : first.isFinished = second.isFinished

/-- Sessions that show the same facts come to the same. -/
theorem sameResult_of_shows {first second : Session}
    (hshows : ∀ fact, first.Shows fact ↔ second.Shows fact)
    (hfinished : first.isFinished = second.isFinished) : SameResult project first second := by
  have hstylesheets : first.collection.stylesheets = second.collection.stylesheets :=
    Table.ext_get? fun key => Option.ext fun loaded => hshows (.kept key loaded)
  have hfonts : ∀ id, first.preloadableFonts project id = second.preloadableFonts project id :=
    fun id => Manifest.preloadableFonts_congr (hshows (.entered _))
      (fun asset => hshows (.listed _ asset)) project.setup.base
  refine ⟨fun id => ?_, fun url => Bool.eq_iff_iff.mpr (hshows (.stored url)),
    Bool.eq_iff_iff.mpr (hshows .adjusted), hfonts, fun id => ?_, hfinished⟩
  · unfold Collection.get?
    rw [hstylesheets]
  · have hown : first.manifest.preloadableFonts project.setup.base (project.moduleId id) =
        second.manifest.preloadableFonts project.setup.base (project.moduleId id) :=
      hfonts id
    unfold Session.hints Manifest.hints
    rw [hown]

/-- Sessions with the same imports that show the same facts are finished alike. -/
theorem Reachable.isFinished_congr {first second : Session} (hregular : project.Regular)
    (hfirst : Reachable project first) (hsecond : Reachable project second)
    (hnames : ∀ module, first.importNames module = second.importNames module)
    (hsome : second.allRecords ≠ []) (hshows : ∀ fact, first.Shows fact ↔ second.Shows fact) :
    first.isFinished = second.isFinished := by
  have hsomeFirst : first.allRecords ≠ [] :=
    (allRecords_ne_nil_congr fun {module} => hnames module).mpr hsome
  rw [Bool.eq_iff_iff, hfirst.isFinished_iff hregular hsomeFirst,
    hsecond.isFinished_iff hregular hsome]
  unfold HasAll
  simp only [hnames, hshows]

/-- **The same requests come to the same**, in whatever order. -/
theorem sameResult_loads (hregular : project.Regular) (hlibrary : project.HasLibrary catalog)
    (hfixed : asker.world.IsFixed) {first second : List String}
    (hfirst : Awaits project asker.world session first)
    (hsecond : Awaits project asker.world session second) (hperm : first.Perm second) :
    SameResult project (session.after project (asker.loads first))
      (session.after project (asker.loads second)) := by
  have hshows : ∀ fact, (session.after project (asker.loads first)).Shows fact ↔
      (session.after project (asker.loads second)).Shows fact := by
    intro fact
    rw [shows_loads hfirst hregular hlibrary hfixed,
      shows_loads hsecond hregular hlibrary hfixed]
    simp only [hperm.mem_iff]
  refine sameResult_of_shows hshows ?_
  -- Without imports it is not the stylesheets that tell whether a session is finished, but then
  -- nothing is asked for.
  cases first with
  | nil =>
      obtain rfl := hperm.nil_eq
      rfl
  | cons name names =>
      have hsome : (session.after project (asker.loads second)).allRecords ≠ [] :=
        (allRecords_ne_nil_congr fun {_} => importNames_loads hregular session second _).mpr
          hfirst.allRecords_ne_nil
      refine Reachable.isFinished_congr hregular
        (hfirst.loads hregular hlibrary hfixed).reachable
        (hsecond.loads hregular hlibrary hfixed).reachable (fun module => ?_) hsome hshows
      rw [importNames_loads hregular, importNames_loads hregular]

/-- All imports have their stylesheets after the requests, if none of these fails. -/
theorem hasAll_loads {names : List String} (h : Awaits project asker.world session names)
    (hloaders : project.calls.loaders = FontCall.defaultLoaders) (hregular : project.Regular)
    (hlibrary : project.HasLibrary catalog) (hfixed : asker.world.IsFixed)
    (hnames : names.Perm (session.allRecords.map Record.specifier))
    (hmade : ∀ name ∈ names, ∃ loaded,
      (asker.attempt project name).2 = .made name loaded) :
    (session.after project (asker.loads names)).HasAll := by
  intro module name hname
  rw [importNames_loads hregular] at hname
  obtain ⟨record, hrecord, rfl⟩ := mem_importNames.mp hname
  have hmem : record.specifier ∈ names :=
    hnames.mem_iff.mpr (List.mem_map_of_mem (mem_allRecords.mpr ⟨module, hrecord⟩))
  obtain ⟨loaded, hloaded⟩ := hmade record.specifier hmem
  have hkey : record.name.2 = record.specifier :=
    (h.reachable.isKey_specifier hloaders hregular hrecord).1
  rw [hkey]
  exact ⟨loaded, (shows_loads h hregular hlibrary hfixed _).mpr
    (Or.inr ⟨record.specifier, hmem, hloaded⟩)⟩

/-- A request for a key that does not fail makes the stylesheet, if every loader is
registered. -/
theorem made_of_isOk (hregistered : ∀ kind, (project.setup.loaders kind).isSome = true)
    {name : String} (hkey : key? name = some name)
    (hok : (answerOf (asker.attempt project name).2).isOk = true) :
    ∃ loaded, (asker.attempt project name).2 = .made name loaded := by
  cases hcame : (asker.attempt project name).2 with
  | unknown => exact absurd hcame (attempt_ne_unknown hregistered hkey)
  | kept key target => exact absurd hcame (attempt_ne_kept name key target)
  | failed failure =>
      rw [hcame] at hok
      cases hok
  | made key loaded =>
      obtain rfl := key_of_attempt hkey hcame
      exact ⟨loaded, rfl⟩

/-- **The order of the requests does not matter.**  In a world that does not change, let the
modules of a site be transformed, with the loader modules and the loaders of the library, and
let the stylesheet of every import be asked for once, by one part of the site.  In any two
orders each name is answered in the same way, and the sessions come to the same.  If every
loader is registered and no request fails, the last one hands out the manifest of its session
and no other hands out any, in both orders. -/
theorem order_of_requests_does_not_matter (asker : Asker) (hlibrary : project.HasLibrary catalog)
    (hloaders : project.calls.loaders = FontCall.defaultLoaders) (hfixed : asker.world.IsFixed)
    {texts : List (String × String)} (hsession : session = built project (transforms texts))
    {first second : List String}
    (hfirst : first.Perm (session.allRecords.map Record.specifier))
    (hsecond : second.Perm (session.allRecords.map Record.specifier)) :
    ∃ answer : String → Except Failure (Option Stylesheet.Module),
      (replies project keepCaches session (asker.loads first)).map Reply.answer =
        first.map (fun name => .loaded (answer name)) ∧
      (replies project keepCaches session (asker.loads second)).map Reply.answer =
        second.map (fun name => .loaded (answer name)) ∧
      SameResult project (session.after project (asker.loads first))
        (session.after project (asker.loads second)) ∧
      ((∀ kind, (project.setup.loaders kind).isSome = true) → first ≠ [] →
        (∀ name ∈ first, (answer name).isOk = true) →
        (replies project keepCaches session (asker.loads first)).map Reply.completed =
          List.replicate (first.length - 1) none ++
            [some (session.after project (asker.loads first)).manifest] ∧
        (replies project keepCaches session (asker.loads second)).map Reply.completed =
          List.replicate (second.length - 1) none ++
            [some (session.after project (asker.loads second)).manifest]) := by
  subst hsession
  have hregular := hlibrary.regular hloaders
  have hone := awaits_transforms hlibrary hloaders hfixed texts hfirst
  have hother := awaits_transforms hlibrary hloaders hfixed texts hsecond
  have hperm : first.Perm second := hfirst.trans hsecond.symm
  refine ⟨fun name => answerOf (asker.attempt project name).2,
    answers_loads hone hregular hlibrary hfixed, answers_loads hother hregular hlibrary hfixed,
    sameResult_loads hregular hlibrary hfixed hone hother hperm, fun hregistered hne hok => ?_⟩
  have hmade : ∀ name ∈ first, ∃ loaded, (asker.attempt project name).2 = .made name loaded :=
    fun name hname => made_of_isOk hregistered (hone.isKey name hname) (hok name hname)
  have hall := hasAll_loads hone hloaders hregular hlibrary hfixed hfirst hmade
  have hallOther := hasAll_loads hother hloaders hregular hlibrary hfixed hsecond
    fun name hname => hmade name (hperm.mem_iff.mpr hname)
  exact ⟨completed_loads hone hregular hlibrary hfixed hne hall,
    completed_loads hother hregular hlibrary hfixed
      (fun hnil => hne (List.Perm.eq_nil (hnil ▸ hperm))) hallOther⟩

/-! ### Two modules that ask for the same family -/

/-- The modules with their texts. -/
def pairTexts : List (String × String) := [("a.js", familyText), ("b.js", familyText)]

/-- The session in which both were transformed. -/
def pairSession : Session := built libraryProject (transforms pairTexts)

/-- The key of the stylesheet for the second module. -/
def secondKey : String :=
  "next-font/google/target.css?path=b.js&import=A&arguments=%5B%7B%22subsets%22%3A%5B%22latin%22%5D%7D%5D&variableName=a"

/-- Browsers ask, and every file can be downloaded. -/
def familyAsker : Asker := ⟨familyWorld fun _ => true, "client", false⟩

/-- How the name for the second module is written, how its text is read, and what the loader does
for it. -/
theorem secondModule_runs :
    Stylesheet.IsNameOf secondKey .google (familyQuery "b.js") familyArguments ∧
    CallsOnce libraryProject "b.js" familyText "b.js" secondKey ∧
    (familyRun libraryProject (familyWorld fun _ => true) "b.js").1.toOption =
      some (familyOutput hostedRules) := by
  refine ⟨⟨?_, ?_, fitsWithin_familyArguments⟩, ⟨?_, ?_, ?_⟩, ?_⟩ <;> decide +kernel

/-- Each module waits for its stylesheet. -/
theorem pairSession_eq :
    pairSession = (empty.awaiting "a.js" familyKey).awaiting "b.js" secondKey := by
  have hbuilt : pairSession =
      ((built libraryProject [familyTransform]).transform libraryProject "b.js" familyText).session :=
    built_transform libraryProject [familyTransform] "b.js" familyText
  rw [built_familyTransform callsOnce_libraryProject] at hbuilt
  have hnew : (empty.awaiting "a.js" familyKey).records.get? "b.js" = none :=
    (Table.get?_insert _ _ _ _).trans (if_neg (by decide))
  obtain ⟨hname, hcalls, -⟩ := secondModule_runs
  obtain ⟨hsession, -⟩ := @transform_of_callsOnce libraryProject (empty.awaiting "a.js" familyKey)
    _ _ _ _ hcalls hname.isKey hnew rfl
  exact hbuilt.trans hsession

/-- What the two modules import. -/
theorem specifiers_pairSession :
    pairSession.allRecords.map Record.specifier = [familyKey, secondKey] := by
  rw [pairSession_eq]
  rfl

/-- An attempt does not fail if the loader does not. -/
theorem isOk_familyAttempt {name path : String}
    (hname : Stylesheet.IsNameOf name .google (familyQuery path) familyArguments)
    (hran : (familyRun libraryProject (familyWorld fun _ => true) path).1.toOption =
      some (familyOutput hostedRules)) :
    (answerOf (familyAsker.attempt libraryProject name).2).isOk = true := by
  obtain ⟨target, htarget⟩ := exists_target_hostedRules path
  have hmade : familyAsker.attempt libraryProject name = _ :=
    @start_of_familyRun libraryProject (familyWorld fun _ => true) name path hname rfl _ _
      (ok_of_toOption hran) htarget
  rw [hmade]
  rfl

/-- No attempt fails. -/
theorem isOk_familyAttempts : ∀ name ∈ [familyKey, secondKey],
    (answerOf (familyAsker.attempt libraryProject name).2).isOk = true := by
  intro name hname
  rcases List.mem_pair.mp hname with rfl | rfl
  · exact isOk_familyAttempt isNameOf_familyKey family_runs.2.2.1.1
  · exact isOk_familyAttempt secondModule_runs.1 secondModule_runs.2.2

/-- The second request takes the downloads of the first one from the cache, whichever it is. -/
theorem two_modules_in_either_order :
    pairSession.allRecords.map Record.specifier = [familyKey, secondKey] ∧
    SameResult libraryProject
      (pairSession.after libraryProject (familyAsker.loads [familyKey, secondKey]))
      (pairSession.after libraryProject (familyAsker.loads [secondKey, familyKey])) ∧
    (replies libraryProject keepCaches pairSession
        (familyAsker.loads [familyKey, secondKey])).map Reply.completed =
      [none, some (pairSession.after libraryProject
        (familyAsker.loads [familyKey, secondKey])).manifest] ∧
    (replies libraryProject keepCaches pairSession
        (familyAsker.loads [secondKey, familyKey])).map Reply.completed =
      [none, some (pairSession.after libraryProject
        (familyAsker.loads [secondKey, familyKey])).manifest] := by
  have hsession : pairSession = built libraryProject (transforms pairTexts) := rfl
  have hfirst : [familyKey, secondKey].Perm (pairSession.allRecords.map Record.specifier) := by
    rw [specifiers_pairSession]
  have hsecond : [secondKey, familyKey].Perm (pairSession.allRecords.map Record.specifier) := by
    rw [specifiers_pairSession]
    exact List.Perm.swap familyKey secondKey []
  have hfixed : familyAsker.world.IsFixed := isFixed_familyWorld fun _ => true
  have hawaits : Awaits libraryProject familyAsker.world pairSession [familyKey, secondKey] :=
    awaits_transforms hasLibrary_libraryProject rfl hfixed pairTexts hfirst
  obtain ⟨answer, hanswers, -, hsame, hcompleted⟩ :=
    order_of_requests_does_not_matter familyAsker hasLibrary_libraryProject rfl hfixed hsession
      hfirst hsecond
  have hok : ∀ name ∈ [familyKey, secondKey], (answer name).isOk = true := by
    intro name hname
    rw [answers_loads hawaits regular_libraryProject hasLibrary_libraryProject hfixed] at hanswers
    have hanswer := List.map_inj_left.mp hanswers name hname
    rw [← Answer.loaded.inj hanswer]
    exact isOk_familyAttempts name hname
  have hregistered : ∀ kind, (libraryProject.setup.loaders kind).isSome = true := by
    intro kind
    cases kind <;> rfl
  obtain ⟨hone, hother⟩ := hcompleted hregistered (List.cons_ne_nil _ _) hok
  exact ⟨specifiers_pairSession, hsame, hone, hother⟩

end Session

end FontHosting
