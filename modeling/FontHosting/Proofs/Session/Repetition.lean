import FontHosting.Proofs.Session.Booking
import FontHosting.Proofs.Session.Completion

/-!
# What was done need not be done again

A host may transform a module twice, and may ask for a stylesheet once for each part of the
site and as often as a page is shown.  The second time nothing is left to do.

* A module whose latest text is transformed again leaves the session as it is
  (`transform_again_changes_nothing`).  Its records are made anew, but from the same names, and
  whether each is marked agrees with the stylesheets that are kept (`Filed`); nothing has
  ended, so nothing is retracted.
* While a site is developed, a stylesheet that an environment has asked for before is handed
  out again, without a loader and without a trace (`stylesheet_is_handed_out_again`).  It is
  received as if it were new, but what it is received for was done the first time (`Served`,
  `Booked`), and has not been undone since, for that would have dropped the stylesheet.

In both cases a session that is `Settled` already is not finished a second time.
-/

namespace FontHosting

namespace Stylesheet

/-- Names with the same key belong to the same loader. -/
theorem ofTargetPath?_eq_of_key? {first second key : String} (hfirst : key? first = some key)
    (hsecond : key? second = some key) :
    LoaderKind.ofTargetPath? (pathPart first.toList) =
      LoaderKind.ofTargetPath? (pathPart second.toList) := by
  obtain ⟨kind, hkind, hpath⟩ := pathPart_key hfirst
  obtain ⟨other, hother, hsame⟩ := pathPart_key hsecond
  rw [hpath] at hsame
  have heq := ofTargetPath?_targetPath kind
  rw [hsame, ofTargetPath?_targetPath] at heq
  rw [hkind, hother, heq]

namespace Collection

variable {setup : Setup} {world : Loader.World} {collection : Collection} {request : Request}
  {kind : LoaderKind}

/-- Without its loader a stylesheet is unknown. -/
theorem start_of_no_loader
    (hkind : LoaderKind.ofTargetPath? (pathPart request.id.toList) = some kind)
    (hnone : setup.loaders kind = none) :
    collection.start setup world request = (collection, .unknown) := by
  unfold start
  rw [hkind]
  cases key? request.id with
  | none => rfl
  | some key => simp only [hnone]

/-- **What is kept for an environment is found without running a loader.** -/
theorem start_of_kept {key : String} {registered : Registered} {loaded : Loaded}
    (hdev : setup.isDev = true) (hkey : key? request.id = some key)
    (hkind : LoaderKind.ofTargetPath? (pathPart request.id.toList) = some kind)
    (hregistered : setup.loaders kind = some registered)
    (hseen : (key, request.environment) ∈ collection.environments)
    (hget : collection.stylesheets.get? key = some loaded) :
    collection.start setup world request = (collection, .kept key loaded.target) := by
  have hkept : collection.kept? setup key request.environment = some loaded.target := by
    unfold kept?
    rw [hdev, List.contains_iff_mem.mpr hseen, hget]
    rfl
  unfold start
  rw [hkey, hkind]
  simp only [hregistered, hkept]

end Collection

end Stylesheet

namespace Session

open FontCall (Transformed)
open Stylesheet (BelongsTo Collection HasRepeatedMark Loaded Request key?)

variable {project : Project} {session before after : Session}

/-! ## Sessions that are settled -/

/-- A settled session is not finished again. -/
theorem Settled.settle_eq {α : Type} (h : Settled session) (hfiled : Filed session) (answer : α) :
    session.settle answer = session.answering answer := by
  unfold Session.settle
  refine if_neg fun hcomplete => ?_
  obtain ⟨hunfinished, hrecords, hpending⟩ := (isComplete_iff hfiled).mp hcomplete
  rw [h.finished hrecords hpending] at hunfinished
  cases hunfinished

/-! ## Transforming a module again -/

section
variable {module : String} {specifiers : List String}

/-- The records of a module are made again as they are. -/
theorem currentImports_of_importNames (hfiled : Filed session)
    (hnames : session.importNames module = namesOf specifiers) :
    session.currentImports specifiers = (session.records.get? module).getD [] := by
  let recordOf : String × String → Record := fun name =>
    ⟨name.1, name.2, session.collection.contains name.2⟩
  have hcurrent : session.currentImports specifiers = (namesOf specifiers).map recordOf := by
    unfold currentImports namesOf recordOf?
    rw [List.map_filterMap]
    refine List.filterMap_congr fun specifier _ => ?_
    rw [Option.map_map]
    rfl
  rw [hcurrent, ← hnames]
  unfold importNames
  rw [List.map_map]
  refine (List.map_congr_left fun record hmem => ?_).trans (List.map_id _)
  have hrecord : session.HasRecord module record := by
    cases hget : session.records.get? module with
    | none =>
        rw [hget] at hmem
        cases hmem
    | some records =>
        rw [hget] at hmem
        exact ⟨records, hget, hmem⟩
  have hmark : session.collection.contains record.key = record.isResolved := by
    rw [Bool.eq_iff_iff, hfiled.resolved module record hrecord]
    unfold Collection.contains Table.contains
    rw [Collection.get?_of_isKey (hfiled.isKey hrecord)]
  show Record.mk record.specifier record.key (session.collection.contains record.key) = record
  rw [hmark]

/-- Nothing ends when the imports stay the same. -/
theorem ended_of_importNames (hfiled : Filed session)
    (hnames : session.importNames module = namesOf specifiers) :
    session.ended module specifiers = [] := by
  refine List.eq_nil_iff_forall_not_mem.mpr fun record hended => ?_
  obtain ⟨⟨records, hget, hmem⟩, hgone⟩ := mem_ended.mp hended
  rw [currentImports_of_importNames hfiled hnames, hget] at hgone
  exact hgone record hmem rfl

/-- **To record the imports that a module has already changes nothing.** -/
theorem recordImports_of_importNames (hfiled : Filed session) (hbooked : Booked session)
    (hsettled : Settled session) (hnames : session.importNames module = namesOf specifiers) :
    session.recordImports module specifiers = session.answering [] := by
  have hcurrent := currentImports_of_importNames hfiled hnames
  have hended := ended_of_importNames hfiled hnames
  have hfinished : (session.isFinished &&
      (session.currentImports specifiers).all Record.isResolved) = session.isFinished := by
    cases hfinished : session.isFinished with
    | false => rfl
    | true =>
        rw [Bool.true_and, List.all_eq_true, hcurrent]
        intro record hmem
        refine pending_eq_zero_iff.mp (hsettled.quiet hfinished) module record ?_
        cases hget : session.records.get? module with
        | none =>
            rw [hget] at hmem
            cases hmem
        | some records =>
            rw [hget] at hmem
            exact ⟨records, hget, hmem⟩
  have hsame : session.replaceImports module specifiers = session := by
    unfold replaceImports retractEnded openModule
    dsimp only
    rw [hended, hfinished, hcurrent]
    cases hget : session.records.get? module with
    | none =>
        -- A module without imports has no entry that could be taken away.
        have hentry : session.manifest.entries.get? module = none := by
          by_contra hsome
          obtain ⟨entry, hentry⟩ := Option.ne_none_iff_exists'.mp hsome
          obtain ⟨record, records, hrecords, -⟩ := hbooked.imports module ⟨entry, hentry⟩
          rw [hget] at hrecords
          cases hrecords
        have hmanifest : session.manifest.remove module = session.manifest := by
          unfold Manifest.remove
          rw [Table.erase_eq_self hentry]
        simp [retract, drop, Collection.removeAll, releaseUrls, Table.erase_eq_self hget,
          hmanifest]
    | some records =>
        have hrecords : (session.records.erase module).insert module records =
            session.records := by
          refine Table.ext_get? fun other => ?_
          rw [Table.get?_insert, Table.get?_erase]
          split
          · rename_i hother
            rw [hother, hget]
          · rfl
        simp [hfiled.nonempty module records hget, hrecords]
  rw [recordImports_eq, hsame, hended]
  exact hsettled.settle_eq hfiled []

end

/-- **A module whose latest text is transformed again changes nothing.**  In whatever session a
module was transformed and answered, and whatever came after it except that the module was
transformed with another answer, removed or all was forgotten: to transform it with the same
text again gives the same answer, leaves the whole session as it is and finishes nothing. -/
theorem transform_again_changes_nothing (hregular : project.Regular)
    (hreachable : Reachable project before) {id source : String}
    {transformed? : Option Transformed}
    (hanswer : (before.transform project id source).answer = .ok transformed?)
    (hlater : Later project
      (fun session operation => ¬ operation.Replaces project session (project.moduleId id))
      (before.transform project id source).session session)
    {again : String} (hagain : project.moduleId again = project.moduleId id) :
    session.transform project again source = session.answering (.ok transformed?) := by
  have hfirst := hreachable.transform id source
  have hsession := hfirst.later hlater
  have hfiled := hsession.filed hregular
  rcases transform_of_ok hanswer with ⟨hscript, rfl, -⟩ | ⟨hscript, htext, hrecorded⟩
  · unfold transform
    dsimp only
    rw [hagain, hscript]
    rfl
  · have hnames : session.importNames (project.moduleId id) =
        namesOf (importsOf transformed?) := by
      rw [importNames_later hregular hfirst hlater, hrecorded]
      exact importNames_recordImports before _ _
    rw [← hagain] at hscript htext hnames
    rw [transform_of_isScript session hscript htext, recordImports_of_importNames hfiled
      (hsession.booked hregular) (hsession.settled hregular) hnames]
    rfl

/-- The text of the module in the small build. -/
def smallText : String := "import {A} from \"next-font/google\";const a = A();"

/-- A text that is refused. -/
def refusedText : String := "import * as A from \"next-font/google\";"

/-- It is refused whatever the session has seen. -/
theorem isOk_transform_refusedText (session : Session) :
    (session.transform smallProject "a.js" refusedText).answer.isOk = false := by
  have hfails : (FontCall.transform smallProject.calls "a.js" "a.js" refusedText).isOk = false := rfl
  have hmodule : smallProject.moduleId "a.js" = "a.js" := callsOnce_smallProject.module_eq
  have hscript : isScript (smallProject.moduleId "a.js") = true :=
    hmodule.symm ▸ callsOnce_smallProject.isScript
  cases hrefusal : FontCall.transform smallProject.calls "a.js" "a.js" refusedText with
  | ok transformed? =>
      rw [hrefusal] at hfails
      cases hfails
  | error refusal =>
      rw [answer_transform_of_refused hscript (hmodule.symm ▸ hrefusal)]
      rfl

/-- The small build, in which the module then has changed and a text of it was refused. -/
def changedBuild : List Operation :=
  smallBuild ++ [.invalidateModule "a.js"] ++ [.transform "a.js" refusedText]

/-- The text before the one that was refused is still the latest one of the module. -/
theorem small_module_is_transformed_again :
    ∃ transformed?, (Session.empty.transform smallProject "a.js" smallText).answer =
        .ok transformed? ∧
      (built smallProject changedBuild).transform smallProject "a.js" smallText =
        (built smallProject changedBuild).answering (.ok transformed?) := by
  have hok : (Session.empty.transform smallProject "a.js" smallText).answer.isOk = true :=
    (@transform_of_callsOnce smallProject empty _ _ _ _ callsOnce_smallProject
      isNameOf_smallKey.isKey rfl rfl).2
  have hrefused := isOk_transform_refusedText
    (built smallProject (smallBuild ++ [.invalidateModule "a.js"]))
  cases hanswer : (Session.empty.transform smallProject "a.js" smallText).answer with
  | error refusal =>
      rw [hanswer] at hok
      cases hok
  | ok transformed? =>
      have hfirst : built smallProject [smallTransform] =
          (Session.empty.transform smallProject "a.js" smallText).session :=
        built_transform smallProject [] "a.js" smallText
      have hloaded : Later smallProject
          (fun session operation =>
            ¬ operation.Replaces smallProject session (smallProject.moduleId "a.js"))
          (built smallProject [smallTransform]) (built smallProject ([smallTransform] ++
            [smallLoad])) :=
        Later.append .refl smallLoad isPlain_smallLoad not_false
      rw [hfirst] at hloaded
      have hlater := (hloaded.append (.invalidateModule "a.js") trivial not_false).append
        (.transform "a.js" refusedText) trivial fun hreplaces =>
          Bool.eq_false_iff.mp hrefused hreplaces.2
      exact ⟨transformed?, rfl,
        transform_again_changes_nothing regular_smallProject .new hanswer hlater rfl⟩

/-! ## Asking for a stylesheet again -/

/-- **To receive a stylesheet that is kept already changes nothing.** -/
theorem receive_again (hfiled : Filed session) (hserved : Served project session)
    (hbooked : Booked session) (hsettled : Settled session) {key : String} {loaded : Loaded}
    (hget : session.collection.stylesheets.get? key = some loaded) :
    session.receive key loaded = session.answering () := by
  obtain ⟨record, hrecord, hkey⟩ := hfiled.recorded key loaded hget
  have himported : session.isImported key = true :=
    isImported_iff.mpr ⟨loaded.module, record, hrecord, hkey⟩
  have hrecords : (session.mark true [key]).records = session.records := by
    refine Table.ext_get? fun module => ?_
    rw [get?_records_mark]
    cases hmodule : session.records.get? module with
    | none => rfl
    | some records =>
        rw [Option.map_some, Option.some_inj]
        refine (List.map_congr_left fun own hown => ?_).trans (List.map_id records)
        split
        · rename_i hsame
          have hsame : own.key = key := by simpa using hsame
          have hmark := (hfiled.resolved module own ⟨records, hmodule, hown⟩).mpr
            (Table.contains_iff.mpr ⟨loaded, hsame ▸ hget⟩)
          rw [← hmark]
          rfl
        · rfl
  have hmanifest : session.manifest.record loaded.module loaded.assets = session.manifest :=
    Manifest.record_eq_self (hbooked.adjusted key loaded hget) (hbooked.hasEntry key loaded hget)
      (hserved.listed key loaded hget)
  have hmarked : session.mark true [key] = session := by
    show Session.mk session.collection (session.mark true [key]).records session.manifest
      session.isFinished = session
    rw [hrecords]
  have hsame : session.resolveImports key loaded = session := by
    simp only [resolveImports, hmarked, hmanifest]
  rw [receive_of_isImported himported, hsame]
  exact hsettled.settle_eq hfiled ()

/-- A stylesheet that is handed out has a loader, and was received. -/
theorem load_handed_out (hregular : project.Regular) {world : Loader.World} {request : Request}
    {target : Stylesheet.Module}
    (hanswer : (session.load project world request).answer = .ok (some target)) :
    ∃ key loaded collection, Holds project request session.collection collection key loaded ∧
      (session.load project world request).session =
        (({ session with collection }).receive key loaded).session := by
  cases hstart : session.collection.start project.setup world request with
  | mk collection started =>
      rw [load_eq hstart] at hanswer ⊢
      cases started with
      | unknown => cases hanswer
      | failed failure => cases hanswer
      | kept key target =>
          obtain ⟨rfl, loaded, hholds, hfinish⟩ := finish_kept hstart
          rw [hfinish]
          exact ⟨key, loaded, _, hholds, rfl⟩
      | made key loaded =>
          obtain ⟨hholds, hfinish⟩ := finish_made hregular.confined hstart
          rw [hfinish]
          exact ⟨key, loaded, _, hholds, rfl⟩

/-- After an import was asked for and handed out, it is remembered which environment did. -/
theorem mem_environments_of_load (hregular : project.Regular) {world : Loader.World}
    {request : Request} {target : Stylesheet.Module}
    (hanswer : (session.load project world request).answer = .ok (some target)) {key : String}
    (hkey : key? request.id = some key) (himported : session.isImported key = true) :
    (key, request.environment) ∈
      (session.load project world request).session.collection.environments := by
  obtain ⟨own, loaded, collection, hholds, hload⟩ := load_handed_out hregular hanswer
  obtain rfl : own = key := Option.some_inj.mp (hholds.isKey.symm.trans hkey)
  have himported : ({ session with collection }).isImported own = true := himported
  have hsettle : (({ session with collection }).receive own loaded).session.collection =
      collection := by
    rw [receive_of_isImported himported]
    unfold Session.settle
    split <;> rfl
  rw [hload, hsettle]
  exact (hholds.environments _).mpr (Or.inr rfl)

/-- An operation does not drop the stylesheet of a key. -/
def Operation.Spares (project : Project) (session : Session) (key : String)
    (operation : Operation) : Prop :=
  ∀ loaded, session.collection.stylesheets.get? key = some loaded →
    ¬ operation.Drops project session key loaded

/-- What is dropped with stylesheets is not the memory of others. -/
theorem mem_environments_of_drop {keys : List String} {dropped : String → Loaded → Prop}
    (hdrop : Drop keys before.collection after.collection)
    (hdenotes : Denotes before keys dropped) {seen : String × String} {loaded : Loaded}
    (hget : before.collection.stylesheets.get? seen.1 = some loaded)
    (hspared : ¬ dropped seen.1 loaded) (hseen : seen ∈ before.collection.environments) :
    seen ∈ after.collection.environments :=
  (hdrop.environments seen).mpr
    ⟨hseen, fun hkey => hspared ((hdenotes.mem_iff seen.1 loaded hget).mp hkey)⟩

theorem mem_environments_recordImports (hfiled : Filed session) {module : String}
    {specifiers : List String} {seen : String × String} {loaded : Loaded}
    (hget : session.collection.stylesheets.get? seen.1 = some loaded)
    (hspared : ¬ (loaded.module = module ∧ ∀ specifier ∈ specifiers, key? specifier ≠ some seen.1))
    (hseen : seen ∈ session.collection.environments) :
    seen ∈ (session.recordImports module specifiers).session.collection.environments := by
  have hkeys : ∀ record, session.HasRecord module record → key? record.key = some record.key :=
    fun record hrecord => hfiled.isKey hrecord
  have hdrop := drop_replaceImports hkeys specifiers
  have hreplaced := mem_environments_of_drop hdrop
    (Exact.denotes_ended hfiled module specifiers) hget hspared hseen
  rw [recordImports_eq]
  unfold Session.settle
  split <;> exact hreplaced

/-- Whatever a request comes to, what an environment has asked for stays remembered. -/
theorem mem_environments_load (hregular : project.Regular) (hfiled : Filed session)
    (world : Loader.World) (request : Request) {seen : String × String}
    (hseen : seen ∈ session.collection.environments) :
    seen ∈ (session.load project world request).session.collection.environments := by
  rcases load_cases hregular.confined world session request with
    ⟨collection, answer, htaken, hload⟩ |
    ⟨key, loaded, collection, answer, hholds, hload⟩
  · rw [hload]
    exact htaken.environments ▸ hseen
  · have hkept : seen ∈ collection.environments := (hholds.environments seen).mpr (Or.inl hseen)
    rw [hload]
    by_cases himported : ({ session with collection }).isImported key = true
    · rw [receive_of_isImported himported]
      unfold Session.settle
      split <;> exact hkept
    · rw [receive_of_not_isImported himported]
      have hdrop : Drop [key] collection (({ session with collection }).discard key).collection :=
        hholds.drop_discard
      -- What is kept is imported, so it is not what is discarded.
      refine (hdrop.environments seen).mpr ⟨hkept, fun hkey => himported ?_⟩
      obtain ⟨found, hget⟩ := Table.contains_iff.mp (hfiled.environments seen hseen)
      obtain ⟨record, hrecord, hown⟩ := hfiled.recorded seen.1 found hget
      rw [List.mem_singleton] at hkey
      exact isImported_iff.mpr ⟨found.module, record, hrecord, hown.trans hkey⟩

/-- **What an environment has asked for is remembered as long as the stylesheet is kept.** -/
theorem mem_environments_perform (hregular : project.Regular)
    (hreachable : Reachable project session) {operation : Operation} {seen : String × String}
    (hspares : operation.Spares project session seen.1)
    (hseen : seen ∈ session.collection.environments) :
    seen ∈ (session.perform project operation).session.collection.environments := by
  have hfiled := hreachable.filed hregular
  obtain ⟨loaded, hget⟩ := Table.contains_iff.mp (hfiled.environments seen hseen)
  have hspared := hspares loaded hget
  cases operation with
  | transform id source =>
      simp only [Session.perform]
      rcases transform_answers hregular session id source with ⟨-, hsame⟩ | ⟨_, hsame⟩ |
        ⟨-, transformed?, -, hrecorded⟩
      · rw [hsame]
        exact hseen
      · rw [hsame]
        exact hseen
      · simp only [Operation.Drops, hrecorded, Except.ok.injEq, exists_eq_left'] at hspared
        rw [hrecorded]
        exact mem_environments_recordImports hfiled hget hspared hseen
  | load world request => exact mem_environments_load hregular hfiled world request hseen
  | invalidateModule id =>
      show seen ∈ (session.invalidateModule project id).1.collection.environments
      rcases invalidateModule_eq project session id with ⟨-, hsame⟩ | ⟨records, hmodule, hchanged⟩
      · rw [hsame]
        exact hseen
      · have hdenotes := Exact.denotes_imports hfiled hmodule
        have hdrop : Drop (records.map Record.key) session.collection
            (session.invalidateModule project id).1.collection := by
          rw [hchanged]
          exact drop_invalidate hdenotes.isKey
        exact mem_environments_of_drop hdrop hdenotes hget hspared hseen
  | invalidateFontFile file =>
      show seen ∈ (session.invalidateFontFile file).1.collection.environments
      rcases invalidateFontFile_eq session file with ⟨-, hsame⟩ | ⟨-, hchanged⟩
      · rw [hsame]
        exact hseen
      · have hdenotes := Exact.denotes_keysUsing hfiled file
        have hdrop : Drop (session.collection.keysUsing file) session.collection
            (session.invalidateFontFile file).1.collection := by
          rw [hchanged]
          exact drop_invalidate hdenotes.isKey
        exact mem_environments_of_drop hdrop hdenotes hget hspared hseen
  | removeModule id =>
      exact mem_environments_recordImports hfiled hget (fun hlost => hspared hlost.1) hseen
  | reset => exact absurd trivial hspared

theorem mem_environments_later (hregular : project.Regular) {seen : String × String}
    (hreachable : Reachable project before)
    (hlater : Later project (fun session operation => operation.Spares project session seen.1)
      before after)
    (hseen : seen ∈ before.collection.environments) :
    seen ∈ after.collection.environments := by
  induction hlater with
  | refl => exact hseen
  | tail hpath hstep ih =>
      obtain ⟨operation, -, hspares, rfl⟩ := hstep
      exact mem_environments_perform hregular (hreachable.later hpath) hspares ih

/-- **While a site is developed, a stylesheet is handed out again without a trace.**  Once a
stylesheet that is imported was handed out to an environment, and whatever came after it
except that the stylesheet was dropped: whoever asks for it in that environment, by any name
with the same key, is given the stylesheet that is kept now.  The whole session stays as it
is, with the caches of the loaders and the log of all that was read, fetched and emitted, and
nothing is finished. -/
theorem stylesheet_is_handed_out_again (hregular : project.Regular)
    (hdev : project.setup.isDev = true) (hreachable : Reachable project before)
    {world : Loader.World} {request : Request} (hplain : ¬ HasRepeatedMark request.id)
    {target : Stylesheet.Module}
    (hanswer : (before.load project world request).answer = .ok (some target)) {key : String}
    (hkey : key? request.id = some key) (himported : before.isImported key = true)
    (hlater : Later project (fun session operation => operation.Spares project session key)
      (before.load project world request).session session)
    {again : Request} (hagain : key? again.id = some key)
    (henvironment : again.environment = request.environment) (other : Loader.World) :
    ∃ loaded, session.collection.stylesheets.get? key = some loaded ∧
      session.load project other again = session.answering (.ok (some loaded.target)) := by
  have hfirst := hreachable.load world hplain
  have hsession := hfirst.later hlater
  have hfiled := hsession.filed hregular
  have hseen : (key, again.environment) ∈ session.collection.environments := by
    rw [henvironment]
    exact mem_environments_later hregular hfirst hlater
      (mem_environments_of_load hregular hanswer hkey himported)
  obtain ⟨loaded, hget⟩ := Table.contains_iff.mp (hfiled.environments _ hseen)
  obtain ⟨kind, hkind, -⟩ := Stylesheet.pathPart_key hkey
  -- The loader is there, or else nothing would have been handed out.
  cases hregistered : project.setup.loaders kind with
  | none =>
      rw [load_eq (Collection.start_of_no_loader hkind hregistered)] at hanswer
      cases hanswer
  | some registered =>
      rw [Stylesheet.ofTargetPath?_eq_of_key? hkey hagain] at hkind
      have hstart : session.collection.start project.setup other again =
          (session.collection, .kept key loaded.target) :=
        Collection.start_of_kept hdev hagain hkind hregistered hseen hget
      refine ⟨loaded, hget, ?_⟩
      rw [load_eq hstart]
      refine (finishFound_eq (Stylesheet.key?_key hkey) hget loaded.target).trans ?_
      rw [receive_again hfiled (hsession.served hregular) (hsession.booked hregular)
        (hsession.settled hregular) hget]
      rfl

/-- A second module. -/
def otherTransform : Operation :=
  .transform "b.js" "import {A} from \"next-font/google\";const b = A();"

/-- The server asks for the stylesheet of the first one. -/
def serverLoad : Operation := .load .unconnected ⟨smallKey, "server", true⟩

/-- The small build, in which the second module follows and the server asks for the stylesheet
of the first one. -/
def askedBuild : List Operation :=
  [smallTransform] ++ [smallLoad] ++ [otherTransform] ++ [otherLoad] ++ [serverLoad]

theorem isPlain_smallKey : ¬ HasRepeatedMark smallKey :=
  isPlain_smallLoad

theorem isPlain_serverLoad : serverLoad.IsPlain :=
  isPlain_smallKey

theorem isPlain_otherLoad : otherLoad.IsPlain :=
  isNameOf_otherKey.isPlain

/-- Another name of the stylesheet. -/
def respelledKey : String :=
  "/site/next-font/google/target.css?variableName=a&import=A&path=a%2Ejs&arguments=[]&inline"

theorem key?_respelledKey : key? respelledKey = some smallKey := by
  -- The kernel is slow to take a text apart, so it is given the characters.
  have hcharacters : respelledKey.toList = _ := String.toList_ofList
  unfold key?
  rw [hcharacters]
  decide +kernel

/-- The first environment asks again, by another name. -/
theorem small_stylesheet_is_handed_out_again :
    ∃ loaded, (built smallProject askedBuild).collection.stylesheets.get? smallKey = some loaded ∧
      (built smallProject askedBuild).load smallProject .unconnected
          ⟨respelledKey, "client", false⟩ =
        (built smallProject askedBuild).answering (.ok (some loaded.target)) := by
  have himported : (built smallProject [smallTransform]).isImported smallKey = true := by
    rw [built_smallTransform]
    exact isImported_awaiting _ _ _
  have hbelongs : BelongsTo smallKey "a.js" :=
    ⟨isNameOf_smallKey.isKey, _,
      Stylesheet.Collection.read?_of_readCall isNameOf_smallKey.readCall_eq, rfl⟩
  have hreachable : Reachable smallProject (built smallProject [smallTransform]) :=
    .step smallTransform .new trivial
  obtain ⟨target, hanswer⟩ : ∃ target, ((built smallProject [smallTransform]).load smallProject
      .unconnected ⟨smallKey, "client", false⟩).answer = .ok (some target) := by
    rw [built_smallTransform]
    obtain ⟨after, loaded, hmade, -⟩ := @start_smallProject
      (empty.awaiting "a.js" smallKey).collection ⟨smallKey, "client", false⟩ _ _ _
      isNameOf_smallKey List.not_mem_nil .unconnected
    exact ⟨_, answer_of_made regular_smallProject.confined hmade⟩
  have hfirst : built smallProject ([smallTransform] ++ [smallLoad]) =
      ((built smallProject [smallTransform]).load smallProject .unconnected
        ⟨smallKey, "client", false⟩).session :=
    built_load smallProject [smallTransform] .unconnected ⟨smallKey, "client", false⟩
  have hfiled : Filed (built smallProject ([smallTransform] ++ [smallLoad])) :=
    (reachable_built smallProject isPlain_smallBuild).filed regular_smallProject
  have hasked : Later smallProject
      (fun session operation => operation.Spares smallProject session smallKey)
      (built smallProject ([smallTransform] ++ [smallLoad]))
      (built smallProject ([smallTransform] ++ [smallLoad] ++ [otherTransform])) := by
    refine Later.append .refl otherTransform trivial ?_
    -- The stylesheet is one of the first module.
    rintro loaded hget ⟨_, -, hmodule, -⟩
    have hown := (hfiled.belongsTo hget).unique hbelongs
    rw [hmodule, callsOnce_otherModule.module_eq] at hown
    exact absurd hown (by decide)
  have hlater : Later smallProject
      (fun session operation => operation.Spares smallProject session smallKey)
      (built smallProject ([smallTransform] ++ [smallLoad]))
      (built smallProject askedBuild) := by
    unfold askedBuild
    exact (hasked.append otherLoad isPlain_otherLoad fun _ _ => not_false).append
      serverLoad isPlain_serverLoad fun _ _ => not_false
  rw [hfirst] at hlater
  have hplain : ¬ HasRepeatedMark (Request.mk smallKey "client" false).id :=
    isPlain_smallKey
  have hagain : key? (Request.mk respelledKey "client" false).id = some smallKey :=
    key?_respelledKey
  exact stylesheet_is_handed_out_again regular_smallProject rfl hreachable hplain hanswer
    isNameOf_smallKey.isKey himported hlater hagain rfl .unconnected

end Session

end FontHosting
