import FontHosting.Proofs.Session.Exactness

/-!
# Modules do not interfere

All modules share one collection of stylesheets, one store and one manifest.  What keeps
them apart is that the key of an import tells its module (`BelongsTo.unique`), so an
operation on one module never finds the stylesheets of another one.

The store is shared for good: two modules with the same font have one file.  An operation
that drops stylesheets spares it because dropping is exact (`Exact.untouched`), and a
request only adds files.
-/

namespace FontHosting.Session

open Stylesheet (BelongsTo Collection HasRepeatedMark Loaded Request key?)

variable {project : Project} {session before after : Session}
  {dropped : String → Loaded → Prop} {mayEnd : String → Prop} {module : String}

/-- Nothing of a module has changed: not its imports, not its entry in the manifest, not its
stylesheets, and not whether their files are in the store. -/
structure Untouched (module : String) (before after : Session) : Prop where
  records : after.records.get? module = before.records.get? module
  entry : after.manifest.get? module = before.manifest.get? module
  stylesheets : ∀ key loaded, loaded.module = module →
    (after.collection.stylesheets.get? key = some loaded ↔
      before.collection.stylesheets.get? key = some loaded)
  stored : ∀ key loaded, before.collection.stylesheets.get? key = some loaded →
    loaded.module = module → ∀ url ∈ loaded.urls,
      after.collection.store.contains url = before.collection.store.contains url

namespace Untouched

theorem refl : Untouched module session session :=
  ⟨rfl, rfl, fun _ _ _ => Iff.rfl, fun _ _ _ _ _ _ => rfl⟩

theorem settle {α : Type} (h : Untouched module before after) (answer : α) :
    Untouched module before (after.settle answer).session := by
  unfold Session.settle
  split
  · exact ⟨h.records, h.entry, h.stylesheets, h.stored⟩
  · exact h

/-- What a request leaves behind touches no module. -/
theorem of_keeps (hserved : Served project session) {collection : Collection}
    (hstylesheets : collection.stylesheets = session.collection.stylesheets)
    (hkeeps : ∀ url, session.collection.store.contains url = true →
      collection.store.contains url = true) :
    Untouched module session { session with collection } := by
  refine ⟨rfl, rfl, fun key loaded _ => ?_, fun key loaded hget _ url hurl => ?_⟩
  · show collection.stylesheets.get? key = some loaded ↔ _
    rw [hstylesheets]
  · have hbefore := hserved.stored url (Collection.references_iff.mpr ⟨key, loaded, hget, hurl⟩)
    rw [hbefore]
    exact hkeeps url hbefore

end Untouched

/-! ## Operations that drop stylesheets -/

/-- A module of which nothing is dropped is not touched, as far as its imports are not. -/
theorem Exact.untouched (h : Exact before after dropped mayEnd) (hserved : Served project before)
    (hspared : ∀ key loaded, before.collection.stylesheets.get? key = some loaded →
      dropped key loaded → loaded.module ≠ module)
    (hkept : ¬ mayEnd module)
    (hrecords : after.records.get? module = before.records.get? module) :
    Untouched module before after := by
  have hstays : ∀ key loaded, before.collection.stylesheets.get? key = some loaded →
      loaded.module = module → after.collection.stylesheets.get? key = some loaded := by
    intro key loaded hget hmodule
    refine (h.stylesheets key loaded).mpr ⟨hget, fun hdropped => ?_⟩
    exact hspared key loaded hget hdropped hmodule
  refine ⟨hrecords, ?_, fun key loaded hmodule => ?_, fun key loaded hget hmodule url hurl => ?_⟩
  · rcases h.entries module with hunlists | ⟨hends, -⟩
    · exact (unlists_iff_of_spared hspared).mp hunlists
    · exact absurd hends hkept
  · constructor
    · intro hget
      exact ((h.stylesheets key loaded).mp hget).1
    · intro hget
      exact hstays key loaded hget hmodule
  · have hbefore := hserved.stored url (Collection.references_iff.mpr ⟨key, loaded, hget, hurl⟩)
    rw [hbefore]
    -- The URL would only leave if no stylesheet that stays had it.
    by_contra hgone
    obtain ⟨-, hunreferenced⟩ := (h.released url).mp ⟨hbefore, hgone⟩
    exact hunreferenced ⟨key, loaded, hstays key loaded hget hmodule, hurl⟩

/-- The imports of a module wait only for stylesheets of the module. -/
theorem Waits.eq_of_spared (h : Waits before after dropped) (hfiled : Filed before)
    (hspared : ∀ key loaded, before.collection.stylesheets.get? key = some loaded →
      dropped key loaded → loaded.module ≠ module) :
    after.records.get? module = before.records.get? module := by
  rw [h module]
  cases hget : before.records.get? module with
  | none => rfl
  | some records =>
      rw [Option.map_some, Option.some_inj]
      refine (List.map_congr_left fun record hrecord => ?_).trans (List.map_id records)
      have hkept := not_lost_of_spared hfiled hspared ⟨records, hget, hrecord⟩
      simp [hkept]

theorem records_recordImports {specifiers : List String} {other : String}
    (hother : other ≠ module) :
    (session.recordImports module specifiers).session.records.get? other =
      session.records.get? other := by
  have hsettle : (session.recordImports module specifiers).session.records =
      (session.replaceImports module specifiers).records := by
    rw [recordImports_eq]
    unfold Session.settle
    split <;> rfl
  rw [hsettle, get?_records_replaceImports, if_neg hother]

/-- **Replacing the imports of a module touches no other one.** -/
theorem untouched_recordImports (hserved : Served project session) (hfiled : Filed session)
    {specifiers : List String}
    (hspecifiers : ∀ specifier ∈ specifiers, ∀ key, key? specifier = some key →
      BelongsTo key module) {other : String} (hother : other ≠ module) :
    Untouched other session (session.recordImports module specifiers).session := by
  refine (Exact.recordImports hserved hfiled hspecifiers).untouched hserved
    (fun key loaded _ hdropped hmodule => ?_) hother (records_recordImports hother)
  exact hother (hmodule.symm.trans hdropped.1)

theorem untouched_transform (hregular : project.Regular) (hreachable : Reachable project session)
    {id : String} (source : String) {other : String} (hother : other ≠ project.moduleId id) :
    Untouched other session (session.transform project id source).session := by
  rcases transform_answers hregular session id source with ⟨-, hsame⟩ | ⟨refusal, hsame⟩ |
    ⟨-, transformed?, hspecifiers, hrecorded⟩
  · rw [hsame]
    exact .refl
  · rw [hsame]
    exact .refl
  · rw [hrecorded]
    exact untouched_recordImports (hreachable.served hregular) (hreachable.filed hregular)
      hspecifiers hother

theorem untouched_invalidateModule (hserved : Served project session) (hfiled : Filed session)
    {id : String} {other : String} (hother : other ≠ project.moduleId id) :
    Untouched other session (session.invalidateModule project id).1 := by
  have hspared : ∀ key loaded, session.collection.stylesheets.get? key = some loaded →
      loaded.module = project.moduleId id → loaded.module ≠ other := by
    intro key loaded _ hdropped hmodule
    exact hother (hmodule.symm.trans hdropped)
  have hexact : Exact session (session.invalidateModule project id).1 _ fun _ => False :=
    Exact.invalidateModule hserved hfiled id
  exact hexact.untouched hserved hspared not_false
    ((waits_invalidateModule hfiled id).eq_of_spared hfiled hspared)

/-! ## Requests -/

/-- **A stylesheet that is received touches no module but its own.** -/
theorem untouched_resolveImports (hserved : Served project session) (hfiled : Filed session)
    {request : Request} {collection : Collection} {key : String} {loaded : Loaded}
    (hholds : Holds project request session.collection collection key loaded)
    (hbelongs : BelongsTo key loaded.module) {other : String} (hother : other ≠ loaded.module) :
    Untouched other session (({ session with collection }).resolveImports key loaded) := by
  -- Nothing of another module has the key.
  have hkey : ∀ own, BelongsTo own other → own ≠ key := by
    intro own hown heq
    exact hother (hown.unique (heq ▸ hbelongs))
  refine ⟨?_, Manifest.get?_record_of_ne hother _, fun own found hmodule => ?_,
    fun own found hget hmodule url hurl => ?_⟩
  · show (({ session with collection }).mark true [key]).records.get? other = _
    rw [get?_records_mark]
    cases hget : session.records.get? other with
    | none => rfl
    | some records =>
        rw [Option.map_some, Option.some_inj]
        refine (List.map_congr_left fun record hrecord => ?_).trans (List.map_id records)
        have hne := hkey record.key (hfiled.belongs other record ⟨records, hget, hrecord⟩)
        simp [hne]
  · show collection.stylesheets.get? own = some found ↔ _
    rw [hholds.stylesheets]
    by_cases heq : own = key
    · rw [if_pos heq]
      constructor
      · intro hfound
        obtain rfl := Option.some_inj.mp hfound
        exact absurd hmodule.symm hother
      · intro hget
        exact absurd heq (hkey own (hmodule ▸ hfiled.belongsTo hget))
    · rw [if_neg heq]
  · have hbefore := hserved.stored url (Collection.references_iff.mpr ⟨own, found, hget, hurl⟩)
    rw [hbefore]
    exact hholds.keeps url hbefore

/-- A request for a stylesheet that a module imports touches no other one. -/
theorem untouched_load (hregular : project.Regular) (hreachable : Reachable project session)
    (world : Loader.World) {request : Request} (hplain : ¬ HasRepeatedMark request.id)
    {record : Record} (hrecord : session.HasRecord module record)
    (hrequest : key? request.id = some record.key) {other : String} (hother : other ≠ module) :
    Untouched other session (session.load project world request).session := by
  have hfiled := hreachable.filed hregular
  have hserved := hreachable.served hregular
  rcases load_cases hregular.confined world session request with
    ⟨collection, answer, htaken, hload⟩ |
    ⟨key, loaded, collection, answer, hholds, hload⟩
  · rw [hload]
    exact .of_keeps hserved htaken.stylesheets htaken.keeps
  · have hkey : record.key = key := Option.some_inj.mp (hrequest.symm.trans hholds.isKey)
    have hbelongs := hfiled.belongsTo_of_holds hholds hplain
    have himported : ({ session with collection }).isImported key = true :=
      isImported_iff.mpr ⟨module, record, hrecord, hkey⟩
    have hmodule : loaded.module = module :=
      hbelongs.unique (hkey ▸ hfiled.belongs module record hrecord)
    rw [hload, receive_of_isImported himported]
    refine (untouched_resolveImports hserved hfiled hholds hbelongs ?_).settle ()
    rw [hmodule]
    exact hother

/-! ## Every operation on a module -/

/-- An operation is on a module: the module is transformed, removed or has changed, or a
stylesheet is asked for that the module imports. -/
def Operation.IsOn (project : Project) (session : Session) (module : String) : Operation → Prop
  | .transform id _ | .removeModule id | .invalidateModule id => project.moduleId id = module
  | .load _ request =>
      ∃ record, session.HasRecord module record ∧ key? request.id = some record.key
  | .invalidateFontFile _ | .reset => False

/-- **Modules do not interfere.**  In every reachable session an operation on a module leaves
every other module as it is, whatever the operation comes to: its imports, its entry in the
manifest, its stylesheets and the presence of their files in the store.  A module that is
refused leaves the whole session as it is. -/
theorem modules_do_not_interfere (hregular : project.Regular)
    (hreachable : Reachable project session) :
    (∀ module other operation, other ≠ module → operation.IsPlain →
      operation.IsOn project session module →
        Untouched other session (session.perform project operation).session) ∧
    ∀ id source refusal, (session.transform project id source).answer = .error refusal →
      session.transform project id source = session.answering (.error refusal) := by
  have hfiled := hreachable.filed hregular
  have hserved := hreachable.served hregular
  constructor
  · intro module other operation hother hplain hon
    cases operation with
    | transform id source =>
        simp only [Session.perform]
        exact untouched_transform hregular hreachable source (hon ▸ hother)
    | load world request =>
        obtain ⟨record, hrecord, hrequest⟩ := hon
        exact untouched_load hregular hreachable world hplain hrecord hrequest hother
    | invalidateModule id => exact untouched_invalidateModule hserved hfiled (hon ▸ hother)
    | removeModule id =>
        refine untouched_recordImports hserved hfiled ?_ (hon ▸ hother)
        exact fun _ hspecifier => absurd hspecifier List.not_mem_nil
    | invalidateFontFile file => exact hon.elim
    | reset => exact hon.elim
  · intro id source refusal hanswer
    rcases transform_answers hregular session id source with ⟨-, hsame⟩ | ⟨_, hsame⟩ |
      ⟨-, _, -, hrecorded⟩
    · rw [hsame] at hanswer
      cases hanswer
    · rw [hsame] at hanswer ⊢
      rw [← hanswer]
      rfl
    · rw [hrecorded] at hanswer
      cases hanswer

/-- A module whose font calls are at fault is refused in every session. -/
theorem answer_transform_of_refused {id source : String} {refusal : FontCall.Refusal}
    (hscript : isScript (project.moduleId id) = true)
    (hrefused : FontCall.transform project.calls (project.moduleId id) (project.moduleId id)
      source = .error refusal) :
    (session.transform project id source).answer = .error refusal := by
  unfold transform
  dsimp only
  rw [hrefused]
  simp [hscript, answering]

/-- The two modules of the shared build have one file.  Removing the second module leaves the
first one as it is, and a text of the second module that is refused leaves everything as it
is. -/
theorem second_module_leaves_first_one :
    (built smallProject sharedBuild).manifest.get? "a.js" = some [smallAsset] ∧
    Untouched "a.js" (built smallProject sharedBuild)
      ((built smallProject sharedBuild).perform smallProject (.removeModule "b.js")).session ∧
    ∃ refusal, (built smallProject sharedBuild).transform smallProject "b.js"
        "import * as A from \"next-font/google\";" =
      (built smallProject sharedBuild).answering (.error refusal) := by
  obtain ⟨hleaves, hrefused⟩ :=
    modules_do_not_interfere regular_smallProject reachable_sharedBuild
  have hmodule : smallProject.moduleId "b.js" = "b.js" := callsOnce_otherModule.module_eq
  have hscript : isScript (smallProject.moduleId "b.js") = true :=
    hmodule.symm ▸ callsOnce_otherModule.isScript
  have hfails : (FontCall.transform smallProject.calls (smallProject.moduleId "b.js")
      (smallProject.moduleId "b.js") "import * as A from \"next-font/google\";").toOption.isNone =
        true := by
    decide +kernel
  refine ⟨sharedBuild_runs.2.2, ?_, ?_⟩
  · exact hleaves "b.js" "a.js" (.removeModule "b.js") (by decide) trivial hmodule
  · cases hrefusal : FontCall.transform smallProject.calls (smallProject.moduleId "b.js")
        (smallProject.moduleId "b.js") "import * as A from \"next-font/google\";" with
    | ok transformed? =>
        rw [hrefusal] at hfails
        cases hfails
    | error refusal =>
        exact ⟨refusal, hrefused _ _ refusal (answer_transform_of_refused hscript hrefusal)⟩

end FontHosting.Session
