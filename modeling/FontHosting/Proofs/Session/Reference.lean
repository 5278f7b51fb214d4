import FontHosting.Proofs.Loader.Hosting
import FontHosting.Proofs.Session.Exactness
import FontHosting.Proofs.Session.Freshness
import FontHosting.Session.Chunk

/-!
# Stylesheets refer to their files

A stylesheet is kept with the URLs of the files that its loader emitted.  They are collected
while the loader runs, and the code of the stylesheet is put together from its rules, so it
has to be shown that the two agree.

They do if every request is `Legible`: the downloads of a family do not get in each other's
way (`Google.IsUndisturbed`), and no rule names a font by the address of one of its files,
since renaming the families would take such an address away.  Then the code of every
stylesheet has all of its URLs (`stylesheets_refer_to_their_files`).

A download that fails behind another one is the exception.  The loader goes on with the
stand-in, and the file that it had emitted stays with a stylesheet that does not refer to it
(`stylesheet_does_not_refer_to_its_file`).
-/

namespace FontHosting

/-- The path of the public URLs has none of the marks that end a declaration or a rule. -/
def Asset.UrlBase.IsPlain (base : Asset.UrlBase) : Prop :=
  ∀ c ∈ [';', '\x7b', '\x7d'], c ∉ base.path.toList

/-- The loaders of a project are those of the library. -/
structure Project.HasLibrary (project : Project) (catalog : Google.Catalog) : Prop where
  google : ∀ registered, project.setup.loaders .google = some registered →
    registered.loader = Google.loader catalog
  files : ∀ registered, project.setup.loaders .local = some registered →
    registered.loader = LocalFont.loader

theorem Project.HasLibrary.confined {project : Project} {catalog : Google.Catalog}
    (h : project.HasLibrary catalog) : project.setup.Confined := by
  refine Stylesheet.Setup.confined_of_library fun kind registered hregistered => ?_
  cases kind with
  | google => exact Or.inl ⟨catalog, h.google registered hregistered⟩
  | «local» => exact Or.inr (Or.inl (h.files registered hregistered))

namespace Stylesheet

open Css (bracketed)

/-- The code of a stylesheet has its URLs. -/
def Loaded.HasUrls (loaded : Loaded) : Prop :=
  ∀ url ∈ loaded.urls, url.toList <:+: loaded.target.code.toList

/-- An address in the rules is in the code, unless it is part of a family. -/
theorem Module.infix_code_of_generate {path : String} {output : Loader.Output} {target : Module}
    (h : Module.generate false path output = .ok target) {address : List Char}
    (hmarks : ∀ c ∈ [';', '\x7b', '\x7d'], c ∉ address)
    (hfamily : ∀ value, .family value ∈ Css.segments output.css.toList →
      ¬ bracketed address <:+: value)
    (hwithin : bracketed address <:+: output.css.toList) :
    bracketed address <:+: target.code.toList := by
  unfold Module.generate at h
  dsimp only at h
  split at h
  · cases h
  · rename_i rules family hrename
    have hrules := Css.infix_renameFamilies hrename (hmarks _ (by simp)) (hmarks _ (by simp))
      (hmarks _ (by simp)) hfamily hwithin
    cases h
    refine hrules.trans ?_
    simp only [String.toList_append, String.toList_ofList, List.append_assoc]
    exact (List.prefix_append _ _).isInfix

end Stylesheet

namespace Session

open Css (bracketed)
open Stylesheet (Collection Loaded Query Request key?)
open Stylesheet.Collection (callOf readCall)

/-! ## Legible requests -/

/-- What a loader does is legible: the downloads of a family do not get in each other's way, and
no rule names a font by the address of one of its files. -/
structure IsLegibleRun (catalog : Google.Catalog) (kind : LoaderKind) (loader : Loader.FontLoader)
    (call : Loader.Call) (start : Loader.State) : Prop where
  undisturbed : kind = .google → Google.IsUndisturbed catalog call start
  unnamed : ∀ output after, (loader call).run start = (.ok output, after) →
    ∀ name ∈ after.emitted, ∀ value, .family value ∈ Css.segments output.css.toList →
      ¬ bracketed (call.base.url name).toList <:+: value

/-- A request is legible if what its loader would do is. -/
def Operation.IsLegible (catalog : Google.Catalog) (project : Project) (session : Session) :
    Operation → Prop
  | .load world request => ∀ kind registered query arguments,
      LoaderKind.ofTargetPath? (Stylesheet.pathPart request.id.toList) = some kind →
      project.setup.loaders kind = some registered →
      readCall request.id = .ok (query, arguments) →
      IsLegibleRun catalog kind registered.loader
        (callOf project.setup world query arguments request.isServer)
        (session.collection.startState kind registered)
  | _ => True

/-- The sessions that sequences of operations lead to if every request is legible. -/
inductive Legible (catalog : Google.Catalog) (project : Project) : Session → Prop where
  | new : Legible catalog project Session.empty
  | step {session : Session} (operation : Operation) (hlegible : Legible catalog project session)
      (hplain : operation.IsPlain) (hoperation : operation.IsLegible catalog project session) :
      Legible catalog project (session.perform project operation).session

variable {catalog : Google.Catalog} {project : Project} {session : Session}

theorem Legible.reachable (h : Legible catalog project session) : Reachable project session := by
  induction h with
  | new => exact .new
  | step operation _ hplain _ ih => exact .step operation ih hplain

theorem Legible.append {operations : List Operation}
    (h : Legible catalog project (built project operations)) (last : Operation)
    (hplain : last.IsPlain) (hlast : last.IsLegible catalog project (built project operations)) :
    Legible catalog project (built project (operations ++ [last])) := by
  rw [built_append]
  exact .step last h hplain hlast

/-- **The code of a stylesheet that is made has its URLs**, if the request is legible. -/
theorem hasUrls_of_made (hlibrary : project.HasLibrary catalog)
    (hminify : project.setup.minify = false) (hbase : project.setup.base.IsPlain)
    {world : Loader.World} {request : Request} {collection : Collection} {key : String}
    {loaded : Loaded}
    (hlegible : (Operation.load world request).IsLegible catalog project session)
    (hmade : session.collection.start project.setup world request =
      (collection, .made key loaded)) : loaded.HasUrls := by
  obtain ⟨kind, registered, query, arguments, hkind, hregistered, -, hcall, -, output, target, hran,
    hgenerate, rfl⟩ := Collection.made_start hmade
  obtain ⟨hundisturbed, hunnamed⟩ :=
    hlegible kind registered query arguments hkind hregistered hcall
  let call := callOf project.setup world query arguments request.isServer
  have hrefers : Loader.RefersToFiles registered.loader call
      (session.collection.startState kind registered) := by
    cases kind with
    | google =>
        rw [hlibrary.google registered hregistered]
        exact Google.refersToFiles_google (hundisturbed rfl)
    | «local» =>
        rw [hlibrary.files registered hregistered]
        exact LocalFont.refersToFiles_local call _
  intro url hurl
  obtain ⟨name, hname, rfl⟩ := List.mem_map.mp hurl
  obtain ⟨hfont, haddress⟩ := (hrefers output _ hran name hname).resolve_left List.not_mem_nil
  rw [hminify] at hgenerate
  have hcode := Stylesheet.Module.infix_code_of_generate hgenerate
    (fun c hc => hfont.notMem_url (List.mem_cons_of_mem _ hc) (hbase c hc))
    (hunnamed output _ hran name hname) haddress
  exact List.IsInfix.trans ⟨['('], [')'], rfl⟩ hcode

/-! ## Where stylesheets come from -/

theorem get?_of_get?_receive {key : String} {loaded : Loaded} (hkey : key? key = some key)
    {other : String} {found : Loaded}
    (h : (session.receive key loaded).session.collection.stylesheets.get? other = some found) :
    session.collection.stylesheets.get? other = some found := by
  by_cases himported : session.isImported key = true
  · rw [receive_of_isImported himported] at h
    unfold Session.settle at h
    split at h <;> exact h
  · rw [receive_of_not_isImported himported] at h
    have hdrop := drop_discard_key session hkey
    exact (hdrop.get?_eq_some.mp h).1

/-- A stylesheet that is there after a request was there before, or was made for it. -/
theorem made_of_load (hregular : project.Regular) {world : Loader.World} {request : Request}
    {other : String} {found : Loaded}
    (h : (session.load project world request).session.collection.stylesheets.get? other =
      some found) :
    session.collection.stylesheets.get? other = some found ∨ ∃ collection,
      session.collection.start project.setup world request = (collection, .made other found) := by
  have htaken := Collection.takenUp_start hregular.confined world session.collection request
  cases hstart : session.collection.start project.setup world request with
  | mk collection started =>
      rw [load_eq hstart] at h
      rw [hstart] at htaken
      cases started with
      | unknown => exact Or.inl (htaken.stylesheets ▸ h)
      | failed failure => exact Or.inl (htaken.stylesheets ▸ h)
      | kept key target =>
          obtain ⟨rfl, loaded, hholds, hfinish⟩ := finish_kept hstart
          rw [hfinish] at h
          exact Or.inl (get?_of_get?_receive (Stylesheet.key?_key hholds.isKey) h)
      | made key loaded =>
          obtain ⟨hholds, hfinish⟩ := finish_made hregular.confined hstart
          rw [hfinish] at h
          have hget := get?_of_get?_receive (Stylesheet.key?_key hholds.isKey) h
          have hkept : _ = some found := (hholds.stylesheets other).symm.trans hget
          split at hkept
          · rename_i hother
            rw [hother, ← Option.some_inj.mp hkept]
            exact Or.inr ⟨collection, rfl⟩
          · exact Or.inl hkept

/-- A stylesheet that is there after an operation was there before, or was made for a request. -/
theorem made_of_perform (hregular : project.Regular) (hreachable : Reachable project session)
    {operation : Operation} {key : String} {loaded : Loaded}
    (h : (session.perform project operation).session.collection.stylesheets.get? key =
      some loaded) :
    session.collection.stylesheets.get? key = some loaded ∨
      ∃ world request collection, operation = .load world request ∧
        session.collection.start project.setup world request = (collection, .made key loaded) := by
  have hfiled := hreachable.filed hregular
  have hserved := hreachable.served hregular
  cases operation with
  | load world request =>
      rcases made_of_load hregular h with hbefore | ⟨collection, hmade⟩
      · exact Or.inl hbefore
      · exact Or.inr ⟨world, request, collection, rfl, hmade⟩
  | transform id source =>
      simp only [Session.perform] at h
      have hexact := exact_transform hregular hreachable id source
      exact Or.inl ((hexact.stylesheets key loaded).mp h).1
  | removeModule id =>
      have hexact : Exact session (session.recordImports (project.moduleId id) []).session _ _ :=
        Exact.recordImports hserved hfiled fun _ hspecifier => absurd hspecifier List.not_mem_nil
      exact Or.inl ((hexact.stylesheets key loaded).mp h).1
  | invalidateModule id =>
      have hexact : Exact session (session.invalidateModule project id).1 _ fun _ => False :=
        Exact.invalidateModule hserved hfiled id
      exact Or.inl ((hexact.stylesheets key loaded).mp h).1
  | invalidateFontFile file =>
      have hexact : Exact session (session.invalidateFontFile file).1 _ fun _ => False :=
        Exact.invalidateFontFile hserved hfiled file
      exact Or.inl ((hexact.stylesheets key loaded).mp h).1
  | reset => cases h

theorem Legible.hasUrls (hregular : project.Regular) (hlibrary : project.HasLibrary catalog)
    (hminify : project.setup.minify = false) (hbase : project.setup.base.IsPlain)
    (h : Legible catalog project session) {key : String} {loaded : Loaded}
    (hget : session.collection.stylesheets.get? key = some loaded) : loaded.HasUrls := by
  induction h generalizing key loaded with
  | new => cases hget
  | step operation hbefore _ hoperation ih =>
      rcases made_of_perform hregular hbefore.reachable hget with
        hold | ⟨world, request, collection, rfl, hmade⟩
      · exact ih hold
      · exact hasUrls_of_made hlibrary hminify hbase hoperation hmade

/-- A file that a chunk lists is one of a stylesheet whose code is in the chunk. -/
theorem exists_loaded_of_mem_assets {ids : List String} {chunk : Chunk}
    (h : session.chunk? ids = some chunk) {asset : String} (hasset : asset ∈ chunk.assets) :
    ∃ key loaded, session.collection.stylesheets.get? key = some loaded ∧
      asset ∈ loaded.assets ∧ loaded.target.code.toList <:+: chunk.css.toList := by
  unfold chunk? at h
  split at h
  · cases h
  · obtain rfl := Option.some_inj.mp h
    have hflat := (Manifest.mem_addNew.mp hasset).resolve_left List.not_mem_nil
    obtain ⟨loaded, hloaded, hown⟩ := List.mem_flatMap.mp hflat
    obtain ⟨id, -, hid⟩ := List.mem_filterMap.mp hloaded
    obtain ⟨key, -, hget⟩ := Option.bind_eq_some_iff.mp hid
    refine ⟨key, loaded, hget, hown, ?_⟩
    dsimp only
    rw [String.toList_intercalate]
    refine Text.infix_intercalate (List.mem_map_of_mem ?_)
    exact List.mem_map_of_mem hloaded

/-- **Stylesheets refer to their files.**  As long as every request is legible, the code of every
stylesheet has all of its URLs, the text of a chunk has the URLs of all the files that it
lists, and a file that a page is told to load early is one that a stylesheet of the module
refers to, if nothing stale is listed. -/
theorem stylesheets_refer_to_their_files (hregular : project.Regular)
    (hlibrary : project.HasLibrary catalog) (hminify : project.setup.minify = false)
    (hbase : project.setup.base.IsPlain) (hlegible : Legible catalog project session) :
    (∀ key loaded, session.collection.stylesheets.get? key = some loaded →
      ∀ url ∈ loaded.urls, url.toList <:+: loaded.target.code.toList) ∧
    (∀ ids chunk, session.chunk? ids = some chunk → ∀ asset ∈ chunk.assets,
      (project.setup.base.url asset).toList <:+: chunk.css.toList) ∧
    (session.Current → ∀ module asset, session.manifest.Lists module asset → ∃ key loaded,
      session.collection.stylesheets.get? key = some loaded ∧ loaded.module = module ∧
        (project.setup.base.url asset).toList <:+: loaded.target.code.toList) := by
  have hserved := hlegible.reachable.served hregular
  have hurls : ∀ key loaded, session.collection.stylesheets.get? key = some loaded →
      loaded.HasUrls := fun key loaded hget => hlegible.hasUrls hregular hlibrary hminify hbase hget
  have hasset : ∀ key loaded asset, session.collection.stylesheets.get? key = some loaded →
      asset ∈ loaded.assets →
        (project.setup.base.url asset).toList <:+: loaded.target.code.toList := by
    intro key loaded asset hget hasset
    refine hurls key loaded hget _ ?_
    rw [hserved.urls key loaded hget]
    exact List.mem_map_of_mem hasset
  refine ⟨hurls, fun ids chunk hchunk asset hmem => ?_, fun hcurrent module asset hlisted => ?_⟩
  · obtain ⟨key, loaded, hget, hown, hcode⟩ := exists_loaded_of_mem_assets hchunk hmem
    exact (hasset key loaded asset hget hown).trans hcode
  · obtain ⟨key, loaded, hget, hmodule, hown⟩ := hcurrent.listed module asset hlisted
    exact ⟨key, loaded, hget, hmodule, hasset key loaded asset hget hown⟩

/-- The chunk of one stylesheet is that stylesheet. -/
theorem chunk?_singleton {id : String} {loaded : Loaded}
    (h : session.collection.get? id = some loaded) :
    session.chunk? [id] = some ⟨loaded.target.code, Manifest.addNew [] loaded.assets⟩ := by
  have hone : [id].filterMap session.collection.get? = [loaded] := by
    rw [List.filterMap_cons_some h, List.filterMap_nil]
  unfold chunk?
  rw [hone]
  simp

/-! ## A family of two files

The second file is downloaded in one build and not in the other. -/

/-- A catalog with one family. -/
def smallCatalog : Google.Catalog := Table.ofList [("A", ⟨["variable"], ["normal"], ["latin"], []⟩)]

/-- A project with the loaders of the library. -/
def libraryProject : Project := {
  setup := { smallProject.setup with loaders := fun
    | .google => some ⟨Google.loader smallCatalog, true⟩
    | .local => some ⟨LocalFont.loader, true⟩ }
  calls := ⟨LoaderKind.all.map LoaderKind.module, Table.empty⟩ }

/-- The text of a module that asks for the family. -/
def familyText : String :=
  "import \x7bA\x7d from \"next-font/google\";const a = A(\x7bsubsets: [\"latin\"]\x7d);"

/-- A module asks for the family. -/
def familyTransform : Operation :=
  .transform "a.js" "import \x7bA\x7d from \"next-font/google\";const a = A(\x7bsubsets: [\"latin\"]\x7d);"

/-- The key of the stylesheet of the family. -/
def familyKey : String :=
  "next-font/google/target.css?path=a.js&import=A&arguments=%5B%7B%22subsets%22%3A%5B%22latin%22%5D%7D%5D&variableName=a"

/-- The request for the stylesheet. -/
def familyRequest : Request := ⟨familyKey, "client", false⟩

/-- The stylesheet that is downloaded. -/
def familyRules : String :=
  "/* latin */\n@font-face \x7b\nfont-family: A;\nsrc: url(https://a.woff2);\nsrc: url(https://b.woff2)\n\x7d"

/-- The files in it. -/
def familyFiles : List Google.FontFile := [⟨"https://a.woff2", true⟩, ⟨"https://b.woff2", true⟩]

/-- A world that has the stylesheet, and the files that it is asked for. -/
def familyWorld (hasFile : String → Bool) : Loader.World :=
  { Loader.World.unconnected with
    stylesheet := fun _ _ _ _ => some familyRules
    font := fun _ url _ => if hasFile url then some [1] else none }

/-- Every file can be downloaded. -/
def wholeLoad : Operation := .load (familyWorld fun _ => true) familyRequest

/-- Only the first file can be downloaded. -/
def partialLoad : Operation := .load (familyWorld fun url => url == "https://a.woff2") familyRequest

/-- The name of the first file, and of every other one with its content. -/
def familyAsset : String := "static/media/4bf5122f344554c5.p.woff2"

/-- Its public URL. -/
def familyUrl : String := libraryProject.setup.base.url familyAsset

theorem hasLibrary_libraryProject : libraryProject.HasLibrary smallCatalog := by
  refine ⟨fun registered hregistered => ?_, fun registered hregistered => ?_⟩
  · obtain rfl := Option.some_inj.mp hregistered
    rfl
  · obtain rfl := Option.some_inj.mp hregistered
    rfl

theorem regular_libraryProject : libraryProject.Regular :=
  ⟨hasLibrary_libraryProject.confined, by decide⟩

theorem separate_familyFiles (base : Asset.UrlBase) (hbase : ':' ∉ base.path.toList) :
    Google.Separate base familyFiles :=
  Google.separate_of_absolute hbase (by decide) (by decide) (by decide)

/-- The fields of the name of a call for the family. -/
def familyQuery (path : String) : Query := ⟨path, "A", "[\x7b\"subsets\":[\"latin\"]\x7d]", "a"⟩

/-- The arguments of the call. -/
def familyArguments : List Json.Value := [.object [("subsets", .list [.text "latin"])]]

theorem fitsWithin_familyArguments :
    (Json.Value.list familyArguments).FitsWithin Json.maximalDepth := by
  simp [familyArguments, Json.Value.FitsWithin, Json.maximalDepth]

/-- What the loader of the family does in a project, when nothing was done yet. -/
def familyRun (project : Project) (world : Loader.World) (path : String) :
    Except Loader.Error Loader.Output × Loader.State :=
  (Google.loader smallCatalog
      (callOf project.setup world (familyQuery path) familyArguments false)).run
    (Collection.empty.startState .google ⟨Google.loader smallCatalog, true⟩)

/-- The rules with the files that were downloaded. -/
def hostedRules : String :=
  "/* latin */\n@font-face \x7b\nfont-family: A;\nsrc: url(/_next/static/media/4bf5122f344554c5.p.woff2);\nsrc: url(/_next/static/media/4bf5122f344554c5.p.woff2)\n\x7d"

/-- Rules of the family as its loader hands them out. -/
def familyOutput (rules : String) : Loader.Output := ⟨rules, [], none, some "normal", none, none⟩

/-- What is left to evaluate of the two builds: how the name of the stylesheet is written, how the
text of the module is read, what the loader does if every file can be downloaded and if only the
first one can, and what its rules come to. -/
theorem family_runs :
    Stylesheet.IsNameOf familyKey .google (familyQuery "a.js") familyArguments ∧
    CallsOnce libraryProject "a.js" familyText "a.js" familyKey ∧
    (let run := familyRun libraryProject (familyWorld fun _ => true) "a.js"
     run.1.toOption = some (familyOutput hostedRules) ∧ run.2.emitted = [familyAsset] ∧
      run.2.caches.fonts.keys = ["https://a.woff2", "https://b.woff2"]) ∧
    (let run := familyRun libraryProject (familyWorld fun url => url == "https://a.woff2") "a.js"
     run.1.toOption = some (familyOutput (Loader.fallbackFace "A" none)) ∧
      run.2.emitted = [familyAsset]) ∧
    (Css.renameFamilies (Stylesheet.scopedFamily (Stylesheet.scopeOf hostedRules))
      hostedRules.toList).isSome = true ∧
    ((Stylesheet.Module.generate false "a.js"
      (familyOutput (Loader.fallbackFace "A" none))).toOption.map fun target =>
        Text.occursIn familyUrl.toList target.code.toList) = some false ∧
    ((Manifest.empty.record "a.js" [familyAsset]).hints libraryProject.setup.base
      (libraryProject.moduleId "a.js")).preload = [⟨familyUrl, "font/woff2"⟩] := by
  refine ⟨⟨?_, ?_, fitsWithin_familyArguments⟩, ⟨?_, ?_, ?_⟩, ?_, ?_, ?_, ?_, ?_⟩ <;>
    decide +kernel

theorem isNameOf_familyKey :
    Stylesheet.IsNameOf familyKey .google (familyQuery "a.js") familyArguments :=
  family_runs.1

theorem callsOnce_libraryProject : CallsOnce libraryProject "a.js" familyText "a.js" familyKey :=
  family_runs.2.1

theorem isPlain_familyRequest : ¬ Stylesheet.HasRepeatedMark familyRequest.id :=
  isNameOf_familyKey.isPlain

theorem caches_absorb (collection : Collection) (kind : LoaderKind) (state : Loader.State) :
    (collection.absorb kind state).caches kind = state.caches :=
  if_pos rfl

/-- The request for the family makes what its loader hands out. -/
theorem start_of_familyRun {project : Project} {world : Loader.World} {name path : String}
    (hname : Stylesheet.IsNameOf name .google (familyQuery path) familyArguments)
    (hgoogle : project.setup.loaders .google = some ⟨Google.loader smallCatalog, true⟩)
    {output : Loader.Output} {target : Stylesheet.Module}
    (hran : (familyRun project world path).1 = .ok output)
    (htarget : Stylesheet.Module.generate project.setup.minify path output = .ok target) :
    Collection.empty.start project.setup world ⟨name, "client", false⟩ =
      ((Collection.empty.announce .google ⟨Google.loader smallCatalog, true⟩).absorb .google
        (familyRun project world path).2,
        .made name (Collection.loadedOf project.setup (familyQuery path)
          (familyRun project world path).2 target)) := by
  have hrun : familyRun project world path = (.ok output, (familyRun project world path).2) :=
    Prod.ext hran rfl
  exact @Collection.start_of_output _ _ _ project.setup Collection.empty ⟨name, "client", false⟩
    hname ⟨Google.loader smallCatalog, true⟩ hgoogle List.not_mem_nil world output _ target hrun
    htarget

/-- The module of the family waits for its stylesheet. -/
theorem built_familyTransform {project : Project}
    (hcalls : CallsOnce project "a.js" familyText "a.js" familyKey) :
    built project [familyTransform] = empty.awaiting "a.js" familyKey :=
  built_of_callsOnce hcalls isNameOf_familyKey.isKey

/-- **The build of the family** keeps what its loader hands out and emits. -/
theorem exists_loaded_of_familyRun {project : Project} (hconfined : project.setup.Confined)
    (hcalls : CallsOnce project "a.js" familyText "a.js" familyKey)
    (hgoogle : project.setup.loaders .google = some ⟨Google.loader smallCatalog, true⟩)
    {world : Loader.World} {output : Loader.Output} {target : Stylesheet.Module}
    (hran : (familyRun project world "a.js").1 = .ok output)
    (htarget : Stylesheet.Module.generate project.setup.minify "a.js" output = .ok target) :
    let session := built project [familyTransform, .load world familyRequest]
    let state := (familyRun project world "a.js").2
    ∃ loaded, loaded.target = target ∧ loaded.assets = state.emitted ∧
      loaded.urls = state.emitted.map project.setup.base.url ∧
      session.collection.stylesheets.get? familyKey = some loaded ∧
      session.collection.caches .google = state.caches ∧
      session.collection.store = state.store ∧
      session.manifest = Manifest.empty.record "a.js" state.emitted := by
  intro session state
  have hsession : session =
      ((built project [familyTransform]).load project world familyRequest).session :=
    built_load project [familyTransform] world familyRequest
  rw [built_familyTransform hcalls] at hsession
  rw [hsession]
  have hmade := start_of_familyRun isNameOf_familyKey hgoogle hran htarget
  obtain ⟨-, hholds, hcollection, hmanifest, -⟩ :=
    @load_of_made project (empty.awaiting "a.js" familyKey) hconfined world familyRequest _ _ _
      hmade (isImported_awaiting _ _ _)
  refine ⟨Collection.loadedOf project.setup (familyQuery "a.js") state target, rfl, rfl, rfl,
    hholds.get?, ?_, ?_, hmanifest⟩
  · rw [hcollection]
    exact caches_absorb (Collection.empty.announce .google ⟨Google.loader smallCatalog, true⟩)
      .google state
  · rw [hcollection]
    rfl

/-- Rules with a family make a stylesheet. -/
theorem exists_target_of_isSome {rules : String}
    (h : (Css.renameFamilies (Stylesheet.scopedFamily (Stylesheet.scopeOf rules))
      rules.toList).isSome = true) (path : String) :
    ∃ target, Stylesheet.Module.generate false path (familyOutput rules) = .ok target := by
  obtain ⟨⟨renamed, family⟩, hrename⟩ := Option.isSome_iff_exists.mp h
  exact @Stylesheet.exists_generate (familyOutput rules) renamed family hrename path

theorem exists_target_hostedRules (path : String) :
    ∃ target, Stylesheet.Module.generate false path (familyOutput hostedRules) = .ok target :=
  exists_target_of_isSome family_runs.2.2.2.2.1 path

/-- The stand-in does not refer to the file that was downloaded. -/
theorem exists_target_standIn : ∃ target,
    Stylesheet.Module.generate false "a.js" (familyOutput (Loader.fallbackFace "A" none)) =
        .ok target ∧
      Text.occursIn familyUrl.toList target.code.toList = false := by
  obtain ⟨-, -, -, -, -, hstandIn, -⟩ := family_runs
  obtain ⟨target, htarget, hoccurs⟩ := Option.map_eq_some_iff.mp hstandIn
  exact ⟨target, ok_of_toOption htarget, hoccurs⟩

/-- Whether the call of the family is legible in a session: it downloads its files, and no
family has a bracket. -/
def readsFamily (session : Session) : Bool :=
  match readCall familyRequest.id with
  | .error _ => false
  | .ok (query, arguments) =>
      let call := callOf libraryProject.setup (familyWorld fun _ => true) query arguments false
      let start := session.collection.startState .google ⟨Google.loader smallCatalog, true⟩
      Google.downloads? smallCatalog call start == some familyFiles &&
        match (Google.loader smallCatalog call).run start with
        | (.error _, _) => true
        | (.ok output, _) =>
            ((Css.segments output.css.toList).filterMap Css.Segment.family?).all fun value =>
              !value.contains '('

theorem isLegible_wholeLoad {session : Session} (h : readsFamily session = true) :
    wholeLoad.IsLegible smallCatalog libraryProject session := by
  intro kind registered query arguments hkind hregistered hcall
  have hgoogle : LoaderKind.ofTargetPath? (Stylesheet.pathPart familyRequest.id.toList) =
      some .google :=
    isNameOf_familyKey.kind_eq
  obtain rfl : kind = .google := Option.some_inj.mp (hkind.symm.trans hgoogle)
  obtain rfl := Option.some_inj.mp hregistered
  unfold readsFamily at h
  rw [hcall] at h
  obtain ⟨hdownloads, hplain⟩ := Bool.and_eq_true_iff.mp h
  have hseparate : Google.Separate libraryProject.setup.base familyFiles :=
    separate_familyFiles _ (by decide)
  refine ⟨fun _ => Google.isUndisturbed_of_downloads? (beq_iff_eq.mp hdownloads) hseparate, ?_⟩
  intro output after hran name _ value hvalue hwithin
  have hrun : (Google.loader smallCatalog (callOf libraryProject.setup (familyWorld fun _ => true)
      query arguments false)).run (session.collection.startState .google
        ⟨Google.loader smallCatalog, true⟩) = (.ok output, after) := hran
  -- An address has a bracket, and a family has none.
  rw [hrun] at hplain
  have hnone := List.all_eq_true.mp hplain value
    (List.mem_filterMap.mpr ⟨_, hvalue, rfl⟩)
  rw [Bool.not_eq_true', ← Bool.not_eq_true, List.contains_iff_mem] at hnone
  exact hnone (hwithin.subset List.mem_cons_self)

/-- The session in which the module was transformed. -/
def familySession : Session := built libraryProject [familyTransform]

/-- The session after both files were downloaded. -/
def wholeSession : Session := built libraryProject [familyTransform, wholeLoad]

/-- The session after the second file was not. -/
def partialSession : Session := built libraryProject [familyTransform, partialLoad]

theorem readsFamily_awaiting : readsFamily (empty.awaiting "a.js" familyKey) = true := by
  have hcall : readCall familyRequest.id = .ok (familyQuery "a.js", familyArguments) :=
    isNameOf_familyKey.readCall_eq
  unfold readsFamily
  rw [hcall, collection_awaiting]
  decide +kernel

/-- What the two builds come to, and what the first one has before and after its request. -/
theorem familyBuilds_run :
    (readsFamily familySession = true ∧
      (wholeSession.collection.stylesheets.get? familyKey).map Loaded.urls = some [familyUrl] ∧
      (partialSession.collection.stylesheets.get? familyKey).map (fun loaded => (loaded.assets,
        loaded.urls, Text.occursIn familyUrl.toList loaded.target.code.toList)) =
          some ([familyAsset], [familyUrl], false) ∧
      partialSession.manifest.get? "a.js" = some [familyAsset]) ∧
    familySession.collection.stylesheets.entries = [] ∧
    (wholeSession.collection.caches .google).fonts.keys =
      ["https://a.woff2", "https://b.woff2"] ∧
    (wholeSession.hints libraryProject "a.js").preload = [⟨familyUrl, "font/woff2"⟩] := by
  have hgoogle : libraryProject.setup.loaders .google =
      some ⟨Google.loader smallCatalog, true⟩ := rfl
  have hconfined := regular_libraryProject.confined
  obtain ⟨-, -, ⟨hwhole, hemitted, hfonts⟩, ⟨hpartial, hleft⟩, -, -, hhints⟩ := family_runs
  obtain ⟨target, htarget⟩ := exists_target_hostedRules "a.js"
  obtain ⟨standIn, hstandIn, hoccurs⟩ := exists_target_standIn
  obtain ⟨loaded, -, hassets, hurls, hget, hcaches, -, hmanifest⟩ :=
    @exists_loaded_of_familyRun libraryProject hconfined callsOnce_libraryProject hgoogle
      _ _ _ (ok_of_toOption hwhole) htarget
  obtain ⟨other, hother, hotherAssets, hotherUrls, hotherGet, -, -, hotherManifest⟩ :=
    @exists_loaded_of_familyRun libraryProject hconfined callsOnce_libraryProject hgoogle
      _ _ _ (ok_of_toOption hpartial) hstandIn
  have hfamily : familySession = empty.awaiting "a.js" familyKey :=
    built_familyTransform callsOnce_libraryProject
  rw [hemitted] at hassets hurls hmanifest
  rw [hleft] at hotherAssets hotherUrls hotherManifest
  refine ⟨⟨?_, ?_, ?_, ?_⟩, ?_, ?_, ?_⟩
  · rw [hfamily]
    exact readsFamily_awaiting
  · rw [wholeSession, wholeLoad, hget, Option.map_some, hurls]
    rfl
  · rw [partialSession, partialLoad, hotherGet, Option.map_some, hother, hotherAssets, hotherUrls,
      hoccurs]
    rfl
  · rw [partialSession, partialLoad, hotherManifest]
    rfl
  · rw [hfamily]
    rfl
  · rw [wholeSession, wholeLoad, hcaches, hfonts]
  · rw [wholeSession, wholeLoad, hints, hmanifest, hhints]

/-- What the two builds come to. -/
theorem familyRequest_runs :
    readsFamily familySession = true ∧
    (wholeSession.collection.stylesheets.get? familyKey).map Loaded.urls = some [familyUrl] ∧
    (partialSession.collection.stylesheets.get? familyKey).map (fun loaded => (loaded.assets,
      loaded.urls, Text.occursIn familyUrl.toList loaded.target.code.toList)) =
        some ([familyAsset], [familyUrl], false) ∧
    partialSession.manifest.get? "a.js" = some [familyAsset] :=
  familyBuilds_run.1

theorem legible_wholeSession : Legible smallCatalog libraryProject wholeSession := by
  have hempty : Legible smallCatalog libraryProject (built libraryProject []) := .new
  have htransformed :
      Legible smallCatalog libraryProject (built libraryProject ([] ++ [familyTransform])) :=
    hempty.append familyTransform trivial trivial
  exact htransformed.append wholeLoad isPlain_familyRequest
    (isLegible_wholeLoad familyRequest_runs.1)

/-- A family of which every file was downloaded is referred to. -/
theorem whole_family_is_referred_to :
    ∃ loaded, wholeSession.collection.stylesheets.get? familyKey = some loaded ∧
      familyUrl ∈ loaded.urls ∧ familyUrl.toList <:+: loaded.target.code.toList := by
  obtain ⟨-, hwhole, -⟩ := familyRequest_runs
  obtain ⟨loaded, hget, hurls⟩ := Option.map_eq_some_iff.mp hwhole
  have hurl : familyUrl ∈ loaded.urls := by
    rw [hurls]
    exact List.mem_singleton_self _
  have hbase : libraryProject.setup.base.IsPlain := by
    refine List.forall_iff_forall_mem.mp ?_
    decide
  exact ⟨loaded, hget, hurl, (stylesheets_refer_to_their_files regular_libraryProject
    hasLibrary_libraryProject rfl hbase legible_wholeSession).1 familyKey loaded hget familyUrl
      hurl⟩

/-- **A stylesheet may have a file that it does not refer to.**  In a session that a build leads
to, the second file of a family was not downloaded.  The stylesheet has the stand-in, but the
first file is still its own, a chunk lists it and the page is told to load it early. -/
theorem stylesheet_does_not_refer_to_its_file :
    Reachable libraryProject partialSession ∧ libraryProject.setup.minify = false ∧
    (∃ loaded, partialSession.collection.stylesheets.get? familyKey = some loaded ∧
      familyUrl ∈ loaded.urls ∧ ¬ familyUrl.toList <:+: loaded.target.code.toList) ∧
    (∃ chunk, partialSession.chunk? [familyKey] = some chunk ∧ familyAsset ∈ chunk.assets ∧
      ¬ familyUrl.toList <:+: chunk.css.toList) ∧
    partialSession.manifest.Lists "a.js" familyAsset := by
  obtain ⟨-, -, hpartial, hlisted⟩ := familyRequest_runs
  obtain ⟨loaded, hget, hloaded⟩ := Option.map_eq_some_iff.mp hpartial
  obtain ⟨hassets, hloaded⟩ := Prod.mk.inj hloaded
  obtain ⟨hurls, hoccurs⟩ := Prod.mk.inj hloaded
  have hreachable : Reachable libraryProject partialSession := by
    refine reachable_built libraryProject fun operation hoperation => ?_
    rcases List.mem_pair.mp hoperation with rfl | rfl
    · exact trivial
    · exact isPlain_familyRequest
  have hmissing : ¬ familyUrl.toList <:+: loaded.target.code.toList := by
    intro hwithin
    rw [Text.occursIn_iff.mpr hwithin] at hoccurs
    cases hoccurs
  have hkey : key? familyKey = some familyKey :=
    ((hreachable.filed regular_libraryProject).belongsTo hget).isKey
  have hfound : partialSession.collection.get? familyKey = some loaded := by
    rw [Collection.get?_of_isKey hkey, hget]
  refine ⟨hreachable, rfl, ⟨loaded, hget, ?_, hmissing⟩,
    ⟨⟨loaded.target.code, [familyAsset]⟩, ?_, List.mem_singleton_self _, hmissing⟩,
    [familyAsset], hlisted, List.mem_singleton_self _⟩
  · rw [hurls]
    exact List.mem_singleton_self _
  · rw [chunk?_singleton hfound, hassets]
    rfl

end Session

end FontHosting
