import FontHosting.Config.Basic
import FontHosting.Proofs.Session.Naming
import FontHosting.Proofs.Url
import FontHosting.Server

/-!
# Hints and the server

The page of a module is told to load files early.  Its links are encoded segment by segment,
and the server looks for a file under the path of the request as it is.  So a link is served
exactly if encoding changes nothing in the path of the base (`isServed_iff`): the names of font
files never need encoding (`IsFontName.encodeSegments_urlTail`), but nothing keeps a base from
having a space (`link_below_spaced_base_is_not_served`).

With the origin of the base it is the other way round.  The browser takes it off and the server
puts it in front again, which is right because no public URL lacks the origin
(`findFont_of_some`).

What is left is that the file is stored.  It is as long as it belongs to a stylesheet, hence as
long as no replaced stylesheet loses an asset (`links_are_served_iff_base_is_plain`).
-/

namespace FontHosting

open Asset (IsFontName UrlBase)
open Loader (NamesByContent)

/-! ## Public URLs of font files -/

namespace Asset

theorem IsFontName.isPlainChar {name : String} (h : IsFontName name) {c : Char}
    (hc : c ∈ name.toList) : Url.IsPlainChar c := by
  have hplain : nameAlphabet.Forall fun c => c = '/' ∨ Text.Percent.isUnreserved c = true := by
    decide
  exact List.forall_iff_forall_mem.mp hplain c (h.mem_nameAlphabet hc)

/-- What stands between the base and the name of an asset in its public URL. -/
def urlMark : List Char := ['/', '_', 'n', 'e', 'x', 't', '/']

/-- What stands behind the base in the public URL of an asset. -/
def urlTail (name : String) : List Char := urlMark ++ name.toList

theorem UrlBase.toList_url (base : UrlBase) (name : String) :
    (base.url name).toList = base.path.toList ++ urlTail name := by
  unfold UrlBase.url urlTail
  rw [String.toList_append, String.toList_append, List.append_assoc]
  rfl

theorem IsFontName.isTail {name : String} (h : IsFontName name) : Url.IsTail (urlTail name) := by
  have hname : ':' ∉ name.toList := h.notMem (by simp [foreignMarks])
  exact ⟨'_', _, rfl, by decide, by simp [urlTail, urlMark, hname]⟩

theorem IsFontName.encodeSegments_urlTail {name : String} (h : IsFontName name) :
    Url.encodeSegments (urlTail name) = urlTail name := by
  refine Url.encodeSegments_eq_self_iff.mpr fun c hc => ?_
  rcases List.mem_append.mp hc with hmark | hname
  · have hmarks : urlMark.Forall fun c => c = '/' ∨ Text.Percent.isUnreserved c = true := by
      decide
    exact List.forall_iff_forall_mem.mp hmarks c hmark
  · exact h.isPlainChar hname

/-- A base without separators at its end. -/
def UrlBase.IsTrimmed (base : UrlBase) : Prop :=
  base.path.toList.getLast? ≠ some '/'

theorem isTrimmed_ofPath (path : String) : (UrlBase.ofPath path).IsTrimmed := by
  unfold UrlBase.IsTrimmed UrlBase.ofPath
  rw [String.toList_ofList]
  intro hlast
  have hne : List.rdropWhile (· == '/') path.toList ≠ [] := by
    rintro hnil
    have hnone : Text.dropEndWhile (· == '/') path.toList = [] := hnil
    rw [hnone] at hlast
    cases hlast
  have hkept := List.rdropWhile_last_not _ _ hne
  have hslash : (List.rdropWhile (· == '/') path.toList).getLast hne = '/' :=
    Option.some_inj.mp ((List.getLast?_eq_getLast_of_ne_nil hne).symm.trans hlast)
  rw [hslash] at hkept
  exact hkept rfl

/-- The path of a base: what stands behind its origin, if it has one. -/
def UrlBase.pathChars (base : UrlBase) : List Char :=
  match Url.splitOrigin? base.path.toList with
  | some (_, path) => path
  | none => base.path.toList

/-- A base whose path is made of unreserved characters and `/`. -/
def UrlBase.IsPlainPath (base : UrlBase) : Prop :=
  ∀ c ∈ base.pathChars, Url.IsPlainChar c

end Asset

namespace Server

variable {project : Project} {session : Session} {base : UrlBase} {name : String}

/-- The path that a browser asks for when it follows a link: the link without the origin of the
base. -/
def requestedPath (base : UrlBase) (href : String) : String :=
  match Url.origin? base.path with
  | none => href
  | some origin => String.ofList ((Text.after? origin.toList href.toList).getD href.toList)

/-- Who follows a link gets the file of a public URL. -/
def IsServed (project : Project) (session : Session) (link : Manifest.Preload) (url : String) :
    Prop :=
  ∃ font, findFont project session (requestedPath project.setup.base link.href) = some font ∧
    project.setup.base.url font.fileName = url

/-! ## What a browser asks for -/

theorem origin?_of_none (hsplit : Url.splitOrigin? base.path.toList = none) :
    Url.origin? base.path = none := by
  rw [Url.origin?, hsplit, Option.map_none]

theorem origin?_of_some {origin path : List Char}
    (hsplit : Url.splitOrigin? base.path.toList = some (origin, path)) :
    Url.origin? base.path = some (String.ofList origin) := by
  rw [Url.origin?, hsplit, Option.map_some]

/-- **What is asked for is the encoded path of the base, with the name of the file.** -/
theorem toList_requestedPath (hname : IsFontName name) (htrimmed : base.IsTrimmed) :
    (requestedPath base (Url.encodePath (base.url name))).toList =
      Url.encodeSegments base.pathChars ++ Asset.urlTail name := by
  have hencoded : Url.encodeSegments (base.pathChars ++ Asset.urlTail name) =
      Url.encodeSegments base.pathChars ++ Asset.urlTail name := by
    rw [Url.encodeSegments_append, hname.encodeSegments_urlTail]
  -- The URL has the origin of the base, so the same text is taken off that was left alone.
  have hurl := Url.splitOrigin?_append htrimmed hname.isTail
  rw [← base.toList_url] at hurl
  cases hsplit : Url.splitOrigin? base.path.toList with
  | none =>
      rw [hsplit, Option.map_none] at hurl
      rw [requestedPath, origin?_of_none hsplit, Url.encodePath, hurl]
      dsimp only
      rw [String.toList_ofList, base.toList_url, ← hencoded, UrlBase.pathChars, hsplit]
  | some parts =>
      obtain ⟨origin, path⟩ := parts
      have hafter : ∀ rest, Text.after? origin (origin ++ rest) = some rest := by
        intro rest
        rw [Text.after?, if_pos (List.isPrefixOf_iff_prefix.mpr (List.prefix_append origin rest)),
          List.drop_left]
      rw [hsplit, Option.map_some] at hurl
      rw [requestedPath, origin?_of_some hsplit, Url.encodePath, hurl]
      dsimp only
      rw [String.toList_ofList, String.toList_ofList, String.toList_ofList, hafter,
        Option.getD_some, ← hencoded, UrlBase.pathChars, hsplit]

theorem notMem_requestedPath (hname : IsFontName name) (htrimmed : base.IsTrimmed) :
    ':' ∉ (requestedPath base (Url.encodePath (base.url name))).toList := by
  rw [toList_requestedPath hname htrimmed, List.mem_append, not_or]
  obtain ⟨_, _, -, -, htail⟩ := hname.isTail
  exact ⟨Url.notMem_encodeSegments (by decide) (by decide) (by decide) _, htail⟩

/-! ## What the server finds -/

/-- A file of a public URL is stored under that URL only. -/
theorem exists_stored_iff (hnames : NamesByContent base session.collection.store)
    {looked url : String} :
    (∃ font, session.collection.store.get? looked = some font ∧ base.url font.fileName = url) ↔
      looked = url ∧ session.collection.store.contains url = true := by
  constructor
  · rintro ⟨font, hfont, rfl⟩
    obtain ⟨rfl, -⟩ := hnames _ _ hfont
    exact ⟨rfl, Table.contains_iff.mpr ⟨font, hfont⟩⟩
  · rintro ⟨rfl, hstored⟩
    obtain ⟨font, hfont⟩ := Table.contains_iff.mp hstored
    exact ⟨font, hfont, (hnames _ _ hfont).1.symm⟩

/-- Without an origin the server looks for the path itself. -/
theorem findFont_of_none (hsplit : Url.splitOrigin? project.setup.base.path.toList = none)
    (path : String) :
    findFont project session path = session.collection.store.get? path := by
  unfold findFont
  cases session.collection.store.get? path with
  | none => rw [origin?_of_none hsplit]; rfl
  | some font => rfl

/-- With an origin it looks for the path behind that, for no public URL lacks the origin. -/
theorem findFont_of_some (hnames : NamesByContent project.setup.base session.collection.store)
    {origin rest : List Char}
    (hsplit : Url.splitOrigin? project.setup.base.path.toList = some (origin, rest))
    {path : String} (hpath : ':' ∉ path.toList) :
    findFont project session path =
      session.collection.store.get? (String.ofList origin ++ path) := by
  have hnone : session.collection.store.get? path = none := by
    -- What is stored has the colon of the origin.
    refine Option.eq_none_iff_forall_ne_some.mpr fun font hfont => hpath ?_
    obtain ⟨hbase, hcolon⟩ := Url.eq_of_splitOrigin? hsplit
    rw [(hnames _ _ hfont).1, UrlBase.toList_url, hbase, List.mem_append, List.mem_append]
    exact Or.inl (Or.inl hcolon)
  unfold findFont
  rw [hnone, origin?_of_some hsplit]
  rfl

/-- **A link is served exactly if its file is stored and encoding the base changes nothing.** -/
theorem isServed_iff (hnames : NamesByContent project.setup.base session.collection.store)
    (htrimmed : project.setup.base.IsTrimmed) (hname : IsFontName name)
    {link : Manifest.Preload} (hlink : link.href = Url.encodePath (project.setup.base.url name)) :
    IsServed project session link (project.setup.base.url name) ↔
      project.setup.base.IsPlainPath ∧
        session.collection.store.contains (project.setup.base.url name) = true := by
  have hlist := toList_requestedPath hname htrimmed
  have hcolon := notMem_requestedPath hname htrimmed
  unfold IsServed UrlBase.IsPlainPath
  rw [hlink, ← Url.encodeSegments_eq_self_iff]
  generalize requestedPath project.setup.base
    (Url.encodePath (project.setup.base.url name)) = requested at hlist hcolon
  -- Either way the text that is looked up is the URL with its path encoded.
  unfold UrlBase.pathChars at hlist ⊢
  cases hsplit : Url.splitOrigin? project.setup.base.path.toList with
  | none =>
      rw [hsplit] at hlist
      rw [findFont_of_none hsplit, exists_stored_iff hnames, ← String.toList_inj, hlist,
        UrlBase.toList_url]
      exact and_congr_left' (List.append_left_inj _)
  | some parts =>
      obtain ⟨origin, path⟩ := parts
      rw [hsplit] at hlist
      rw [findFont_of_some hnames hsplit hcolon, exists_stored_iff hnames, ← String.toList_inj,
        String.toList_append, String.toList_ofList, hlist, UrlBase.toList_url,
        (Url.eq_of_splitOrigin? hsplit).1, List.append_assoc]
      exact and_congr_left' ((List.append_right_inj _).trans (List.append_left_inj _))

/-! ## Hints -/

variable {config : Config} {loaders : LoaderKind → Option Stylesheet.Registered}
  {catalog : Google.Catalog}

/-- **The links of a page are served exactly if the path of the base needs no encoding.**

A link of the hints stands for the public URL of a file that is listed under the module.  Who
follows it gets that file if it is stored and if the path of the base is made of unreserved
characters and `/`, and nothing otherwise.  The file is stored as long as no replaced
stylesheet loses an asset. -/
theorem links_are_served_iff_base_is_plain (hregular : (config.project loaders).Regular)
    (hlibrary : (config.project loaders).HasLibrary catalog)
    (hreachable : Session.Reachable (config.project loaders) session) {id : String}
    {link : Manifest.Preload} (hlink : link ∈ (session.hints (config.project loaders) id).preload) :
    ∃ url, Manifest.preloadOf? url = some link ∧
      (∃ urls, session.preloadableFonts (config.project loaders) id = some urls ∧ url ∈ urls) ∧
      (IsServed (config.project loaders) session link url ↔
        (config.project loaders).setup.base.IsPlainPath ∧
          session.collection.store.contains url = true) ∧
      (Session.Sparing (config.project loaders) session →
        session.collection.store.contains url = true) := by
  obtain ⟨urls, hurls, url, hurl, hpreload⟩ := Manifest.exists_mem_of_mem_preload hlink
  obtain ⟨asset, hlisted, rfl⟩ := Manifest.exists_lists_of_mem hurls hurl
  have hserved := hreachable.served hregular
  -- The asset may be stale, so its name is known from the manifest and not from a stylesheet.
  have hname : IsFontName asset := (hreachable.isNamed hregular hlibrary).listed _ asset hlisted
  refine ⟨_, hpreload, ⟨urls, hurls, hurl⟩, ?_, fun hsparing => ?_⟩
  · exact isServed_iff hserved.names (Asset.isTrimmed_ofPath config.basePath) hname
      (Manifest.href_of_preloadOf? hpreload)
  · obtain ⟨key, loaded, hget, -, hasset⟩ := hsparing.listed hregular _ asset hlisted
    refine hserved.stored _ (Stylesheet.Collection.references_iff.mpr ⟨key, loaded, hget, ?_⟩)
    rw [hserved.urls key loaded hget]
    exact List.mem_map_of_mem hasset

/-! ### Two bases

A family is asked for below the root of the site, and below a path with a space. -/

/-- The configuration of a site that is being developed below a base. -/
def servingConfig (basePath : String) : Config :=
  { Config.ofRoot "" with basePath, isDev := true, remapped := Table.empty }

/-- Its project, with the loaders of the library. -/
def servingProject (basePath : String) : Project :=
  (servingConfig basePath).project Session.libraryProject.setup.loaders

/-- The session after the family was downloaded. -/
def servingSession (basePath : String) : Session :=
  Session.built (servingProject basePath) [Session.familyTransform, Session.wholeLoad]

theorem servingProject_root : servingProject "" = Session.libraryProject := by
  rfl

theorem servingSession_root : servingSession "" = Session.wholeSession := by
  rfl

/-- Nothing is replaced when the family is downloaded. -/
theorem sparing_servingSession : Session.Sparing (servingProject "") (servingSession "") := by
  obtain ⟨-, hnone, -⟩ := Session.familyBuilds_run
  have hempty : Session.Sparing Session.libraryProject (Session.built Session.libraryProject []) :=
    .new
  have htransformed : Session.Sparing Session.libraryProject
      (Session.built Session.libraryProject ([] ++ [Session.familyTransform])) :=
    hempty.append Session.familyTransform trivial trivial
  rw [servingProject_root, servingSession_root]
  exact htransformed.append Session.wholeLoad Session.isPlain_familyRequest
    (Session.Operation.keepsAssets_of_entries_eq_nil hnone _)

/-- Below the root the link to the family is served. -/
theorem link_below_root_is_served :
    ∃ link url, link ∈ ((servingSession "").hints (servingProject "") "a.js").preload ∧
      Manifest.preloadOf? url = some link ∧
      IsServed (servingProject "") (servingSession "") link url := by
  have hregular : (servingProject "").Regular := Session.regular_libraryProject
  have hlibrary : (servingProject "").HasLibrary Session.smallCatalog :=
    Session.hasLibrary_libraryProject
  obtain ⟨-, -, -, hhints⟩ := Session.familyBuilds_run
  have hlink : ⟨Session.familyUrl, "font/woff2"⟩ ∈
      ((servingSession "").hints (servingProject "") "a.js").preload := by
    rw [servingProject_root, servingSession_root, hhints]
    exact List.mem_singleton_self _
  have hplain : (servingProject "").setup.base.IsPlainPath :=
    fun c hc => absurd hc List.not_mem_nil
  obtain ⟨url, hurl, -, hserved, hstored⟩ := links_are_served_iff_base_is_plain hregular hlibrary
    sparing_servingSession.reachable hlink
  exact ⟨_, url, hlink, hurl, hserved.mpr ⟨hplain, hstored sparing_servingSession⟩⟩

/-- The public URL of the family below a path with a space. -/
def spacedUrl : String := "/my fonts/_next/" ++ Session.familyAsset

/-- The link to it. -/
def spacedLink : Manifest.Preload := ⟨"/my%20fonts/_next/" ++ Session.familyAsset, "font/woff2"⟩

/-- The rules of the family below the path with a space. -/
def spacedRules : String :=
  "/* latin */\n@font-face \x7b\nfont-family: A;\nsrc: url(/my fonts/_next/static/media/4bf5122f344554c5.p.woff2);\nsrc: url(/my fonts/_next/static/media/4bf5122f344554c5.p.woff2)\n\x7d"

/-- What is left to evaluate below the path with a space: how the text of the module is read, what
the loader does and where the server looks, and what its rules and its file come to. -/
theorem spacedProject_runs :
    Session.CallsOnce (servingProject "/my fonts") "a.js" Session.familyText "a.js"
      Session.familyKey ∧
    (let run := Session.familyRun (servingProject "/my fonts") (Session.familyWorld fun _ => true)
      "a.js"
     run.1.toOption = some (Session.familyOutput spacedRules) ∧
      run.2.emitted = [Session.familyAsset] ∧ run.2.store.contains spacedUrl = true ∧
      run.2.store.get?
        (requestedPath (servingProject "/my fonts").setup.base spacedLink.href) = none) ∧
    (Css.renameFamilies (Stylesheet.scopedFamily (Stylesheet.scopeOf spacedRules))
      spacedRules.toList).isSome = true ∧
    spacedLink ∈ ((Manifest.empty.record "a.js" [Session.familyAsset]).hints
      (servingProject "/my fonts").setup.base
      ((servingProject "/my fonts").moduleId "a.js")).preload ∧
    Url.splitOrigin? (servingProject "/my fonts").setup.base.path.toList = none ∧
    Manifest.preloadOf? spacedUrl = some spacedLink := by
  refine ⟨⟨?_, ?_, ?_⟩, ?_, ?_, ?_, ?_, ?_⟩ <;> decide +kernel

/-- What the session below a path with a space comes to. -/
theorem servingSession_runs :
    spacedLink ∈ ((servingSession "/my fonts").hints (servingProject "/my fonts") "a.js").preload ∧
    (servingSession "/my fonts").collection.store.contains spacedUrl = true ∧
    (findFont (servingProject "/my fonts") (servingSession "/my fonts")
      (requestedPath (servingProject "/my fonts").setup.base spacedLink.href)).isNone = true := by
  obtain ⟨hcalls, ⟨hran, hemitted, hcontains, hmissing⟩, hrules, hlink, hsplit, -⟩ :=
    spacedProject_runs
  obtain ⟨target, htarget⟩ := Session.exists_target_of_isSome hrules "a.js"
  have hlibrary : (servingProject "/my fonts").HasLibrary Session.smallCatalog :=
    ⟨Session.hasLibrary_libraryProject.google, Session.hasLibrary_libraryProject.files⟩
  obtain ⟨_, -, -, -, -, -, hstore, hmanifest⟩ :=
    @Session.exists_loaded_of_familyRun (servingProject "/my fonts") hlibrary.confined
      hcalls rfl _ _ _ (ok_of_toOption hran) htarget
  rw [hemitted] at hmanifest
  rw [servingSession, Session.wholeLoad]
  refine ⟨?_, ?_, ?_⟩
  · rw [Session.hints, hmanifest]
    exact hlink
  · rw [hstore]
    exact hcontains
  · rw [findFont_of_none hsplit, hstore, hmissing]
    rfl

/-- **Below a path with a space a link is not served.**  The configuration is accepted, and the
file is stored under the URL that the link stands for, but the server does not find it. -/
theorem link_below_spaced_base_is_not_served :
    (servingConfig "/my fonts").fault? = none ∧
    Session.Reachable (servingProject "/my fonts") (servingSession "/my fonts") ∧
    spacedLink ∈ ((servingSession "/my fonts").hints (servingProject "/my fonts") "a.js").preload ∧
    Manifest.preloadOf? spacedUrl = some spacedLink ∧
    (servingSession "/my fonts").collection.store.contains spacedUrl = true ∧
    (findFont (servingProject "/my fonts") (servingSession "/my fonts")
      (requestedPath (servingProject "/my fonts").setup.base spacedLink.href)).isNone = true := by
  obtain ⟨hlink, hstored, hmissing⟩ := servingSession_runs
  obtain ⟨-, -, -, -, -, hpreload⟩ := spacedProject_runs
  refine ⟨rfl, Session.reachable_built _ fun operation hoperation => ?_, hlink, hpreload, hstored,
    hmissing⟩
  rcases List.mem_pair.mp hoperation with rfl | rfl
  · exact trivial
  · exact Session.isPlain_familyRequest

end Server

end FontHosting
