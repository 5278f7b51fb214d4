import FontHosting.Loader.Unconnected
import FontHosting.Proofs.Loader.Hosting
import FontHosting.Text.Utf8

/-!
# Every source of a stylesheet is rewritten to its own copy

A downloaded stylesheet is given the URLs of the copies one file after the other, and every
time in the whole text, so each step acts on what the earlier ones have left.  What should come
out is simple all the same: the text is cut at the sources of its files (`Layout`), the address
of every source becomes that of the copy of this very file, and between the sources nothing
changes unless a URL is mentioned there.

This is so if the URLs are `Separate`.  Then a URL is neither found in part of another one nor
across the brackets around it, and it does not end with a letter of `src: url`, so the replacing
goes into the pieces of the layout (`replaceUrls_layout`).  That the downloads succeed is used
where the copies are made (`run_hostFiles`).

A URL that is part of a later one spoils it: of `a.woff` and `a.woff2` the second is given the
name of the first copy with a `2` behind it (`longer_url_is_spoilt`).
-/

namespace FontHosting.Google

open Css (bracketed)
open Loader (Call Effects State)

/-! ## Sources in a text -/

/-- What stands in front of the address of a source. -/
def sourceMark : List Char := "src: url".toList

/-- An address as the source of a rule. -/
def source (address : List Char) : List Char := sourceMark ++ bracketed address

/-- A text that is cut at sources. -/
structure Layout (α : Type) where
  /-- The sources, each with the text in front of it. -/
  sources : List (List Char × α)
  rest : List Char

namespace Layout

variable {α : Type}

/-- The texts between the sources. -/
def between (layout : Layout α) : List (List Char) :=
  layout.sources.map Prod.fst ++ [layout.rest]

/-- The text of a layout, with an address for every source. -/
def text (layout : Layout α) (plain : List Char → List Char) (address : α → String) : List Char :=
  layout.sources.flatMap (fun piece => plain piece.1 ++ source (address piece.2).toList) ++
    plain layout.rest

/-- A layout cuts a text at all sources of some files. -/
structure Cuts (layout : Layout α) (files : List α) (address : α → String)
    (text : List Char) : Prop where
  text_eq : layout.text id address = text
  sources : ∀ one ∈ layout.sources.map Prod.snd, one ∈ files
  between : ∀ part ∈ layout.between, ∀ one ∈ files, ¬ source (address one).toList <:+: part

/-- Every text can be cut at all sources: the texts in front of one and behind it are shorter. -/
theorem exists_cuts (files : List α) (address : α → String) (text : List Char) :
    ∃ layout : Layout α, layout.Cuts files address text := by
  induction hlength : text.length using Nat.strong_induction_on generalizing text with
  | _ length ih =>
      by_cases hsource : ∃ one ∈ files, source (address one).toList <:+: text
      · -- The layouts of both sides are put together at this source.
        obtain ⟨one, hone, front, back, rfl⟩ := hsource
        have hlong : 0 < (source (address one).toList).length := by
          simp only [source, bracketed, List.length_append, List.length_cons]
          omega
        simp only [List.length_append] at hlength
        obtain ⟨first, hfirst⟩ := ih front.length (by omega) front rfl
        obtain ⟨second, hsecond⟩ := ih back.length (by omega) back rfl
        refine ⟨⟨first.sources ++ (first.rest, one) :: second.sources, second.rest⟩, ?_, ?_, ?_⟩
        · rw [← hfirst.text_eq, ← hsecond.text_eq]
          simp [Layout.text]
        · intro other hother
          simp only [List.map_append, List.map_cons, List.mem_append, List.mem_cons] at hother
          rcases hother with hother | rfl | hother
          · exact hfirst.sources other hother
          · exact hone
          · exact hsecond.sources other hother
        · intro part hpart
          simp only [Layout.between, List.map_append, List.map_cons, List.mem_append,
            List.mem_cons] at hpart
          rcases hpart with (hpart | rfl | hpart) | hpart
          · exact hfirst.between part (List.mem_append_left _ hpart)
          · exact hfirst.between _ (List.mem_append_right _ (List.mem_singleton_self _))
          · exact hsecond.between part (List.mem_append_left _ hpart)
          · exact hsecond.between part (List.mem_append_right _ (by simpa using hpart))
      · refine ⟨⟨[], text⟩, rfl, fun _ h => absurd h List.not_mem_nil, ?_⟩
        intro part hpart one hone hin
        rw [List.mem_singleton.mp hpart] at hin
        exact hsource ⟨one, hone, hin⟩

theorem text_congr {layout : Layout α} {plain : List Char → List Char} {address : α → String}
    (h : ∀ part ∈ layout.between, plain part = part) :
    layout.text plain address = layout.text id address := by
  unfold text
  rw [h layout.rest (List.mem_append_right _ (List.mem_singleton_self _))]
  congr 1
  refine List.flatMap_congr fun piece hpiece => ?_
  rw [h piece.1 (List.mem_append_left _ (List.mem_map_of_mem hpiece)), id]

end Layout

/-! ## Replacing URLs in a layout -/

/-- The replacing of URLs can be done piece by piece: no URL has a bracket or ends with a letter of
`src: url`, and on its own every URL is replaced by that of its copy. -/
structure IsPiecewise (hosted : List (FontFile × String)) : Prop where
  unbracketed : ∀ one ∈ hosted, '(' ∉ one.1.url.toList ∧ ')' ∉ one.1.url.toList
  ended : ∀ one ∈ hosted, ∃ c, one.1.url.toList.getLast? = some c ∧ c ∉ sourceMark
  self : ∀ one ∈ hosted, replaceUrls one.1.url.toList hosted = one.2.toList

theorem replaceUrls_append_of_notMem {hosted : List (FontFile × String)} {after : List Char}
    (hended : ∀ one ∈ hosted, ∃ c, one.1.url.toList.getLast? = some c ∧ c ∉ after)
    (before : List Char) :
    replaceUrls (before ++ after) hosted = replaceUrls before hosted ++ after := by
  induction hosted generalizing before with
  | nil => rfl
  | cons one rest ih =>
      obtain ⟨c, hlast, hc⟩ := hended one List.mem_cons_self
      rw [replaceUrls_cons, Text.replaceAll_append_of_notMem hlast hc,
        ih fun other hother => hended other (List.mem_cons_of_mem _ hother)]
      rfl

/-- The source of a file becomes that of its copy, and what stands around it is rewritten on its
own. -/
theorem IsPiecewise.replaceUrls_source {hosted : List (FontFile × String)}
    (h : IsPiecewise hosted) {one : FontFile × String} (hone : one ∈ hosted)
    (before after : List Char) :
    replaceUrls (before ++ source one.1.url.toList ++ after) hosted =
      replaceUrls before hosted ++ source one.2.toList ++ replaceUrls after hosted := by
  have hpieces : before ++ source one.1.url.toList ++ after =
      before ++ sourceMark ++ '(' :: (one.1.url.toList ++ ')' :: after) := by
    simp [source, bracketed]
  -- The brackets cut the text, and the mark in front of them ends like no URL.
  rw [hpieces, replaceUrls_append_cons fun one hone => (h.unbracketed one hone).1,
    replaceUrls_append_cons fun one hone => (h.unbracketed one hone).2,
    replaceUrls_append_of_notMem h.ended, h.self one hone]
  simp [source, bracketed]

/-- **In a layout every source is given the address of its copy**, and what stands between the
sources is rewritten on its own. -/
theorem IsPiecewise.replaceUrls_layout {hosted : List (FontFile × String)}
    (h : IsPiecewise hosted) (layout : Layout (FontFile × String))
    (hsources : ∀ one ∈ layout.sources.map Prod.snd, one ∈ hosted) :
    replaceUrls (layout.text id fun one => one.1.url) hosted =
      layout.text (fun part => replaceUrls part hosted) Prod.snd := by
  obtain ⟨sources, rest⟩ := layout
  induction sources with
  | nil => rfl
  | cons piece sources ih =>
      obtain ⟨before, one⟩ := piece
      obtain ⟨hone, hrest⟩ := List.forall_mem_cons.mp hsources
      have hih := ih hrest
      simp only [Layout.text, List.flatMap_cons, List.append_assoc, id_eq] at hih ⊢
      rw [← hih, ← List.append_assoc, h.replaceUrls_source hone]
      simp only [List.append_assoc]

/-- The extension of a font file does not end with a letter of `src: url`. -/
theorem getLast?_of_fontExtension? {url : List Char} {extension : String}
    (h : Asset.fontExtension? url = some extension) :
    ∃ c, url.getLast? = some c ∧ c ∉ sourceMark := by
  have hextensions : Asset.fontExtensions.Forall fun extension =>
      ('.' :: extension.toList).getLast (List.cons_ne_nil _ _) ∉ sourceMark := by
    decide
  unfold Asset.fontExtension? at h
  have hsuffix := List.find?_some h
  obtain ⟨front, rfl⟩ := List.isSuffixOf_iff_suffix.mp hsuffix
  refine ⟨_, ?_, List.forall_iff_forall_mem.mp hextensions _ (List.mem_of_find?_eq_some h)⟩
  rw [List.getLast?_append_of_ne_nil _ (List.cons_ne_nil _ _),
    List.getLast?_eq_getLast_of_ne_nil (List.cons_ne_nil _ _)]

/-! ## Downloads that succeed -/

/-- The content of a file: what an earlier call has left in the cache, or what the net has. -/
def IsContentOf (call : Call) (state : State) (url : String) (content : Asset.Bytes) : Prop :=
  state.caches.fonts.get? url = some (some content) ∨
    ∃ log, call.world.font log url call.isDev = some content

/-- The download of a file succeeds: the net has it whenever it is asked, and no earlier call has
left a failure in the cache. -/
structure Downloads (call : Call) (state : State) (url : String) : Prop where
  answered : ∀ log, (call.world.font log url call.isDev).isSome
  cached : state.caches.fonts.get? url ≠ some none

/-- The URL is that of the copy of a file: the content of this file was emitted under it. -/
def IsCopy (call : Call) (sizeAdjusted : Bool) (before after : State) (file : FontFile)
    (url : String) : Prop :=
  ∃ content extension start stop, IsContentOf call before file.url content ∧
    Asset.fontExtension? file.url.toList = some extension ∧
    Effects call.base before start ∧
    (Loader.emit call content extension file.preload sizeAdjusted).run start = (.ok url, stop) ∧
    Effects call.base stop after

/-- A later state has the same downloads, and no content that an earlier one did not have. -/
structure Continues (call : Call) (before after : State) : Prop where
  effects : Effects call.base before after
  downloads : ∀ url, Downloads call before url → Downloads call after url
  contents : ∀ url content, IsContentOf call after url content → IsContentOf call before url content

variable {call : Call} {before middle after : State}

theorem Continues.refl (call : Call) (state : State) : Continues call state state :=
  ⟨.refl, fun _ h => h, fun _ _ h => h⟩

theorem Continues.trans (hfirst : Continues call before middle)
    (hsecond : Continues call middle after) : Continues call before after :=
  ⟨hfirst.effects.trans hsecond.effects,
    fun url h => hsecond.downloads url (hfirst.downloads url h),
    fun url content h => hfirst.contents url content (hsecond.contents url content h)⟩

/-- Only the cache of font files matters to downloads. -/
theorem Continues.of_fonts (heffects : Effects call.base before after)
    (hfonts : after.caches.fonts = before.caches.fonts) : Continues call before after := by
  refine ⟨heffects, fun url h => ⟨h.answered, ?_⟩, fun url content h => ?_⟩
  · rw [hfonts]
    exact h.cached
  · unfold IsContentOf at h
    rwa [hfonts] at h

/-- What is in a cache after it was asked was there before, or is the outcome of fetching it. -/
theorem get?_takeOrFetch {α : Type} {cache : Loader.Cache α} {key other : String}
    {outcome found : Option α} (h : (cache.takeOrFetch key outcome).cache.get? other = some found) :
    cache.get? other = some found ∨ other = key ∧ found = outcome := by
  unfold Loader.Cache.takeOrFetch at h
  split at h
  · rw [Table.get?_erase] at h
    split at h
    · cases h
    · exact Or.inl h
  · rw [Table.get?_insert] at h
    split at h
    · rename_i hsame
      exact Or.inr ⟨hsame, (Option.some_inj.mp h).symm⟩
    · exact Or.inl h

/-- A file whose download succeeds is downloaded. -/
theorem run_fetchFont {url : String} (h : Downloads call before url) :
    ∃ content after, (Loader.fetchFont call url).run before = (.ok (some content), after) ∧
      IsContentOf call before url content ∧ Continues call before after := by
  let outcome := call.world.font before.log url call.isDev
  have hanswer : ∃ content,
      ((Loader.fetchFont call url).run before).1 = .ok (some content) ∧
        IsContentOf call before url content := by
    show ∃ content, Except.ok (before.caches.fonts.takeOrFetch url outcome).value = _ ∧ _
    unfold Loader.Cache.takeOrFetch
    cases hget : before.caches.fonts.get? url with
    | none =>
        obtain ⟨content, hcontent⟩ := Option.isSome_iff_exists.mp (h.answered before.log)
        exact ⟨content, congrArg Except.ok hcontent, Or.inr ⟨before.log, hcontent⟩⟩
    | some stored =>
        cases stored with
        | none => exact absurd hget h.cached
        | some content => exact ⟨content, rfl, Or.inl hget⟩
  have hkept : ∀ other found,
      ((Loader.fetchFont call url).run before).2.caches.fonts.get? other = some found →
        before.caches.fonts.get? other = some found ∨ other = url ∧ found = outcome :=
    fun _ _ => get?_takeOrFetch
  obtain ⟨content, hvalue, hcontent⟩ := hanswer
  refine ⟨content, _, Prod.ext hvalue rfl, hcontent, Loader.within_fetchFont call url before,
    fun other hother => ⟨hother.answered, fun hnone => ?_⟩, fun other content hafter => ?_⟩
  · -- A failure would have to be the outcome, but the net has the file.
    rcases hkept other none hnone with hbefore | ⟨-, houtcome⟩
    · exact hother.cached hbefore
    · have hsome := h.answered before.log
      rw [show call.world.font before.log url call.isDev = none from houtcome.symm] at hsome
      cases hsome
  · rcases hafter with hcached | hworld
    · rcases hkept other _ hcached with hbefore | ⟨rfl, houtcome⟩
      · exact Or.inl hbefore
      · exact Or.inr ⟨before.log, houtcome.symm⟩
    · exact Or.inr hworld

theorem continues_fetchStylesheet {url family : String} {stylesheet? : Option String}
    (h : (Loader.fetchStylesheet call url family).run before = (.ok stylesheet?, after)) :
    Continues call before after := by
  have heffects : Effects call.base before _ :=
    Loader.within_fetchStylesheet call url family before
  rw [h] at heffects
  refine .of_fonts heffects ?_
  cases h
  dsimp only
  split <;> rfl

theorem run_emit (call : Call) (content : Asset.Bytes) (extension : String)
    (preload sizeAdjusted : Bool) (before : State) :
    ∃ url after, (Loader.emit call content extension preload sizeAdjusted).run before =
      (.ok url, after) ∧ Continues call before after := by
  refine ⟨_, _, rfl, .of_fonts
    (Loader.within_emit call content extension preload sizeAdjusted before) ?_⟩
  dsimp only
  split <;> rfl

variable (options : Options) (sizeAdjusted : Bool)

/-- A file whose download succeeds is given a copy, if its extension is that of a font. -/
theorem run_hostFile {file : FontFile} (hdownloads : Downloads call before file.url)
    (hextension : (Asset.fontExtension? file.url.toList).isSome) :
    ∃ url after, (hostFile call options sizeAdjusted file).run before = (.ok (file, url), after) ∧
      IsCopy call sizeAdjusted before after file url ∧ Continues call before after := by
  obtain ⟨extension, hextension⟩ := Option.isSome_iff_exists.mp hextension
  obtain ⟨content, fetched, hfetch, hcontent, hfetched⟩ := run_fetchFont hdownloads
  obtain ⟨url, emitted, hemit, hemitted⟩ :=
    run_emit call content extension file.preload sizeAdjusted fetched
  refine ⟨url, emitted, ?_, ⟨content, extension, fetched, emitted, hcontent, hextension,
    hfetched.effects, hemit, .refl⟩, hfetched.trans hemitted⟩
  unfold hostFile
  rw [Loader.run_bind, hfetch]
  dsimp only
  rw [hextension]
  dsimp only
  rw [Loader.run_bind, hemit]
  rfl

/-- A copy stays one, whatever is done before it and afterwards. -/
theorem IsCopy.extend {sizeAdjusted : Bool} {first last : State} {file : FontFile} {url : String}
    (h : IsCopy call sizeAdjusted before after file url) (hbefore : Continues call first before)
    (hafter : Effects call.base after last) : IsCopy call sizeAdjusted first last file url := by
  obtain ⟨content, extension, start, stop, hcontent, hextension, hstart, hemit, hstop⟩ := h
  exact ⟨content, extension, start, stop, hbefore.contents _ _ hcontent, hextension,
    hbefore.effects.trans hstart, hemit, hstop.trans hafter⟩

/-- **Files whose downloads succeed are given copies**, each its own. -/
theorem run_hostFiles {files : List FontFile}
    (hdownloads : ∀ file ∈ files, Downloads call before file.url)
    (hextensions : ∀ file ∈ files, (Asset.fontExtension? file.url.toList).isSome) :
    ∃ hosted after, (files.mapM (hostFile call options sizeAdjusted)).run before =
        (.ok hosted, after) ∧
      (∀ one ∈ hosted, IsCopy call sizeAdjusted before after one.1 one.2) ∧
      Continues call before after := by
  induction files generalizing before with
  | nil => exact ⟨[], before, rfl, fun _ h => absurd h List.not_mem_nil, .refl call before⟩
  | cons file rest ih =>
      obtain ⟨hfile, hrest⟩ := List.forall_mem_cons.mp hdownloads
      obtain ⟨hextension, hothers⟩ := List.forall_mem_cons.mp hextensions
      obtain ⟨url, middle, hfirst, hcopy, hmiddle⟩ :=
        run_hostFile options sizeAdjusted hfile hextension
      obtain ⟨hosted, after, hlater, hcopies, hafter⟩ :=
        ih (fun other hother => hmiddle.downloads _ (hrest other hother)) hothers
      refine ⟨(file, url) :: hosted, after, ?_, ?_, hmiddle.trans hafter⟩
      · rw [List.mapM_cons, Loader.run_bind, hfirst]
        dsimp only
        rw [Loader.run_bind, hlater]
        rfl
      · intro one hone
        rcases List.mem_cons.mp hone with rfl | hone
        · exact hcopy.extend (.refl call before) hafter.effects
        · exact (hcopies one hone).extend hmiddle .refl

/-- A copy is kept in the store. -/
theorem IsCopy.contains {sizeAdjusted : Bool} {file : FontFile} {url : String}
    (h : IsCopy call sizeAdjusted before after file url) : after.store.contains url = true := by
  obtain ⟨content, extension, start, stop, -, -, -, hemit, hstop⟩ := h
  have hstored : stop.store.contains url = true := by
    cases hemit
    exact Table.contains_insert.mpr (Or.inl rfl)
  exact hstop.grown.keeps url hstored

/-! ## The stylesheet that is handed out -/

/-- The files of a stylesheet. -/
def Options.files (options : Options) (stylesheet : String) : List FontFile :=
  fontFiles (fontRules stylesheet.toList) (if options.preload then some options.subsets else none)

/-- Separate URLs with the extensions of fonts are replaced piece by piece. -/
theorem isPiecewise_of_separate {hosted : List (FontFile × String)}
    (hseparate : Separate call.base (hosted.map Prod.fst))
    (hextensions : ∀ one ∈ hosted, (Asset.fontExtension? one.1.url.toList).isSome)
    (hcopies : ∀ one ∈ hosted, ∃ copy, Asset.IsFontName copy ∧ one.2 = call.base.url copy) :
    IsPiecewise hosted := by
  have hended : ∀ one ∈ hosted, ∃ c, one.1.url.toList.getLast? = some c ∧ c ∉ sourceMark := by
    intro one hone
    obtain ⟨extension, hextension⟩ := Option.isSome_iff_exists.mp (hextensions one hone)
    exact getLast?_of_fontExtension? hextension
  refine ⟨fun one hone => hseparate.unbracketed one.1 (List.mem_map_of_mem hone), hended, ?_⟩
  intro one hone
  refine replaceUrls_self (List.pairwise_map.mp hseparate.apart) ?_ hone ?_
  · intro earlier hearlier other hother
    obtain ⟨copy, hcopy, hurl⟩ := hcopies other hother
    rw [hurl]
    exact hseparate.copies earlier.1 (List.mem_map_of_mem hearlier) copy hcopy
  · obtain ⟨c, hlast, -⟩ := hended one hone
    exact List.ne_nil_of_mem (List.mem_of_getLast? hlast)

/-- **Every source of a stylesheet is rewritten to its own copy.**  Let the stylesheet and the
files in it be downloaded, and let the files have the extensions of fonts and `Separate` URLs.
Then hosting the stylesheet succeeds, and what comes out is its rules, cut at all sources of the
files, with the address of the copy of the same file in every source.  Between the sources
nothing but URLs is replaced, so nothing is if no URL is mentioned there. -/
theorem sources_are_rewritten {url stylesheet : String} {fetched : State}
    (hstylesheet : (Loader.fetchStylesheet call url options.family).run before =
      (.ok (some stylesheet), fetched))
    (hdownloads : ∀ file ∈ options.files stylesheet, Downloads call before file.url)
    (hextensions : ∀ file ∈ options.files stylesheet,
      (Asset.fontExtension? file.url.toList).isSome)
    (hseparate : Separate call.base (options.files stylesheet)) :
    ∃ css after hosted layout,
      (selfHost call options url sizeAdjusted).run before = (.ok css, after) ∧
      hosted.map Prod.fst = options.files stylesheet ∧
      (∀ one ∈ hosted, IsCopy call sizeAdjusted before after one.1 one.2 ∧
        after.store.contains one.2 = true) ∧
      Layout.Cuts layout hosted (fun one => one.1.url) (fontRules stylesheet.toList) ∧
      css.toList = layout.text (fun part => replaceUrls part hosted) Prod.snd ∧
      ((∀ part ∈ layout.between, ∀ one ∈ hosted, ¬ one.1.url.toList <:+: part) →
        css.toList = layout.text id Prod.snd) := by
  have hfetched : Continues call before fetched := continues_fetchStylesheet hstylesheet
  obtain ⟨hosted, after, hhosted, hcopies, -⟩ :=
    run_hostFiles options sizeAdjusted
      (fun file hfile => hfetched.downloads _ (hdownloads file hfile)) hextensions
  obtain ⟨hfiles, hurls⟩ := of_run_hostFiles hhosted
  have hpiecewise : IsPiecewise hosted := by
    refine isPiecewise_of_separate (hfiles ▸ hseparate) (fun one hone => ?_) hurls
    exact hextensions one.1 (hfiles ▸ List.mem_map_of_mem hone)
  obtain ⟨layout, hcuts⟩ :=
    Layout.exists_cuts hosted (fun one => one.1.url) (fontRules stylesheet.toList)
  let css := String.ofList (replaceUrls (fontRules stylesheet.toList) hosted)
  have hrun : (selfHost call options url sizeAdjusted).run before = (.ok css, after) := by
    unfold selfHost
    rw [Loader.run_bind, hstylesheet]
    dsimp only
    rw [Loader.run_bind]
    unfold Options.files at hhosted
    rw [hhosted]
    rfl
  have hcss : css.toList = layout.text (fun part => replaceUrls part hosted) Prod.snd := by
    rw [String.toList_ofList, ← hcuts.text_eq, hpiecewise.replaceUrls_layout layout hcuts.sources]
  refine ⟨css, after, hosted, layout, hrun, hfiles, fun one hone => ?_, hcuts, hcss, fun hfree => ?_⟩
  · have hcopy := (hcopies one hone).extend hfetched .refl
    exact ⟨hcopy, hcopy.contains⟩
  · rw [hcss]
    exact Layout.text_congr fun part hpart => replaceUrls_of_not_infix (hfree part hpart)

/-! ### Two files

The rules of two subsets, with a file for each. -/

/-- A stylesheet with two files. -/
def twoSources (first second : String) : String :=
  "/* latin */\nsrc: url(" ++ first ++ ")\n/* greek */\nsrc: url(" ++ second ++
    ")\nbody \x7b\x7d"

/-- A call in a world that has one stylesheet, and a content of its own for every file. -/
def callFor (stylesheet : String) : Call where
  function := "A"
  variableName := "a"
  arguments := []
  directory := "app"
  isDev := false
  isServer := false
  base := ⟨""⟩
  world := { Loader.World.unconnected with
    stylesheet := fun _ _ _ _ => some stylesheet
    font := fun _ url _ => some (Text.Utf8.encode url.toList) }

/-- The letters of one subset are to be loaded early. -/
def latinOptions : Options where
  family := "A"
  weights := ["400"]
  styles := ["normal"]
  display := "swap"
  preload := true
  axes := none
  fallback := none
  adjustsFallback := false
  variableName := none
  subsets := ["latin"]

/-- Two files whose URLs share a directory. -/
def siblingFiles : List FontFile := [⟨"https://x/a.woff2", true⟩, ⟨"https://x/b.woff", false⟩]

/-- The stylesheet of the two files. -/
def siblingCss : String := twoSources "https://x/a.woff2" "https://x/b.woff"

/-- Both sources are rewritten to the copies of their own files. -/
theorem siblingCss_is_rewritten :
    latinOptions.files siblingCss = siblingFiles ∧
      ∃ css after hosted layout,
        (selfHost (callFor siblingCss) latinOptions "https://css" false).run
          (.start .empty Table.empty []) = (.ok css, after) ∧
        hosted.map Prod.fst = siblingFiles ∧
        Layout.Cuts layout hosted (fun one => one.1.url) (fontRules siblingCss.toList) ∧
        css.toList = layout.text (fun part => replaceUrls part hosted) Prod.snd := by
  have hfiles : latinOptions.files siblingCss = siblingFiles := by
    decide
  have hseparate : Separate ⟨""⟩ siblingFiles :=
    separate_of_absolute (by decide) (by decide) (by decide) (by decide)
  have hstylesheet : ∃ fetched,
      (Loader.fetchStylesheet (callFor siblingCss) "https://css" latinOptions.family).run
        (.start .empty Table.empty []) = (.ok (some siblingCss), fetched) := ⟨_, rfl⟩
  obtain ⟨fetched, hstylesheet⟩ := hstylesheet
  obtain ⟨css, after, hosted, layout, hrun, hhosted, -, hcuts, hcss, -⟩ :=
    sources_are_rewritten latinOptions false hstylesheet
      (fun file _ => ⟨fun _ => rfl, nofun⟩)
      (by rw [hfiles]; decide) (hfiles ▸ hseparate)
  exact ⟨hfiles, css, after, hosted, layout, hrun, hfiles ▸ hhosted, hcuts, hcss⟩

/-- A file whose URL is part of that of another one. -/
def shorterUrl : String := "https://x/a.woff"

/-- The other file. -/
def longerUrl : String := "https://x/a.woff2"

/-- The stylesheet of the two files. -/
def prefixCss : String := twoSources shorterUrl longerUrl

/-- The copy of a file whose content is its own URL. -/
def copyOf (url extension : String) (preload : Bool) : String :=
  Asset.UrlBase.url ⟨""⟩ (Asset.fileName (Text.Utf8.encode url.toList) extension preload false)

/-- Whether a run has spoilt the longer URL. -/
def isSpoilt : Except Loader.Error String × State → Bool
  | (.error _, _) => false
  | (.ok css, after) =>
      Text.occursIn (source (copyOf shorterUrl "woff" true ++ "2").toList) css.toList &&
      !Text.occursIn (source (copyOf longerUrl "woff2" false).toList) css.toList &&
      !after.store.contains (copyOf shorterUrl "woff" true ++ "2") &&
      after.store.contains (copyOf longerUrl "woff2" false)

/-- **A URL that is part of a later one spoils it**: the second source is given the name of the
first copy with a `2` behind it, where there is no file, although the copy of the second file is
there. -/
theorem longer_url_is_spoilt :
    ∃ css after, (selfHost (callFor prefixCss) latinOptions "https://css" false).run
        (.start .empty Table.empty []) = (.ok css, after) ∧
      source (copyOf shorterUrl "woff" true ++ "2").toList <:+: css.toList ∧
      ¬ source (copyOf longerUrl "woff2" false).toList <:+: css.toList ∧
      after.store.contains (copyOf shorterUrl "woff" true ++ "2") = false ∧
      after.store.contains (copyOf longerUrl "woff2" false) = true := by
  have hspoilt : isSpoilt ((selfHost (callFor prefixCss) latinOptions "https://css" false).run
      (.start .empty Table.empty [])) = true := by
    decide +kernel
  rcases hrun : (selfHost (callFor prefixCss) latinOptions "https://css" false).run
    (.start .empty Table.empty []) with ⟨error | css, after⟩
  · rw [hrun] at hspoilt
    cases hspoilt
  · rw [hrun] at hspoilt
    simp only [isSpoilt, Bool.and_eq_true_iff, Bool.not_eq_true'] at hspoilt
    obtain ⟨⟨⟨hfirst, hsecond⟩, hmissing⟩, hstored⟩ := hspoilt
    refine ⟨css, after, rfl, Text.occursIn_iff.mp hfirst, fun hin => ?_, hmissing, hstored⟩
    rw [Text.occursIn_iff.mpr hin] at hsecond
    cases hsecond

end FontHosting.Google
