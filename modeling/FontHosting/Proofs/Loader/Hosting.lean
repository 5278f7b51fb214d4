import FontHosting.Proofs.Asset
import FontHosting.Proofs.Css.Families
import FontHosting.Proofs.Loader.Effects

/-!
# Rules refer to the files that were emitted for them

A loader emits files while it puts its rules together, so the list of names and the rules
have to agree in the end: the public URL of every name stands between brackets in the rules
(`RefersToFiles`).

For fonts from files that is so by construction (`refersToFiles_local`).  A downloaded
stylesheet is rewritten: the URL of every file in it is replaced by that of its copy, one
after the other.  This goes well if the URLs are `Separate`, since brackets are never part of
them and so every address is rewritten on its own (`bracketed_replaceUrls`).  But a download
that fails on the way leaves the files before it emitted, and if the loader then goes on with
the stand-in, no rule refers to them.  `Undisturbed` rules that out.
-/

namespace FontHosting

namespace Asset

/-- The name of a font file that a loader of the library emits. -/
def IsFontName (name : String) : Prop :=
  ∃ content, ∃ extension ∈ fontExtensions, ∃ preload sizeAdjusted,
    fileName content extension preload sizeAdjusted = name

/-- The characters that the names of font files are made of. -/
def nameAlphabet : List Char :=
  mediaDirectory ++ ['/', '-', 's', '.', 'p'] ++ (List.range 16).map Text.Hex.lowerDigit ++
    fontExtensions.flatMap String.toList

/-- Marks that no name of a font file has. -/
def foreignMarks : List Char := [':', ';', '\x7b', '\x7d']

theorem IsFontName.mem_nameAlphabet {name : String} (h : IsFontName name) {c : Char}
    (hc : c ∈ name.toList) : c ∈ nameAlphabet := by
  obtain ⟨content, extension, hextension, preload, sizeAdjusted, rfl⟩ := h
  unfold fileName at hc
  dsimp only at hc
  rw [String.toList_ofList] at hc
  unfold nameAlphabet
  simp only [List.append_assoc, List.cons_append, List.mem_append, List.mem_cons] at hc ⊢
  rcases hc with hdirectory | rfl | hdigit | hadjusted | hpreload | rfl | hmem
  · exact Or.inl hdirectory
  · simp
  · obtain ⟨value, hvalue, rfl⟩ := mem_hexDigest (List.mem_of_mem_take hdigit)
    have hmem : Text.Hex.lowerDigit value ∈ (List.range 16).map Text.Hex.lowerDigit :=
      List.mem_map_of_mem (List.mem_range.mpr hvalue)
    simp [hmem]
  · split at hadjusted
    · rcases List.mem_pair.mp hadjusted with rfl | rfl <;> simp
    · cases hadjusted
  · split at hpreload
    · rcases List.mem_pair.mp hpreload with rfl | rfl <;> simp
    · cases hpreload
  · simp
  · have hin : c ∈ fontExtensions.flatMap String.toList :=
      List.mem_flatMap.mpr ⟨extension, hextension, hmem⟩
    simp [hin]

theorem IsFontName.notMem {name : String} (h : IsFontName name) {c : Char}
    (hc : c ∈ foreignMarks) : c ∉ name.toList := by
  have hforeign : foreignMarks.Forall fun c => c ∉ nameAlphabet := by
    decide
  exact fun hmem => List.forall_iff_forall_mem.mp hforeign c hc (h.mem_nameAlphabet hmem)

theorem IsFontName.notMem_url {name : String} (hname : IsFontName name)
    {base : UrlBase} {c : Char} (hc : c ∈ foreignMarks) (hbase : c ∉ base.path.toList) :
    c ∉ (base.url name).toList := by
  have hslash : foreignMarks.Forall fun c => c ∉ "/_next/".toList := by
    decide
  unfold UrlBase.url
  rw [String.toList_append, String.toList_append]
  intro hmem
  rcases List.mem_append.mp hmem with hmem | hmem
  · rcases List.mem_append.mp hmem with hmem | hmem
    · exact hbase hmem
    · exact List.forall_iff_forall_mem.mp hslash c hc hmem
  · exact hname.notMem hc hmem

end Asset

namespace Loader

open Asset (UrlBase)
open Css (bracketed)

/-- A text has the address of a font file. -/
def RefersTo (base : UrlBase) (css name : String) : Prop :=
  Asset.IsFontName name ∧ bracketed (base.url name).toList <:+: css.toList

/-- The rules that a loader answers refer to every file that it emitted. -/
def RefersToFiles (loader : FontLoader) (call : Call) (before : State) : Prop :=
  ∀ output after, (loader call).run before = (.ok output, after) →
    ∀ name ∈ after.emitted, name ∈ before.emitted ∨ RefersTo call.base output.css name

/-! ## Runs that end well -/

variable {α β : Type} {before after : State}

theorem run_bind_eq_ok {first : Run α} {next : α → Run β} {result : β}
    (h : (first >>= next).run before = (.ok result, after)) :
    ∃ value middle, first.run before = (.ok value, middle) ∧
      (next value).run middle = (.ok result, after) := by
  rw [run_bind] at h
  rcases hfirst : first.run before with ⟨error | value, middle⟩
  · rw [hfirst] at h
    cases h
  · rw [hfirst] at h
    exact ⟨value, middle, rfl, h⟩

theorem run_tryCatch_eq_ok {first : Run α} {handler : Error → Run α} {result : α}
    (h : (tryCatch first handler).run before = (.ok result, after)) :
    first.run before = (.ok result, after) ∨ ∃ error middle,
      first.run before = (.error error, middle) ∧
        (handler error).run middle = (.ok result, after) := by
  rw [run_tryCatch] at h
  rcases hfirst : first.run before with ⟨error | value, middle⟩
  · rw [hfirst] at h
    exact Or.inr ⟨error, middle, rfl, h⟩
  · rw [hfirst] at h
    exact Or.inl h

theorem run_pure_eq_ok {value result : α}
    (h : (pure value : Run α).run before = (.ok result, after)) :
    result = value ∧ after = before := by
  cases h
  exact ⟨rfl, rfl⟩

theorem run_accept_eq_ok {checked : Except ArgumentFault α} {result : α}
    (h : (accept checked).run before = (.ok result, after)) :
    checked = .ok result ∧ after = before := by
  cases checked with
  | error fault => cases h
  | ok value =>
      cases h
      exact ⟨rfl, rfl⟩

/-- A list of runs that ends well answers one after the other. -/
theorem run_mapM_eq_ok {run : α → Run β} {values : List α} {results : List β}
    (h : (values.mapM run).run before = (.ok results, after)) :
    List.Forall₂ (fun value result => ∃ start stop, (run value).run start = (.ok result, stop))
      values results := by
  induction values generalizing before results with
  | nil =>
      obtain ⟨rfl, -⟩ := run_pure_eq_ok h
      exact .nil
  | cons value rest ih =>
      rw [List.mapM_cons] at h
      obtain ⟨result, middle, hfirst, h⟩ := run_bind_eq_ok h
      obtain ⟨others, last, hrest, h⟩ := run_bind_eq_ok h
      obtain ⟨rfl, rfl⟩ := run_pure_eq_ok h
      exact .cons ⟨before, middle, hfirst⟩ (ih hrest)

/-- What a list of runs emits is accounted for if every run accounts for what it emits. -/
theorem emitted_mapM {run : α → Run β} {accounts : β → String → Prop} {values : List α}
    {results : List β}
    (hrun : ∀ value ∈ values, ∀ start result stop, (run value).run start = (.ok result, stop) →
      ∀ name ∈ stop.emitted, name ∈ start.emitted ∨ accounts result name)
    (h : (values.mapM run).run before = (.ok results, after)) :
    ∀ name ∈ after.emitted, name ∈ before.emitted ∨ ∃ result ∈ results, accounts result name := by
  induction values generalizing before results with
  | nil =>
      obtain ⟨-, rfl⟩ := run_pure_eq_ok h
      exact fun _ hname => Or.inl hname
  | cons value rest ih =>
      rw [List.mapM_cons] at h
      obtain ⟨result, middle, hfirst, h⟩ := run_bind_eq_ok h
      obtain ⟨others, last, hrest, h⟩ := run_bind_eq_ok h
      obtain ⟨rfl, rfl⟩ := run_pure_eq_ok h
      intro name hname
      have hothers := ih (fun other hother => hrun other (List.mem_cons_of_mem _ hother)) hrest
      rcases hothers name hname with hmiddle | ⟨other, hother, haccounts⟩
      · rcases hrun value List.mem_cons_self before result middle hfirst name hmiddle with
          hbefore | haccounts
        · exact Or.inl hbefore
        · exact Or.inr ⟨result, List.mem_cons_self, haccounts⟩
      · exact Or.inr ⟨other, List.mem_cons_of_mem _ hother, haccounts⟩

/-! ## The functions of a call -/

section
variable {call : Call}

/-- Emitting a file answers its URL and adds its name. -/
theorem run_emit_eq_ok {content : Asset.Bytes} {extension : String} {preload sizeAdjusted : Bool}
    {url : String}
    (h : (emit call content extension preload sizeAdjusted).run before = (.ok url, after)) :
    url = call.base.url (Asset.fileName content extension preload sizeAdjusted) ∧
      ∀ name ∈ after.emitted, name ∈ before.emitted ∨
        name = Asset.fileName content extension preload sizeAdjusted := by
  let name := Asset.fileName content extension preload sizeAdjusted
  let told := if call.isDev then before else before.tell (.emit name content)
  have hrun : (emit call content extension preload sizeAdjusted).run before =
      (.ok (call.base.url name), told.put call.base content extension preload sizeAdjusted) := rfl
  have htold : told.emitted = before.emitted := by
    unfold told
    split <;> rfl
  rw [hrun] at h
  obtain ⟨hurl, rfl⟩ := Prod.mk.inj h
  obtain rfl := Except.ok.inj hurl
  refine ⟨rfl, fun other hother => ?_⟩
  rcases mem_emitted_put.mp hother with hbefore | rfl
  · exact Or.inl (htold ▸ hbefore)
  · exact Or.inr rfl

theorem emitted_resolve {source path : String}
    (h : (resolve call source).run before = (.ok path, after)) :
    after.emitted = before.emitted := by
  cases h
  rfl

theorem emitted_readFile {path : String} {content : Asset.Bytes}
    (h : (readFile call path).run before = (.ok content, after)) :
    after.emitted = before.emitted := by
  rw [run_readFile] at h
  cases hfile : call.world.file before.log path with
  | ok content =>
      rw [hfile] at h
      obtain ⟨-, rfl⟩ := run_pure_eq_ok h
      rfl
  | error reason =>
      rw [hfile] at h
      cases h

theorem emitted_fetchStylesheet {url family : String} {stylesheet? : Option String}
    (h : (fetchStylesheet call url family).run before = (.ok stylesheet?, after)) :
    after.emitted = before.emitted := by
  cases h
  dsimp only
  split <;> rfl

theorem emitted_fetchFont {url : String} {content? : Option Asset.Bytes}
    (h : (fetchFont call url).run before = (.ok content?, after)) :
    after.emitted = before.emitted := by
  cases h
  dsimp only
  split <;> rfl

end

end Loader

/-! ## Fonts from files -/

namespace LocalFont

open Asset (UrlBase)
open Css (bracketed)
open Loader (Call RefersTo RefersToFiles Run State)

/-- The rule of a file has its address. -/
theorem bracketed_renderFace (options : Options) (family url : String) (source : Source) :
    bracketed url.toList <:+:
      (renderFace (faceDeclarations options family url source)).toList := by
  let value := "url(" ++ url ++ ") format('" ++ source.format ++ "')"
  have hvalue : bracketed url.toList <:+: ("src" ++ ": " ++ value ++ ";").toList := by
    refine ⟨"src: url".toList, " format('".toList ++ source.format.toList ++ "');".toList, ?_⟩
    simp [value, bracketed, String.toList_append]
  have hmem : ("src" ++ ": " ++ value ++ ";") ∈
      (faceDeclarations options family url source).map fun declaration =>
        declaration.property ++ ": " ++ declaration.value ++ ";" := by
    refine List.mem_map.mpr ⟨⟨"src", value⟩, ?_, rfl⟩
    unfold faceDeclarations
    simp [value]
  unfold renderFace
  dsimp only
  rw [String.toList_append, String.toList_append, String.toList_intercalate]
  have hline : bracketed url.toList <:+: "\n".toList.intercalate
      (((faceDeclarations options family url source).map fun declaration =>
        declaration.property ++ ": " ++ declaration.value ++ ";").map String.toList) :=
    hvalue.trans (Text.infix_intercalate (List.mem_map_of_mem hmem))
  exact hline.trans ⟨_, _, rfl⟩

variable {call : Call} {before after : State}

theorem emitted_hostSource {options : Options} {source : Source} {hosted : String × Asset.Bytes}
    (hextension : source.extension ∈ Asset.fontExtensions)
    (h : (hostSource call options source).run before = (.ok hosted, after)) :
    ∀ name ∈ after.emitted, name ∈ before.emitted ∨ RefersTo call.base hosted.1 name := by
  unfold hostSource at h
  obtain ⟨path, resolved, hresolve, h⟩ := Loader.run_bind_eq_ok h
  obtain ⟨content, read, hread, h⟩ := Loader.run_bind_eq_ok h
  obtain ⟨url, emitted, hemit, h⟩ := Loader.run_bind_eq_ok h
  obtain ⟨rfl, rfl⟩ := Loader.run_pure_eq_ok h
  intro name hname
  obtain ⟨hurl, hemitted⟩ := Loader.run_emit_eq_ok hemit
  rcases hemitted name hname with hread' | rfl
  · rw [Loader.emitted_readFile hread, Loader.emitted_resolve hresolve] at hread'
    exact Or.inl hread'
  · refine Or.inr ⟨⟨content, source.extension, hextension, _, _, rfl⟩, ?_⟩
    rw [← hurl]
    exact bracketed_renderFace options call.variableName url source

/-- **The rules of font files refer to all of them.** -/
theorem refersToFiles_local (call : Call) (before : State) :
    RefersToFiles loader call before := by
  intro output after h
  unfold loader at h
  obtain ⟨options, accepted, haccept, hrest⟩ := Loader.run_bind_eq_ok h
  obtain ⟨hosted, last, hhosted, hend⟩ := Loader.run_bind_eq_ok hrest
  obtain ⟨hcheck, rfl⟩ := Loader.run_accept_eq_ok haccept
  obtain ⟨rfl, rfl⟩ := Loader.run_pure_eq_ok hend
  intro name hname
  have haccounts := Loader.emitted_mapM (fun source hsource _ _ _ hrun =>
    emitted_hostSource (extension_of_check hcheck source hsource) hrun) hhosted name hname
  rcases haccounts with hbefore | ⟨one, hone, hname, hrefers⟩
  · exact Or.inl hbefore
  · refine Or.inr ⟨hname, hrefers.trans ?_⟩
    show _ <:+: ("\n".intercalate (hosted.map Prod.fst)).toList
    rw [String.toList_intercalate]
    exact Text.infix_intercalate (List.mem_map_of_mem (List.mem_map_of_mem hone))

end LocalFont

/-! ## Fonts from the net -/

namespace Google

open Asset (UrlBase)
open Css (bracketed)
open Loader (Call RefersTo RefersToFiles Run State)

/-- The URLs of font files can be replaced one after the other: they have no brackets, and no
one is part of a later one or of the public URL of a font file. -/
structure Separate (base : UrlBase) (files : List FontFile) : Prop where
  unbracketed : ∀ file ∈ files, '(' ∉ file.url.toList ∧ ')' ∉ file.url.toList
  apart : files.Pairwise fun earlier later => ¬ earlier.url.toList <:+: later.url.toList
  copies : ∀ file ∈ files, ∀ name, Asset.IsFontName name →
    ¬ file.url.toList <:+: (base.url name).toList

/-- The URLs of files are not part of those of copies if only they are absolute. -/
theorem separate_of_absolute {base : UrlBase} {files : List FontFile}
    (hbase : ':' ∉ base.path.toList) (habsolute : ∀ file ∈ files, ':' ∈ file.url.toList)
    (hunbracketed : ∀ file ∈ files, '(' ∉ file.url.toList ∧ ')' ∉ file.url.toList)
    (hapart : files.Pairwise fun earlier later => ¬ earlier.url.toList <:+: later.url.toList) :
    Separate base files := by
  refine ⟨hunbracketed, hapart, fun file hfile name hname hwithin => ?_⟩
  exact hname.notMem_url List.mem_cons_self hbase (hwithin.subset (habsolute file hfile))

theorem exists_of_between? {opening closing : String} {line inner : List Char}
    (h : between? opening closing line = some inner) :
    inner ≠ [] ∧ opening.toList ++ (inner ++ closing.toList) <:+: line := by
  unfold between? at h
  obtain ⟨⟨front, rest⟩, hopening, h⟩ := Option.bind_eq_some_iff.mp h
  dsimp only at h
  split at h
  · cases h
  · rename_i first others
    obtain ⟨⟨found, back⟩, hclosing, h⟩ := Option.bind_eq_some_iff.mp h
    obtain rfl := Option.some_inj.mp h
    refine ⟨List.cons_ne_nil _ _, front, back, ?_⟩
    rw [Text.eq_of_splitOnce? hopening, Text.eq_of_splitOnce? hclosing]
    simp

/-- A font file of a stylesheet is not nameless, and its address occurs there. -/
theorem bracketed_of_mem_fontFiles {css : List Char} {preloaded : Option (List String)}
    {file : FontFile} (h : file ∈ fontFiles css preloaded) :
    file.url.toList ≠ [] ∧ bracketed file.url.toList <:+: css := by
  have hscan : ∀ (lines : List (List Char)) (scan : Scan), (∀ line ∈ lines, line <:+: css) →
      (∀ known ∈ scan.files, known.url.toList ≠ [] ∧ bracketed known.url.toList <:+: css) →
      ∀ known ∈ (lines.foldl (Scan.line preloaded) scan).files,
        known.url.toList ≠ [] ∧ bracketed known.url.toList <:+: css := by
    intro lines
    induction lines with
    | nil => exact fun _ _ hknown => hknown
    | cons line rest ih =>
        intro scan hlines hknown
        rw [List.foldl_cons]
        refine ih _ (fun other hother => hlines other (List.mem_cons_of_mem _ hother)) ?_
        unfold Scan.line
        split
        · exact hknown
        · split
          · exact hknown
          · rename_i url hurl
            obtain ⟨hne, hin⟩ := exists_of_between? hurl
            dsimp only
            split
            · exact hknown
            · intro known hmem
              rcases List.mem_append.mp hmem with hold | hnew
              · exact hknown known hold
              · rw [List.mem_singleton.mp hnew]
                dsimp only
                rw [String.toList_ofList]
                refine ⟨hne, List.IsInfix.trans ?_ (hlines line List.mem_cons_self)⟩
                refine List.IsInfix.trans ?_ hin
                exact ⟨"src: url".toList, [], by simp [bracketed]⟩
  refine hscan (Text.lines css) ⟨[], []⟩ (fun line hline => Text.infix_of_mem_lines hline) ?_ file h
  intro known hknown
  cases hknown

/-! ### Replacing URLs -/

theorem replaceUrls_cons (text : List Char) (one : FontFile × String)
    (rest : List (FontFile × String)) :
    replaceUrls text (one :: rest) =
      replaceUrls (Text.replaceAll one.1.url.toList one.2.toList text) rest :=
  rfl

/-- A mark that no URL has cuts a text into two that are rewritten on their own. -/
theorem replaceUrls_append_cons {hosted : List (FontFile × String)} {mark : Char}
    (hmark : ∀ one ∈ hosted, mark ∉ one.1.url.toList) (before after : List Char) :
    replaceUrls (before ++ mark :: after) hosted =
      replaceUrls before hosted ++ mark :: replaceUrls after hosted := by
  induction hosted generalizing before after with
  | nil => rfl
  | cons one rest ih =>
      rw [replaceUrls_cons, Text.replaceAll_append_cons (hmark one List.mem_cons_self),
        ih fun other hother => hmark other (List.mem_cons_of_mem _ hother)]
      rfl

/-- **Every address is rewritten on its own**, if no URL that is replaced has a bracket. -/
theorem bracketed_replaceUrls {hosted : List (FontFile × String)}
    (hunbracketed : ∀ one ∈ hosted, '(' ∉ one.1.url.toList ∧ ')' ∉ one.1.url.toList)
    {address css : List Char} (h : bracketed address <:+: css) :
    bracketed (replaceUrls address hosted) <:+: replaceUrls css hosted := by
  obtain ⟨front, back, rfl⟩ := h
  have hcss : front ++ bracketed address ++ back =
      front ++ '(' :: (address ++ ')' :: back) := by simp [bracketed]
  rw [hcss, replaceUrls_append_cons fun one hone => (hunbracketed one hone).1,
    replaceUrls_append_cons fun one hone => (hunbracketed one hone).2]
  exact ⟨_, _, by simp [bracketed]; rfl⟩

theorem replaceUrls_of_not_infix {hosted : List (FontFile × String)} {text : List Char}
    (h : ∀ one ∈ hosted, ¬ one.1.url.toList <:+: text) : replaceUrls text hosted = text := by
  induction hosted with
  | nil => rfl
  | cons one rest ih =>
      rw [replaceUrls_cons, Text.replaceAll_of_not_infix (h one List.mem_cons_self)]
      exact ih fun other hother => h other (List.mem_cons_of_mem _ hother)

/-- A URL on its own is replaced by that of its copy. -/
theorem replaceUrls_self {hosted : List (FontFile × String)}
    (hapart : hosted.Pairwise fun earlier later =>
      ¬ earlier.1.url.toList <:+: later.1.url.toList)
    (hcopies : ∀ one ∈ hosted, ∀ other ∈ hosted, ¬ one.1.url.toList <:+: other.2.toList)
    {file : FontFile} {url : String} (hmem : (file, url) ∈ hosted)
    (hne : file.url.toList ≠ []) : replaceUrls file.url.toList hosted = url.toList := by
  obtain ⟨earlier, later, rfl⟩ := List.append_of_mem hmem
  have hbefore : replaceUrls file.url.toList earlier = file.url.toList :=
    replaceUrls_of_not_infix fun one hone =>
      (List.pairwise_append.mp hapart).2.2 one hone _ List.mem_cons_self
  have hbehind : replaceUrls url.toList later = url.toList :=
    replaceUrls_of_not_infix fun one hone =>
      hcopies one (List.mem_append_right _ (List.mem_cons_of_mem _ hone)) _ hmem
  calc replaceUrls file.url.toList (earlier ++ (file, url) :: later)
      = replaceUrls (replaceUrls file.url.toList earlier) ((file, url) :: later) :=
        List.foldl_append
    _ = replaceUrls (Text.replaceAll file.url.toList url.toList file.url.toList) later := by
        rw [hbefore, replaceUrls_cons]
    _ = url.toList := by rw [Text.replaceAll_self hne, hbehind]

/-! ### The loader -/

variable {call : Call} {before after : State}

theorem run_hostFile_eq_ok {options : Options} {sizeAdjusted : Bool} {file : FontFile}
    {hosted : FontFile × String}
    (h : (hostFile call options sizeAdjusted file).run before = (.ok hosted, after)) :
    hosted.1 = file ∧ ∃ copy, Asset.IsFontName copy ∧ hosted.2 = call.base.url copy ∧
      ∀ name ∈ after.emitted, name ∈ before.emitted ∨ name = copy := by
  unfold hostFile at h
  obtain ⟨content?, fetched, hfetch, h⟩ := Loader.run_bind_eq_ok h
  cases content? with
  | none => cases h
  | some content =>
      dsimp only at h
      cases hextension : Asset.fontExtension? file.url.toList with
      | none =>
          rw [hextension] at h
          cases h
      | some extension =>
          rw [hextension] at h
          obtain ⟨url, emitted, hemit, h⟩ := Loader.run_bind_eq_ok h
          obtain ⟨rfl, rfl⟩ := Loader.run_pure_eq_ok h
          obtain ⟨hurl, hemitted⟩ := Loader.run_emit_eq_ok hemit
          have hfont : Asset.IsFontName
              (Asset.fileName content extension file.preload sizeAdjusted) :=
            ⟨content, extension, List.mem_of_find?_eq_some hextension, _, _, rfl⟩
          refine ⟨rfl, _, hfont, hurl, ?_⟩
          rw [← Loader.emitted_fetchFont hfetch]
          exact hemitted

/-- The copies of font files are those of the files, in the same order. -/
theorem of_run_hostFiles {options : Options} {sizeAdjusted : Bool} {files : List FontFile}
    {hosted : List (FontFile × String)}
    (h : (files.mapM (hostFile call options sizeAdjusted)).run before = (.ok hosted, after)) :
    hosted.map Prod.fst = files ∧
      ∀ one ∈ hosted, ∃ copy, Asset.IsFontName copy ∧ one.2 = call.base.url copy := by
  have heach := Loader.run_mapM_eq_ok h
  clear h
  induction heach with
  | nil => exact ⟨rfl, fun _ hone => absurd hone List.not_mem_nil⟩
  | cons hfirst _ ih =>
      obtain ⟨_, _, hrun⟩ := hfirst
      obtain ⟨hfile, copy, hfont, hurl, -⟩ := run_hostFile_eq_ok hrun
      refine ⟨by rw [List.map_cons, hfile, ih.1], fun one hone => ?_⟩
      rcases List.mem_cons.mp hone with rfl | hrest
      · exact ⟨copy, hfont, hurl⟩
      · exact ih.2 one hrest

/-- What is emitted for font files are their copies. -/
theorem emitted_hostFiles {options : Options} {sizeAdjusted : Bool} {files : List FontFile}
    {hosted : List (FontFile × String)}
    (h : (files.mapM (hostFile call options sizeAdjusted)).run before = (.ok hosted, after)) :
    ∀ name ∈ after.emitted, name ∈ before.emitted ∨
      ∃ one ∈ hosted, Asset.IsFontName name ∧ call.base.url name = one.2 := by
  refine Loader.emitted_mapM (fun file _ start one stop hrun name hname => ?_) h
  obtain ⟨-, copy, hfont, hurl, hemitted⟩ := run_hostFile_eq_ok hrun
  rcases hemitted name hname with hstart | rfl
  · exact Or.inl hstart
  · exact Or.inr ⟨hfont, hurl.symm⟩

/-- **A stylesheet that was hosted refers to all of its files**, if their URLs are separate. -/
theorem refersToFiles_selfHost {options : Options} {url : String} {sizeAdjusted : Bool}
    {css : String}
    (hseparate : ∀ stylesheet after,
      (Loader.fetchStylesheet call url options.family).run before = (.ok (some stylesheet), after) →
        Separate call.base (fontFiles (fontRules stylesheet.toList)
          (if options.preload then some options.subsets else none)))
    (h : (selfHost call options url sizeAdjusted).run before = (.ok css, after)) :
    ∀ name ∈ after.emitted, name ∈ before.emitted ∨ RefersTo call.base css name := by
  unfold selfHost at h
  obtain ⟨stylesheet?, fetched, hfetch, h⟩ := Loader.run_bind_eq_ok h
  cases stylesheet? with
  | none => cases h
  | some stylesheet =>
      obtain ⟨hunbracketed, hapart, hcopies⟩ := hseparate stylesheet fetched hfetch
      dsimp only at h
      generalize hrules : fontRules stylesheet.toList = rules at h hunbracketed hapart hcopies
      generalize hfiles : fontFiles rules (if options.preload then some options.subsets else none) =
        files at h hunbracketed hapart hcopies
      obtain ⟨hosted, last, hhosted, hend⟩ := Loader.run_bind_eq_ok h
      obtain ⟨rfl, rfl⟩ := Loader.run_pure_eq_ok hend
      obtain ⟨rfl, hurls⟩ := of_run_hostFiles hhosted
      have hfetched : fetched.emitted = before.emitted := Loader.emitted_fetchStylesheet hfetch
      intro name hname
      rcases emitted_hostFiles hhosted name hname with
        hbefore | ⟨⟨file, hostedUrl⟩, hone, hfont, rfl⟩
      · exact Or.inl (hfetched ▸ hbefore)
      · refine Or.inr ⟨hfont, ?_⟩
        have hfile : file ∈ hosted.map Prod.fst := List.mem_map_of_mem hone
        obtain ⟨hne, hin⟩ := bracketed_of_mem_fontFiles (hfiles.symm ▸ hfile)
        have hself : replaceUrls file.url.toList hosted = (call.base.url name).toList := by
          refine replaceUrls_self (List.pairwise_map.mp hapart) ?_ hone hne
          intro one hmem other hother
          obtain ⟨copy, hcopy, hurl⟩ := hurls other hother
          rw [hurl]
          exact hcopies one.1 (List.mem_map_of_mem hmem) copy hcopy
        rw [String.toList_ofList, ← hself]
        refine bracketed_replaceUrls (fun one hmem => ?_) hin
        exact hunbracketed one.1 (List.mem_map_of_mem hmem)

/-- The stand-in that a call asks for. -/
def standInOf (call : Call) (options : Options) : Option Loader.Fallback :=
  if options.adjustsFallback then call.world.familyFallback options.family else none

/-- The downloads of a family do not get in each other's way: where the loader would go on with
the stand-in, one that fails does so before a file was emitted, and the URLs of the files are
separate. -/
structure Undisturbed (call : Call) (options : Options) (url : String) (before : State) :
    Prop where
  early : call.isDev = true → ∀ error after,
    (selfHost call options url (standInOf call options).isSome).run before =
      (.error error, after) → after.emitted = before.emitted
  separate : ∀ stylesheet after,
    (Loader.fetchStylesheet call url options.family).run before = (.ok (some stylesheet), after) →
      Separate call.base (fontFiles (fontRules stylesheet.toList)
        (if options.preload then some options.subsets else none))

/-- The downloads of a call do not get in each other's way. -/
def IsUndisturbed (catalog : Catalog) (call : Call) (before : State) : Prop :=
  ∀ options axes, Options.check call.function call.options? catalog = .ok options →
    options.wantedAxes catalog = .ok axes →
      Undisturbed call options (stylesheetUrl options.family axes options.display) before

/-- The files of the stylesheet that a call downloads, if every download succeeds. -/
def downloads? (catalog : Catalog) (call : Call) (before : State) : Option (List FontFile) :=
  match Options.check call.function call.options? catalog with
  | .error _ => none
  | .ok options =>
      match options.wantedAxes catalog with
      | .error _ => none
      | .ok axes =>
          let url := stylesheetUrl options.family axes options.display
          match (selfHost call options url (standInOf call options).isSome).run before,
              (Loader.fetchStylesheet call url options.family).run before with
          | (.ok _, _), (.ok (some stylesheet), _) =>
              some (fontFiles (fontRules stylesheet.toList)
                (if options.preload then some options.subsets else none))
          | _, _ => none

/-- Downloads that all succeed do not get in each other's way if the URLs are separate. -/
theorem isUndisturbed_of_downloads? {catalog : Catalog} {files : List FontFile}
    (h : downloads? catalog call before = some files) (hseparate : Separate call.base files) :
    IsUndisturbed catalog call before := by
  intro options axes hoptions haxes
  unfold downloads? at h
  rw [hoptions] at h
  dsimp only at h
  rw [haxes] at h
  dsimp only at h
  split at h
  · rename_i css after stylesheet fetched hhosted hfetched
    obtain rfl := Option.some_inj.mp h
    refine ⟨fun _ error after hfailed => ?_, fun other after hother => ?_⟩
    · cases hhosted.symm.trans hfailed
    · cases hfetched.symm.trans hother
      exact hseparate
  · cases h

theorem emitted_orFallback {options : Options} {fallback : Option Loader.Fallback}
    {first : Run String} {css : String} {refers : String → String → Prop}
    (hfirst : ∀ css after, first.run before = (.ok css, after) →
      ∀ name ∈ after.emitted, name ∈ before.emitted ∨ refers css name)
    (hearly : call.isDev = true → ∀ error after, first.run before = (.error error, after) →
      after.emitted = before.emitted)
    (h : (orFallback call options fallback first).run before = (.ok css, after)) :
    ∀ name ∈ after.emitted, name ∈ before.emitted ∨ refers css name := by
  unfold orFallback at h
  rcases Loader.run_tryCatch_eq_ok h with hdone | ⟨error, middle, hfailed, hstandIn⟩
  · exact hfirst css after hdone
  · by_cases hdev : call.isDev = true
    · -- The stand-in refers to nothing, so it matters that nothing was emitted.
      have hmiddle : after.emitted = middle.emitted := by
        by_cases hserver : call.isServer = true
        · simp only [hdev, hserver, if_true] at hstandIn
          cases hstandIn
          rfl
        · simp only [hdev, hserver, if_true] at hstandIn
          cases hstandIn
          rfl
      intro name hname
      rw [hmiddle, hearly hdev error middle hfailed] at hname
      exact Or.inl hname
    · simp only [hdev] at hstandIn
      cases hstandIn

/-- **The rules of a family refer to all of its files**, as long as its downloads do not get in
each other's way. -/
theorem refersToFiles_google {catalog : Catalog}
    (hundisturbed : IsUndisturbed catalog call before) :
    RefersToFiles (loader catalog) call before := by
  intro output after h
  unfold loader at h
  obtain ⟨options, checked, hcheck, hrest⟩ := Loader.run_bind_eq_ok h
  obtain ⟨axes, wanted, haxes, hhosting⟩ := Loader.run_bind_eq_ok hrest
  obtain ⟨css, hosted, hcss, hend⟩ := Loader.run_bind_eq_ok hhosting
  obtain ⟨hoptions, rfl⟩ := Loader.run_accept_eq_ok hcheck
  obtain ⟨hwanted, rfl⟩ := Loader.run_accept_eq_ok haxes
  obtain ⟨rfl, rfl⟩ := Loader.run_pure_eq_ok hend
  obtain ⟨hearly, hseparate⟩ := hundisturbed options axes hoptions hwanted
  exact emitted_orFallback (fun css after hrun => refersToFiles_selfHost hseparate hrun) hearly hcss

end Google

end FontHosting
