import FontHosting.Proofs.Loader.Hosting

/-!
# The files that a loader emits

A state names the files that were emitted, but does not say which of them are to be loaded early
or had a stand-in adjusted to their size.  `Emits` keeps these files while it follows the effects
of a run.  What is named in the end are their names (`Emits.mem_emitted`).

The loaders of the library emit font files only, whatever they are called with and whatever the
world answers (`hostsFonts_google`, `hostsFonts_local`).  The loader of font files emits one file
for each source of its call, with the content that was read for it and as the options say
(`LocalFont.emits_of_loader`).
-/

namespace FontHosting.Loader

open Asset (FontFile UrlBase)

/-! ## Files on the way from one state to another -/

/-- The font files that are emitted between two states, in the order in which they are. -/
inductive Emits (base : UrlBase) (before : State) : List FontFile → State → Prop where
  | start : Emits base before [] before
  /-- Effects that leave the store as it is. -/
  | other {files : List FontFile} {middle after : State} (h : Emits base before files middle)
      (heffects : Effects base middle after) (hstore : after.store = middle.store)
      (hemitted : after.emitted = middle.emitted) : Emits base before files after
  | put {files : List FontFile} {middle : State} (h : Emits base before files middle)
      (file : FontFile) :
      Emits base before (files ++ [file])
        (middle.put base file.content file.extension file.preload file.sizeAdjusted)

namespace Emits

variable {base : UrlBase} {before middle after : State} {files others : List FontFile}

theorem trans (hfirst : Emits base before files middle) (hsecond : Emits base middle others after) :
    Emits base before (files ++ others) after := by
  induction hsecond with
  | start => rwa [List.append_nil]
  | other _ heffects hstore hemitted ih => exact ih.other heffects hstore hemitted
  | put _ file ih =>
      rw [← List.append_assoc]
      exact ih.put file

theorem effects (h : Emits base before files after) : Effects base before after := by
  induction h with
  | start => exact .refl
  | other _ heffects _ _ ih => exact ih.trans heffects
  | put _ file ih => exact ih.tail (.put _ _ _ _ _)

/-- **The names of the files that were emitted are those that a state names.** -/
theorem mem_emitted (h : Emits base before files after) {name : String} :
    name ∈ after.emitted ↔ name ∈ before.emitted ∨ ∃ file ∈ files, file.name = name := by
  induction h with
  | start => simp
  | other _ _ _ hemitted ih => rw [hemitted, ih]
  | put _ file ih =>
      rw [mem_emitted_put, ih, or_assoc]
      refine or_congr_right ?_
      simp only [List.mem_append, List.mem_singleton, or_and_right, exists_or, exists_eq_left]
      exact or_congr_right eq_comm

end Emits

/-! ## Runs -/

/-- A run emits font files only. -/
def EmitsFiles {α : Type} (base : UrlBase) (run : Run α) : Prop :=
  ∀ before, ∃ files, Emits base before files (run.run before).2

/-- A run emits nothing. -/
structure Quiet {α : Type} (base : UrlBase) (run : Run α) : Prop where
  within : Within base run
  store : ∀ before, (run.run before).2.store = before.store
  emitted : ∀ before, (run.run before).2.emitted = before.emitted

section
variable {α β : Type} {base : UrlBase}

theorem Quiet.emits {run : Run α} (h : Quiet base run) (before : State) :
    Emits base before [] (run.run before).2 :=
  .other .start (h.within before) (h.store before) (h.emitted before)

theorem Quiet.emitsFiles {run : Run α} (h : Quiet base run) : EmitsFiles base run :=
  fun before => ⟨[], h.emits before⟩

theorem quiet_pure (value : α) : Quiet base (pure value : Run α) :=
  ⟨within_pure value, fun _ => rfl, fun _ => rfl⟩

theorem quiet_throw (error : Error) : Quiet base (throw error : Run α) :=
  ⟨within_throw error, fun _ => rfl, fun _ => rfl⟩

theorem emitsFiles_bind {first : Run α} {next : α → Run β} (hfirst : EmitsFiles base first)
    (hnext : ∀ value, EmitsFiles base (next value)) : EmitsFiles base (first >>= next) := by
  intro before
  obtain ⟨files, hfiles⟩ := hfirst before
  rw [run_bind]
  rcases hran : first.run before with ⟨error | value, middle⟩
  · rw [hran] at hfiles
    exact ⟨files, hfiles⟩
  · rw [hran] at hfiles
    obtain ⟨others, hothers⟩ := hnext value middle
    exact ⟨files ++ others, hfiles.trans hothers⟩

theorem emitsFiles_tryCatch {first : Run α} {handler : Error → Run α}
    (hfirst : EmitsFiles base first) (hhandler : ∀ error, EmitsFiles base (handler error)) :
    EmitsFiles base (tryCatch first handler) := by
  intro before
  obtain ⟨files, hfiles⟩ := hfirst before
  rw [run_tryCatch]
  rcases hran : first.run before with ⟨error | value, middle⟩
  · rw [hran] at hfiles
    obtain ⟨others, hothers⟩ := hhandler error middle
    exact ⟨files ++ others, hfiles.trans hothers⟩
  · rw [hran] at hfiles
    exact ⟨files, hfiles⟩

end

/-! ## The functions of a call -/

section
variable {base : UrlBase} (call : Call)

theorem quiet_resolve (source : String) : Quiet base (resolve call source) :=
  ⟨within_resolve call source, fun _ => rfl, fun _ => rfl⟩

theorem quiet_report (message : String) : Quiet base (report message) :=
  ⟨within_report message, fun _ => rfl, fun _ => rfl⟩

theorem quiet_readFile (path : String) : Quiet base (readFile call path) := by
  refine ⟨within_readFile call path, fun before => ?_, fun before => ?_⟩ <;>
    rw [run_readFile] <;> cases call.world.file before.log path <;> rfl

theorem quiet_fetchStylesheet (url family : String) :
    Quiet base (fetchStylesheet call url family) := by
  refine ⟨within_fetchStylesheet call url family, fun before => ?_, fun before => ?_⟩ <;>
    rcases hran : (fetchStylesheet call url family).run before with ⟨_, after⟩ <;> cases hran <;>
    dsimp only <;> split <;> rfl

theorem quiet_fetchFont (url : String) : Quiet base (fetchFont call url) := by
  refine ⟨within_fetchFont call url, fun before => ?_, fun before => ?_⟩ <;>
    rcases hran : (fetchFont call url).run before with ⟨_, after⟩ <;> cases hran <;>
    dsimp only <;> split <;> rfl

/-- Emitting a file emits this one. -/
theorem emits_emit (file : FontFile) (before : State) :
    Emits call.base before [file]
      ((emit call file.content file.extension file.preload file.sizeAdjusted).run before).2 := by
  let told := if call.isDev then before else before.tell (.emit file.name file.content)
  have htold : Emits call.base before [] told := by
    unfold told
    split
    · exact .start
    · exact Emits.start.other (.single (.tell before _)) rfl rfl
  exact htold.put file

/-- What is put together from the functions of a call emits font files only. -/
theorem closed_emitsFiles : Closed call (EmitsFiles call.base) where
  pure value := (quiet_pure value).emitsFiles
  throw error := (quiet_throw error).emitsFiles
  bind := emitsFiles_bind
  tryCatch := emitsFiles_tryCatch
  emit content extension hextension preload sizeAdjusted before :=
    ⟨_, emits_emit call ⟨content, extension, hextension, preload, sizeAdjusted⟩ before⟩
  resolve source := (quiet_resolve call source).emitsFiles
  report message := (quiet_report message).emitsFiles
  readFile path := (quiet_readFile call path).emitsFiles
  fetchStylesheet url family := (quiet_fetchStylesheet call url family).emitsFiles
  fetchFont url := (quiet_fetchFont call url).emitsFiles

end

/-! ## The loaders -/

/-- A loader emits font files only. -/
def HostsFonts (loader : FontLoader) : Prop :=
  ∀ call, EmitsFiles call.base (loader call)

theorem HostsFonts.confined {loader : FontLoader} (h : HostsFonts loader) : Confined loader := by
  intro call before
  obtain ⟨files, hfiles⟩ := h call before
  exact hfiles.effects

/-- Whatever a run emits has the name of a font file. -/
def EmitsFonts {α : Type} (run : Run α) : Prop :=
  ∀ before, ∀ name ∈ (run.run before).2.emitted, name ∈ before.emitted ∨ Asset.IsFontName name

theorem HostsFonts.emitsFonts {loader : FontLoader} (h : HostsFonts loader) (call : Call) :
    EmitsFonts (loader call) := by
  intro before name hname
  obtain ⟨files, hfiles⟩ := h call before
  refine (hfiles.mem_emitted.mp hname).imp_right ?_
  rintro ⟨file, -, rfl⟩
  exact ⟨file.content, file.extension, file.isFont, file.preload, file.sizeAdjusted, rfl⟩

/-- **The loader of font families emits font files only.** -/
theorem hostsFonts_google (catalog : Google.Catalog) : HostsFonts (Google.loader catalog) :=
  fun call => (closed_emitsFiles call).google catalog

/-- **So does the loader of font files.** -/
theorem hostsFonts_local : HostsFonts LocalFont.loader :=
  fun call => (closed_emitsFiles call).files

end FontHosting.Loader

/-! ## Fonts from files -/

namespace FontHosting.LocalFont

open Asset (FontFile)
open Loader (Call Emits Output State)

/-- A file is emitted for a source: with the content that was read from its path, and as the
options say. -/
structure HostedFor (call : Call) (options : Options) (source : Source) (file : FontFile) :
    Prop where
  content : ∃ log, call.world.file log (call.resolve source.path) = .ok file.content
  extension : file.extension = source.extension
  preload : file.preload = options.preload
  sizeAdjusted : file.sizeAdjusted = (options.standIn != .disabled)

variable {call : Call} {options : Options} {before after : State}

theorem emits_of_hostSource {source : Source} (hextension : source.extension ∈ Asset.fontExtensions)
    {hosted : String × Asset.Bytes}
    (h : (hostSource call options source).run before = (.ok hosted, after)) :
    ∃ file, HostedFor call options source file ∧ Emits call.base before [file] after ∧
      hosted.1 = renderFace
        (faceDeclarations options call.variableName (call.base.url file.name) source) := by
  unfold hostSource at h
  obtain ⟨path, resolved, hresolve, h⟩ := Loader.run_bind_eq_ok h
  obtain ⟨content, read, hread, h⟩ := Loader.run_bind_eq_ok h
  obtain ⟨url, emitted, hemit, h⟩ := Loader.run_bind_eq_ok h
  obtain ⟨rfl, rfl⟩ := Loader.run_pure_eq_ok h
  let file : FontFile :=
    ⟨content, source.extension, hextension, options.preload, options.standIn != .disabled⟩
  obtain rfl : path = call.resolve source.path := by
    cases hresolve
    rfl
  have hcontent : call.world.file resolved.log (call.resolve source.path) = .ok content := by
    rw [Loader.run_readFile] at hread
    cases hfile : call.world.file resolved.log (call.resolve source.path) with
    | ok found =>
        rw [hfile] at hread
        rw [(Loader.run_pure_eq_ok hread).1]
    | error reason =>
        rw [hfile] at hread
        cases hread
  have hquiet : Emits call.base before [] read := by
    have hfirst : Emits call.base before [] _ :=
      (Loader.quiet_resolve call source.path).emits before
    have hsecond : Emits call.base resolved [] _ :=
      (Loader.quiet_readFile call (call.resolve source.path)).emits resolved
    rw [hresolve] at hfirst
    rw [hread] at hsecond
    exact hfirst.trans hsecond
  have hfile := Loader.emits_emit call file read
  have hurl := (Loader.run_emit_eq_ok hemit).1
  rw [hemit] at hfile
  exact ⟨file, ⟨⟨_, hcontent⟩, rfl, rfl, rfl⟩, hquiet.trans hfile, by rw [hurl]; rfl⟩

/-- The rules of some sources whose files are emitted under these names. -/
def rulesOf (call : Call) (options : Options) (sources : List Source) (files : List FontFile) :
    List String :=
  List.zipWith (fun source file => renderFace
    (faceDeclarations options call.variableName (call.base.url file.name) source)) sources files

theorem emits_of_hostSources {sources : List Source}
    (hextension : ∀ source ∈ sources, source.extension ∈ Asset.fontExtensions)
    {hosted : List (String × Asset.Bytes)}
    (h : (sources.mapM (hostSource call options)).run before = (.ok hosted, after)) :
    ∃ files, List.Forall₂ (HostedFor call options) sources files ∧
      Emits call.base before files after ∧
      hosted.map Prod.fst = rulesOf call options sources files := by
  induction sources generalizing before hosted with
  | nil =>
      obtain ⟨rfl, rfl⟩ := Loader.run_pure_eq_ok h
      exact ⟨[], .nil, .start, rfl⟩
  | cons source rest ih =>
      rw [List.mapM_cons] at h
      obtain ⟨first, middle, hfirst, h⟩ := Loader.run_bind_eq_ok h
      obtain ⟨others, last, hrest, h⟩ := Loader.run_bind_eq_ok h
      obtain ⟨rfl, rfl⟩ := Loader.run_pure_eq_ok h
      obtain ⟨file, hfile, hemits, hrule⟩ :=
        emits_of_hostSource (hextension source List.mem_cons_self) hfirst
      obtain ⟨files, hfiles, hemitsRest, hrules⟩ :=
        ih (fun other hother => hextension other (List.mem_cons_of_mem _ hother)) hrest
      refine ⟨file :: files, .cons hfile hfiles, hemits.trans hemitsRest, ?_⟩
      rw [List.map_cons, hrule, hrules]
      rfl

/-- **The loader of font files emits one file for each source**, and the rule of a source has the
URL of its file. -/
theorem emits_of_loader {output : Output}
    (h : (loader call).run before = (.ok output, after)) :
    ∃ options files, Options.check call.function call.options? = .ok options ∧
      List.Forall₂ (HostedFor call options) options.sources files ∧
      Emits call.base before files after ∧
      output.css = "\n".intercalate (rulesOf call options options.sources files) := by
  unfold loader at h
  obtain ⟨options, accepted, haccept, hrest⟩ := Loader.run_bind_eq_ok h
  obtain ⟨hosted, last, hhosted, hend⟩ := Loader.run_bind_eq_ok hrest
  obtain ⟨hcheck, rfl⟩ := Loader.run_accept_eq_ok haccept
  obtain ⟨rfl, rfl⟩ := Loader.run_pure_eq_ok hend
  obtain ⟨files, hfiles, hemits, hrules⟩ :=
    emits_of_hostSources (extension_of_check hcheck) hhosted
  refine ⟨options, files, hcheck, hfiles, hemits, ?_⟩
  rw [← hrules]

end FontHosting.LocalFont
