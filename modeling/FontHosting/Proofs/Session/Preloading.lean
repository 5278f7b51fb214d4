import FontHosting.Proofs.Session.Failure
import FontHosting.Proofs.Session.Landing
import Mathlib.Data.List.Forall2

/-!
# What the names of files tell the manifest

The manifest is given names of files and nothing else.  That a file is to be loaded early, and that
a stand-in was adjusted to it, stands in its name, and the manifest reads both back.  So it tells
of every file what its loader has said of it (`flags_survive_in_names`): the name of a font file
reads back as it was written (`Asset.isPreloadable_name`, `Asset.isSizeAdjusted_name`), whatever the
content and the extension, and the names in a manifest are names that were emitted.

The lists of a manifest hold at any time, since every entry is neat (`neat_traffic`).  The flag is a
matter of the whole run: it is set by a load that lands, and kept until the next reset, when no
stylesheet is left that could set it again (`Flagged`).

A request may be in flight while other operations take place.  Builds in which each request is ended
at once are among these runs (`exists_traffic_built`).
-/

namespace FontHosting

/-! ## Preloadable fonts -/

namespace Manifest

/-- The public URL of an asset is among those that the page of a module should load early. -/
def Preloads (manifest : Manifest) (base : Asset.UrlBase) (path asset : String) : Prop :=
  ∃ fonts, manifest.preloadableFonts base path = some fonts ∧ base.url asset ∈ fonts

theorem preloads_iff {manifest : Manifest} {base : Asset.UrlBase} {path asset : String} :
    manifest.Preloads base path asset ↔ manifest.Lists path asset := by
  constructor
  · rintro ⟨fonts, hfonts, hurl⟩
    obtain ⟨listed, hlists, hsame⟩ := exists_lists_of_mem hfonts hurl
    exact base.url_injective hsame ▸ hlists
  · rintro ⟨entry, hget, hasset⟩
    have hfonts : manifest.preloadableFonts base path = some (sortedOnce (entry.map base.url)) :=
      congrArg (Option.map _) hget
    exact ⟨_, hfonts, mem_sortedOnce.mpr (List.mem_map_of_mem hasset)⟩

end Manifest

namespace Session

open Asset (FontFile)
open Stylesheet (Loaded Request key?)
open Stylesheet.Collection (LoaderRun Started)

variable {project : Project} {session : Session}

/-! ## The flag -/

/-- The flag tells of every stylesheet that is stored. -/
def Flagged (session : Session) : Prop :=
  ∀ key loaded, session.collection.stylesheets.get? key = some loaded →
    loaded.assets.any Asset.isSizeAdjusted = true → session.manifest.isUsingSizeAdjust = true

namespace Flagged

theorem empty : Flagged Session.empty := by
  intro key loaded hget
  cases hget

theorem start (h : Flagged session) (world : Loader.World) (request : Request) :
    Flagged (session.start project world request).1 :=
  fun key loaded hget => h key loaded (stylesheets_start world request ▸ hget)

theorem perform (h : Flagged session) (hkeyed : Keyed session) {operation : Operation}
    (hother : operation.isRequest = false) :
    Flagged (session.perform project operation).session := by
  intro key loaded hget hany
  by_cases hreset : operation = .reset
  · subst hreset
    cases hget
  · rw [(reduces_perform hother hreset).flag]
    exact h key loaded (hkeyed.kept_of_perform hother hget).1 hany

/-- The stylesheet that is received is told of if it stays. -/
theorem receive {key : String} (hkey : key? key = some key) {loaded : Loaded}
    (hget : session.collection.stylesheets.get? key = some loaded)
    (hothers : ∀ other found, other ≠ key →
      session.collection.stylesheets.get? other = some found →
      found.assets.any Asset.isSizeAdjusted = true → session.manifest.isUsingSizeAdjust = true) :
    Flagged (session.receive key loaded).session := by
  intro other found hfound hany
  have hbefore := get?_of_get?_receive hkey hfound
  rw [manifest_receive]
  split
  · rw [Manifest.isUsingSizeAdjust_record, Bool.or_eq_true]
    by_cases hother : other = key
    · subst hother
      obtain rfl := Option.some_inj.mp (hget.symm.trans hbefore)
      exact Or.inr hany
    · exact Or.inl (hothers other found hother hbefore hany)
  · rename_i himported
    rw [receive_of_not_isImported himported] at hfound
    have hdrop := drop_discard_key session hkey
    have hother := (hdrop.get?_eq_some.mp hfound).2
    exact hothers other found (fun hsame => hother (List.mem_singleton.mpr hsame)) hbefore hany

theorem finish (h : Flagged session) {earlier : Session} {world : Loader.World}
    {request : Request} {started : Started}
    (hstarted : (earlier.start project world request).2 = started) :
    Flagged (session.finish request started).session := by
  rcases finish_cases session hstarted with hsame | ⟨key, loaded, hkey, hget, hreceived⟩ |
    ⟨key, loaded, hkey, -, hreceived⟩
  · rwa [hsame]
  · rw [hreceived]
    exact receive hkey hget fun other found _ => h other found
  · rw [hreceived]
    refine receive hkey ((get?_keepMade key).trans (if_pos rfl)) fun other found hother hfound => ?_
    rw [get?_keepMade, if_neg hother] at hfound
    exact h other found hfound

end Flagged

theorem flagged_traffic (project : Project) (moves : List Move) :
    Flagged (traffic project moves).session := by
  have hboth : Keyed (traffic project moves).session ∧ Flagged (traffic project moves).session := by
    refine holds_traffic (fun session => Keyed session ∧ Flagged session) ⟨.empty, .empty⟩
      ?_ ?_ ?_ moves
    · rintro session world request ⟨hkeyed, hflagged⟩
      exact ⟨hkeyed.start world request, hflagged.start world request⟩
    · rintro session operation hother ⟨hkeyed, hflagged⟩
      exact ⟨hkeyed.perform hother, hflagged.perform hkeyed hother⟩
    · rintro session earlier world request started hstarted ⟨hkeyed, hflagged⟩
      exact ⟨hkeyed.finish hstarted, hflagged.finish hstarted⟩
  exact hboth.2

/-- A load since the last reset has emitted a file with an adjusted stand-in. -/
def HasAdjusted (project : Project) (moves : List Move) : Prop :=
  ∃ landing : Landing project, ∃ after, moves = landing.moves ++ after ∧
    Move.perform .reset rfl ∉ after ∧ landing.loaded.assets.any Asset.isSizeAdjusted = true

theorem HasAdjusted.append {moves : List Move} (h : HasAdjusted project moves) {last : Move}
    (hlast : last ≠ .perform .reset rfl) : HasAdjusted project (moves ++ [last]) := by
  obtain ⟨landing, after, rfl, hreset, hadjusted⟩ := h
  refine ⟨landing, after ++ [last], List.append_assoc _ _ _, fun hmem => ?_, hadjusted⟩
  rcases List.mem_append.mp hmem with hmem | hmem
  · exact hreset hmem
  · exact hlast (List.mem_singleton.mp hmem).symm

/-- A load that has adjusted a stand-in sets the flag, and nothing but a reset takes it back. -/
theorem HasAdjusted.isUsingSizeAdjust {moves : List Move} (h : HasAdjusted project moves) :
    (traffic project moves).session.manifest.isUsingSizeAdjust = true := by
  obtain ⟨landing, after, rfl, hreset, hadjusted⟩ := h
  induction after using List.reverseRecOn with
  | nil =>
      rw [List.append_nil, landing.manifest_eq, Manifest.isUsingSizeAdjust_record, hadjusted,
        Bool.or_true]
  | append_singleton after last ih =>
      have hbefore := ih fun hmem => hreset (List.mem_append_left _ hmem)
      rw [← List.append_assoc]
      cases change project (landing.moves ++ after) last with
      | reset hlast _ =>
          exact absurd (List.mem_append_right _ (List.mem_singleton.mpr hlast.symm)) hreset
      | reduced _ hreduces => rw [hreduces.flag, hbefore]
      | again _ _ _ _ hrecord =>
          rw [hrecord, Manifest.isUsingSizeAdjust_record, hbefore, Bool.true_or]
      | landed _ _ _ hrecord =>
          rw [hrecord, Manifest.isUsingSizeAdjust_record, hbefore, Bool.true_or]

/-- **The flag is set exactly if a load since the last reset has adjusted a stand-in.** -/
theorem isUsingSizeAdjust_iff (project : Project) (moves : List Move) :
    (traffic project moves).session.manifest.isUsingSizeAdjust = true ↔
      HasAdjusted project moves := by
  refine ⟨fun h => ?_, HasAdjusted.isUsingSizeAdjust⟩
  induction moves using List.reverseRecOn with
  | nil => cases h
  | append_singleton moves last ih =>
      cases change project moves last with
      | reset _ hempty =>
          rw [hempty] at h
          cases h
      | reduced hlast hreduces => exact (ih (hreduces.flag ▸ h)).append hlast
      | again hlast key loaded hget hrecord =>
          -- a stylesheet that is stored has set the flag when it was made
          have hflag := flagged_traffic project moves key loaded hget
          rw [hrecord, Manifest.isUsingSizeAdjust_record, Bool.or_eq_true] at h
          exact (ih (h.elim id hflag)).append hlast
      | landed hlast landing hmoves hrecord =>
          rw [hrecord, Manifest.isUsingSizeAdjust_record, Bool.or_eq_true] at h
          rcases h with hflag | hadjusted
          · exact (ih hflag).append hlast
          · exact ⟨landing, [], by rw [hmoves, List.append_nil], List.not_mem_nil, hadjusted⟩

/-! ## Names and flags -/

/-- A file that a load has emitted is to be loaded early if it was emitted so. -/
theorem Landing.Emitted.preloads_iff {landing : Landing project} {files : List FontFile}
    (h : landing.Emitted files) {file : FontFile} (hfile : file ∈ files) :
    (traffic project landing.moves).session.manifest.Preloads project.setup.base
      landing.loaded.module file.name ↔ file.preload = true := by
  rw [Manifest.preloads_iff]
  constructor
  · intro hlists
    rw [← Asset.isPreloadable_name]
    exact (neat_traffic project landing.moves).isPreloadable _ _ hlists
  · intro hpreload
    rw [landing.manifest_eq, Manifest.lists_record]
    exact Or.inr ⟨rfl, h.mem_assets.mpr ⟨file, hfile, rfl⟩, by rwa [Asset.isPreloadable_name]⟩

/-- **What a loader says of a file survives in the file's name.**  After any run no entry has
duplicates or lists a file that was not to be loaded early, the fonts of a module are in strictly
ascending order, and the flag is set exactly if a load since the last reset has emitted a file with
an adjusted stand-in.

Right after a load, of the files that its loader has emitted those are among the fonts of the
module that were to be loaded early.  For a font call for files these are all or none, as its
options say. -/
theorem flags_survive_in_names (hhosts : project.setup.HostsFonts) (moves : List Move) :
    let manifest := (traffic project moves).session.manifest
    (∀ path entry, manifest.get? path = some entry → entry.Nodup) ∧
    (∀ path (file : FontFile), manifest.Lists path file.name → file.preload = true) ∧
    (∀ base path fonts, manifest.preloadableFonts base path = some fonts →
      fonts.Pairwise (· < ·)) ∧
    (manifest.isUsingSizeAdjust = true ↔
      ∃ landing : Landing project, ∃ after, moves = landing.moves ++ after ∧
        Move.perform .reset rfl ∉ after ∧
        ∃ files, landing.Emitted files ∧ ∃ file ∈ files, file.sizeAdjusted = true) ∧
    ∀ landing : Landing project, landing.moves = moves →
      (∃ files, landing.Emitted files) ∧
      (∀ files, landing.Emitted files → ∀ file ∈ files,
        (manifest.Preloads project.setup.base landing.loaded.module file.name ↔
          file.preload = true)) ∧
      (landing.run.loader = LocalFont.loader → ∃ options files,
        LocalFont.Options.check landing.run.call.function landing.run.call.options? =
          .ok options ∧
        landing.Emitted files ∧
        List.Forall₂ (fun source file =>
          LocalFont.HostedFor landing.run.call options source file ∧
          (manifest.Preloads project.setup.base landing.loaded.module file.name ↔
            options.preload = true)) options.sources files) := by
  intro manifest
  have hneat : manifest.Neat := neat_traffic project moves
  refine ⟨hneat.nodup, fun path file hlists => ?_,
    fun base path fonts => Manifest.pairwise_preloadableFonts, ⟨fun hflag => ?_, ?_⟩, ?_⟩
  · rw [← Asset.isPreloadable_name]
    exact hneat.isPreloadable path file.name hlists
  · obtain ⟨landing, after, hmoves, hreset, hadjusted⟩ :=
      (isUsingSizeAdjust_iff project moves).mp hflag
    obtain ⟨files, hfiles⟩ := landing.exists_emitted hhosts
    exact ⟨landing, after, hmoves, hreset, files, hfiles, hfiles.any_isSizeAdjusted.mp hadjusted⟩
  · rintro ⟨landing, after, hmoves, hreset, files, hfiles, hadjusted⟩
    exact HasAdjusted.isUsingSizeAdjust
      ⟨landing, after, hmoves, hreset, hfiles.any_isSizeAdjusted.mpr hadjusted⟩
  · rintro landing rfl
    refine ⟨landing.exists_emitted hhosts, fun files hfiles file => hfiles.preloads_iff,
      fun hlocal => ?_⟩
    obtain ⟨options, files, hcheck, hhosted, hfiles⟩ := landing.exists_emitted_local hlocal
    obtain ⟨hlength, hpairs⟩ := List.forall₂_iff_zip.mp hhosted
    refine ⟨options, files, hcheck, hfiles, List.forall₂_iff_zip.mpr ⟨hlength, fun hpair => ?_⟩⟩
    have hsource := hpairs hpair
    refine ⟨hsource, ?_⟩
    rw [hfiles.preloads_iff (List.of_mem_zip hpair).2, hsource.preload]

/-! ### A load of one file

The module asks for a file with the options that a call has if it gives none. -/

/-- A module asks for a font of one file. -/
def oneFileTransform : Operation :=
  .transform "a.js" "import A from \"next-font/local\";const a = A(\x7bsrc: \"a.woff2\"\x7d);"

/-- The request for its stylesheet. -/
def oneFileRequest : Request :=
  ⟨"next-font/local/target.css?path=a.js&import=&arguments=%5B%7B%22src%22%3A%22a.woff2%22%7D%5D&variableName=a",
    "client", false⟩

/-- The moves before the request. -/
def oneFileStart : List Move := [.perform oneFileTransform rfl]

/-- The moves up to its end. -/
def oneFileMoves : List Move := throughFlight oneFileStart (hostingWorld [1]) oneFileRequest []

/-- What the options of a call say: whether its files are to be loaded early, whether a stand-in is
adjusted, and how many there are. -/
def summaryOf? (run : LoaderRun) : Option (Bool × Bool × Nat) :=
  (LocalFont.Options.check run.call.function run.call.options?).toOption.map fun options =>
    (options.preload, options.standIn != .disabled, options.sources.length)

theorem oneFileMoves_run :
    filesOf? (startedAfter localProject oneFileStart (hostingWorld [1]) oneFileRequest) =
        some (oneFileRequest.id, ["a.woff2"]) ∧
      (traffic localProject (oneFileStart ++ [.start (hostingWorld [1])
        oneFileRequest])).session.isImported oneFileRequest.id = true ∧
      ((traffic localProject oneFileStart).session.collection.loaderRun? localProject.setup
        (hostingWorld [1]) oneFileRequest).map summaryOf? = some (some (true, true, 1)) := by
  decide +kernel

/-- The file is among those to be loaded early, and the flag tells of its stand-in. -/
theorem oneFile_is_preloaded :
    localProject.setup.HostsFonts ∧
    (traffic localProject oneFileMoves).session.manifest.isUsingSizeAdjust = true ∧
    ∃ landing : Landing localProject, landing.moves = oneFileMoves ∧
      landing.run.loader = LocalFont.loader ∧
      ∃ file, landing.Emitted [file] ∧
        (traffic localProject oneFileMoves).session.manifest.Preloads localProject.setup.base
          landing.loaded.module file.name := by
  have hhosts : localProject.setup.HostsFonts := by
    intro kind registered hregistered
    obtain rfl := Option.some_inj.mp hregistered
    exact Loader.hostsFonts_local
  obtain ⟨hfiles, himported, hsummary⟩ := oneFileMoves_run
  obtain ⟨loaded, hmade, -⟩ := eq_made_of_filesOf? hfiles
  let landing : Landing localProject := {
    before := oneFileStart, world := hostingWorld [1], request := oneFileRequest, middle := []
    key := oneFileRequest.id, loaded, made := hmade
    inFlight := List.not_mem_nil, imported := himported }
  have hlocal : landing.run.loader = LocalFont.loader := by
    obtain ⟨kind, registered, hregistered, hloader⟩ := landing.makes_run.loader
    rw [← hloader, ← Option.some_inj.mp hregistered]
  obtain ⟨-, -, -, hflag, hlanding⟩ := flags_survive_in_names hhosts oneFileMoves
  obtain ⟨-, -, hcalls⟩ := hlanding landing rfl
  obtain ⟨options, files, hcheck, hemitted, hsources⟩ := hcalls hlocal
  have hrun : (traffic localProject oneFileStart).session.collection.loaderRun?
      localProject.setup (hostingWorld [1]) oneFileRequest = some landing.run :=
    landing.loaderRun?_eq
  rw [hrun, Option.map_some, Option.some_inj, summaryOf?, hcheck] at hsummary
  have hsame : some (options.preload, options.standIn != .disabled, options.sources.length) =
      some (true, true, 1) := hsummary
  obtain ⟨hpreload, hrest⟩ := Prod.mk.inj (Option.some_inj.mp hsame)
  obtain ⟨hadjusted, hlength⟩ := Prod.mk.inj hrest
  rw [hsources.length_eq] at hlength
  obtain ⟨file, rfl⟩ := List.length_eq_one_iff.mp hlength
  obtain ⟨source, -, ⟨hsource, hpreloads⟩, -, -⟩ := List.forall₂_cons_right_iff.mp hsources
  refine ⟨hhosts, hflag.mpr ⟨landing, [], (List.append_nil _).symm, List.not_mem_nil, [file],
    hemitted, file, List.mem_singleton_self file, hsource.sizeAdjusted.trans hadjusted⟩,
    landing, rfl, hlocal, file, hemitted, hpreloads.mpr hpreload⟩

end Session

end FontHosting
