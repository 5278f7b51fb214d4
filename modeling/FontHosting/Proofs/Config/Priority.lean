import FontHosting.Proofs.Config.Environment

/-!
# The priority of the sources

A field has the value that the environment gives it, or else the JSON file, or else the TOML file,
or else its default (`load_lays_sources_over`).  That is so for every field that a file decides and
for the variables of one word.  No field has the key of a variable of several words, and such a
variable ends the loading.
-/

namespace FontHosting.Config

open Table (find?)

/-! ## Files -/

/-- The layer that decides nothing. -/
def Layer.empty : Layer := fun _ => none

/-- Whether a file, if there is one, has only keys of fields, and gives the fields what a layer
decides. -/
def Layer.DecidesFile (layer : Layer) (read : String → Except LoadError Setting)
    (file : Option String) : Prop :=
  match file with
  | none => layer = Layer.empty
  | some text => ∃ source entries, read text = .ok (.table source entries) ∧
      (∀ entry ∈ entries, entry.1 ∈ fieldNames) ∧ layer.Decides entries

/-- Whether a setting gives every field of a configuration its value, and nothing else. -/
def Settles (setting : Setting) (config : Config) : Prop :=
  ∃ source entries, setting = .table source entries ∧
    entries.Pairwise (fun a b => a.1 < b.1) ∧ (∀ entry ∈ entries, entry.1 ∈ fieldNames) ∧
    IsGiven entries config

theorem areSorted_tomlSettings {text : String} {source : Source}
    {entries : List (String × Setting)} (h : tomlSettings text = .ok (.table source entries)) :
    Setting.AreSorted entries := by
  unfold tomlSettings at h
  split at h
  · cases h
    exact Setting.areSorted_ofToml _
  · cases h

theorem areSorted_jsonSettings {text : String} {source : Source}
    {entries : List (String × Setting)} (h : jsonSettings text = .ok (.table source entries)) :
    Setting.AreSorted entries := by
  unfold jsonSettings at h
  split at h
  · cases h
    exact Setting.areSorted_ofJson _
  · cases h

/-- A file is laid over what was settled before. -/
theorem Settles.mergeFile {setting : Setting} {config : Config} (h : Settles setting config)
    {layer : Layer} {read : String → Except LoadError Setting} {file : Option String}
    (hsorted : ∀ text source entries, read text = .ok (.table source entries) →
      Setting.AreSorted entries) (hfile : layer.DecidesFile read file) :
    ∃ merged, Config.mergeFile setting read file = .ok merged ∧
      Settles merged (layer.over config) := by
  cases file with
  | none =>
      obtain rfl : layer = Layer.empty := hfile
      exact ⟨setting, rfl, h⟩
  | some text =>
      obtain ⟨source, later, hread, hknown, hdecides⟩ := hfile
      obtain ⟨first, entries, rfl, hentries, hfields, hgiven⟩ := h
      obtain ⟨hlater, htables⟩ := hsorted _ _ _ hread
      refine ⟨.table source (Setting.mergeEntries entries later), ?_, source, _, rfl,
        Setting.pairwise_mergeEntries hentries later, fun entry hentry => ?_,
        hgiven.over (Table.nodup_keys hlater) (fun setting hfound =>
          htables _ ((Table.mem_iff_find? hlater).mpr hfound)) hdecides⟩
      · rw [Config.mergeFile, hread, Except.map, Setting.merge]
      · have hkey := List.mem_map_of_mem (f := Prod.fst) hentry
        rcases (Setting.mem_keys_mergeEntries (Table.nodup_keys hlater)).mp hkey with
          hkey | hkey
        all_goals obtain ⟨other, hother, heq⟩ := List.mem_map.mp hkey
        · exact heq ▸ hfields other hother
        · exact heq ▸ hknown other hother

/-! ## Loading -/

/-- What the files settle. -/
theorem exists_files {root : String} {sources : Sources} {toml json : Layer}
    (htoml : toml.DecidesFile tomlSettings sources.toml)
    (hjson : json.DecidesFile jsonSettings sources.json) :
    ∃ merged, Settles merged (json.over (toml.over (ofRoot root))) ∧
      mergeSources root sources = .ok (merged.merge (Variable.settings sources.environment)) := by
  obtain ⟨entries, hentries, hsorted, hknown, hgiven⟩ := exists_settings (ofRoot root)
  have hdefaults : Settles (ofRoot root).settings (ofRoot root) :=
    ⟨_, entries, hentries, hsorted, hknown, hgiven⟩
  obtain ⟨first, hfirst, hsettles⟩ :=
    hdefaults.mergeFile (fun _ _ _ => areSorted_tomlSettings) htoml
  obtain ⟨second, hsecond, hsettles⟩ :=
    hsettles.mergeFile (fun _ _ _ => areSorted_jsonSettings) hjson
  refine ⟨second, hsettles, ?_⟩
  rw [mergeSources, hfirst]
  change Except.bind (mergeFile first jsonSettings sources.json) _ = _
  rw [hsecond]
  rfl

theorem load_eq {root : String} {sources : Sources} {merged : Setting} {config : Config}
    (hsources : mergeSources root sources = .ok merged)
    (hread : ofSettings (ofRoot root) merged = .ok config) :
    load root sources = match config.fault? with
      | none => .ok config
      | some problem => .error (.fault problem) := by
  unfold load
  rw [hsources]
  change Except.bind (ofSettings (ofRoot root) merged) _ = _
  rw [hread, Except.bind]
  cases config.fault? <;> rfl

theorem load_eq_error {root : String} {sources : Sources} {merged : Setting} {error : LoadError}
    (hsources : mergeSources root sources = .ok merged)
    (hread : ofSettings (ofRoot root) merged = .error error) :
    load root sources = .error error := by
  unfold load
  rw [hsources]
  change Except.bind (ofSettings (ofRoot root) merged) _ = _
  rw [hread, Except.bind]

/-- Either every variable that is set is of one word, or one of several words ends the loading. -/
theorem load_cases {root : String} {sources : Sources} {toml json environment : Layer}
    (htoml : toml.DecidesFile tomlSettings sources.toml)
    (hjson : json.DecidesFile jsonSettings sources.json)
    (henvironment : environment.DecidesIn sources.environment) :
    let config := environment.oneWord.over (json.over (toml.over (ofRoot root)))
    ((∀ field : Field, environment field ≠ none → field.variableKey = field.key) ∧
      load root sources = match config.fault? with
        | none => .ok config
        | some problem => .error (.fault problem)) ∨
    ∃ field : Field, environment field ≠ none ∧ field.variableKey ≠ field.key ∧
      load root sources =
        .error (.misfit .environment [field.variableKey] (.unknownField field.variableKey)) := by
  intro config
  obtain ⟨merged, ⟨source, entries, rfl, hsorted, hknown, hgiven⟩, hsources⟩ :=
    exists_files htoml hjson
  obtain ⟨later, hsettings, hkeys, hdecides, hset, hfound⟩ := exists_variables henvironment
  have hall : IsGiven (Setting.mergeEntries entries later) config := by
    refine hgiven.over hkeys (fun setting hsetting => ?_) hdecides
    have hnone := hdecides .remapped
    rw [hsetting] at hnone
    cases hnone
  have hsorted := Setting.pairwise_mergeEntries hsorted later
  rw [hsettings, Setting.merge] at hsources
  by_cases hfields : ∀ entry ∈ Setting.mergeEntries entries later, entry.1 ∈ fieldNames
  · refine .inl ⟨fun field hfield => ?_, ?_⟩
    · have hmem : field.variableKey ∈ (Setting.mergeEntries entries later).map Prod.fst :=
        (Setting.mem_keys_mergeEntries hkeys).mpr (.inr (hset field hfield))
      obtain ⟨entry, hentry, hkey⟩ := List.mem_map.mp hmem
      obtain ⟨other, hother⟩ := Field.mem_fieldNames_iff.mp (hfields entry hentry)
      have hsame := hother.trans hkey
      obtain rfl : other = field :=
        Field.variableKey_injective ((Field.variableKey_eq_key hsame.symm).trans hsame)
      exact hsame.symm
    · exact load_eq hsources (ofSettings_eq_ok hall hsorted hfields _)
  · have hunknown : ∃ entry ∈ Setting.mergeEntries entries later, entry.1 ∉ fieldNames := by
      simpa using hfields
    obtain ⟨⟨name, setting⟩, hentry, hunknown, herror⟩ :=
      @ofSettings_eq_error _ _ .environment hall hsorted hunknown (ofRoot root)
    have hmerged := (Table.mem_iff_find? hsorted).mp hentry
    -- the files have fields only, so the key is that of a variable
    have hnone : find? name entries = none := by
      refine Table.find?_eq_none fun hmem => ?_
      obtain ⟨other, hother, heq⟩ := List.mem_map.mp hmem
      exact hunknown (heq ▸ hknown other hother)
    rw [Setting.find?_mergeEntries hkeys, hnone] at hmerged
    cases hlater : find? name later with
    | none =>
        rw [hlater] at hmerged
        cases hmerged
    | some other =>
        rw [hlater] at hmerged
        obtain rfl : other = setting := Option.some_inj.mp hmerged
        obtain ⟨hsource, field, hfield, rfl⟩ := hfound name other hlater
        refine .inr ⟨field, hfield, fun heq => ?_, ?_⟩
        · exact hunknown (Field.mem_fieldNames_iff.mpr ⟨field, heq.symm⟩)
        · rw [load_eq_error hsources herror, hsource]

/-- **The later source decides.**  A field has the value that the environment gives it, or else the
JSON file, or else the TOML file, or else its default, if no variable of several words is set.
Such a variable ends the loading. -/
theorem load_lays_sources_over {root : String} {sources : Sources}
    {toml json environment : Layer} (htoml : toml.DecidesFile tomlSettings sources.toml)
    (hjson : json.DecidesFile jsonSettings sources.json)
    (henvironment : environment.DecidesIn sources.environment) :
    let config := environment.over (json.over (toml.over (ofRoot root)))
    (environment .basePath = none → environment .minifiesCss = none →
      environment .logLevel = none →
      load root sources = match config.fault? with
        | none => .ok config
        | some problem => .error (.fault problem)) ∧
    ∀ field ∈ [Field.basePath, .minifiesCss, .logLevel], environment field ≠ none →
      ∃ name ∈ ["basepath", "minifycss", "loglevel"],
        load root sources = .error (.misfit .environment [name] (.unknownField name)) := by
  intro config
  have hcases := @load_cases root _ _ _ _ htoml hjson henvironment
  refine ⟨fun hbase hminify hlevel => ?_, fun field hfield hset => ?_⟩
  · have hone : ∀ field : Field, environment field ≠ none → field.variableKey = field.key := by
      intro field hset
      cases field with
      | root | isDev => decide
      | basePath => exact absurd hbase hset
      | minifiesCss => exact absurd hminify hset
      | logLevel => exact absurd hlevel hset
      | remapped | loaders => exact absurd (henvironment.eq_none rfl) hset
    have hsame : environment.oneWord = environment := by
      funext field
      rw [Layer.oneWord]
      split
      · rfl
      · rename_i hword
        exact (not_not.mp (mt (hone field) hword)).symm
    rcases hcases with ⟨-, hload⟩ | ⟨field, hset, hword, -⟩
    · rwa [hsame] at hload
    · exact absurd (hone field hset) hword
  · rcases hcases with ⟨hone, -⟩ | ⟨other, hother, hword, hload⟩
    · have hword := hone field hset
      simp only [List.mem_cons, List.not_mem_nil, or_false] at hfield
      rcases hfield with rfl | rfl | rfl
      all_goals exact absurd hword (by decide)
    · refine ⟨other.variableKey, ?_, hload⟩
      cases other with
      | root | isDev => exact absurd rfl hword
      | remapped | loaders => exact absurd (henvironment.eq_none rfl) hother
      | _ => decide

/-- Files and a variable that decide two fields, and a variable that is about something else. -/
def layeredSources : Sources where
  toml := some "root = \"/toml\""
  json := some "\x7b\"basePath\": \"/fonts\"\x7d"
  environment := [("PATH", "/bin"), ("FOB_FONT_ROOT", "/site")]

/-- What the TOML file decides. -/
def rootLayer : Layer
  | .root => some "/toml"
  | _ => none

/-- What the JSON file decides. -/
def fontsLayer : Layer
  | .basePath => some "/fonts"
  | _ => none

/-- What the variables decide. -/
def siteLayer : Layer
  | .root => some "/site"
  | _ => none

/-- The keys of a table with the texts under them. -/
def Setting.entryTexts? : Setting → Option (List (String × Option String))
  | .table _ entries => some (entries.map fun entry => (entry.1, entry.2.text?))
  | _ => none

theorem exists_entry {settings : Except LoadError Setting} {key value : String}
    (h : settings.toOption.bind Setting.entryTexts? = some [(key, some value)]) :
    ∃ source setting, settings = .ok (.table source [(key, setting)]) ∧
      setting.text? = some value := by
  obtain ⟨table, htable, h⟩ := Option.bind_eq_some_iff.mp h
  cases settings with
  | error error => cases htable
  | ok setting =>
      obtain rfl := Option.some_inj.mp htable
      cases setting with
      | scalar | list => cases h
      | table source entries =>
          obtain ⟨⟨name, setting⟩, rest, rfl, hfirst, hrest⟩ :=
            List.map_eq_cons_iff.mp (Option.some_inj.mp h)
          obtain ⟨rfl, hvalue⟩ := Prod.mk.inj hfirst
          exact ⟨source, setting, by rw [List.map_eq_nil_iff.mp hrest], hvalue⟩

/-- What stands in the two files. -/
theorem layeredFiles_read :
    (tomlSettings "root = \"/toml\"").toOption.bind Setting.entryTexts? =
      some [("root", some "/toml")] ∧
    (jsonSettings "\x7b\"basePath\": \"/fonts\"\x7d").toOption.bind Setting.entryTexts? =
      some [("basePath", some "/fonts")] := by
  constructor <;> decide +kernel

theorem rootLayer_decides : rootLayer.DecidesFile tomlSettings layeredSources.toml := by
  obtain ⟨source, setting, hsetting, hvalue⟩ := exists_entry layeredFiles_read.1
  have hknown : "root" ∈ fieldNames := by decide
  refine ⟨source, _, hsetting, List.forall_mem_singleton.mpr hknown, fun field => ?_⟩
  cases field with
  | root => exact .some hvalue
  | _ => exact .none

theorem fontsLayer_decides : fontsLayer.DecidesFile jsonSettings layeredSources.json := by
  obtain ⟨source, setting, hsetting, hvalue⟩ := exists_entry layeredFiles_read.2
  have hknown : "basePath" ∈ fieldNames := by decide
  refine ⟨source, _, hsetting, List.forall_mem_singleton.mpr hknown, fun field => ?_⟩
  cases field with
  | basePath => exact .some hvalue
  | _ => exact .none

theorem siteLayer_decides : siteLayer.DecidesIn layeredSources.environment := by
  refine ⟨by decide, ?_, fun field => ?_⟩
  · refine List.forall_mem_cons.mpr ⟨.inl rfl, ?_⟩
    exact List.forall_mem_singleton.mpr (.inr ⟨.root, rfl⟩)
  · cases field with
    | root => exact .some (show (Variable.readValue "/site").text? = some "/site" from rfl)
    | _ => exact .none

/-- The variable decides about the root, and not the file. -/
theorem layeredSources_are_laid_over :
    rootLayer.DecidesFile tomlSettings layeredSources.toml ∧
      fontsLayer.DecidesFile jsonSettings layeredSources.json ∧
      siteLayer.DecidesIn layeredSources.environment ∧
      load "/project" layeredSources = .ok
        { ofRoot "/site" with basePath := "/fonts" } := by
  refine ⟨rootLayer_decides, fontsLayer_decides, siteLayer_decides, ?_⟩
  exact (load_lays_sources_over rootLayer_decides fontsLayer_decides siteLayer_decides).1
    rfl rfl rfl

/-- A base path that is given by a variable. -/
def basePathSources : Sources where
  toml := none
  json := none
  environment := [("FOB_FONT_BASE_PATH", "/x")]

/-- What the variable decides. -/
def basePathLayer : Layer
  | .basePath => some "/x"
  | _ => none

theorem basePathLayer_decides : basePathLayer.DecidesIn basePathSources.environment := by
  refine ⟨by decide, ?_, fun field => ?_⟩
  · exact List.forall_mem_singleton.mpr (.inr ⟨.basePath, rfl⟩)
  · cases field with
    | basePath => exact .some (show (Variable.readValue "/x").text? = some "/x" from rfl)
    | _ => exact .none

/-- **A base path cannot be given by its variable.** -/
theorem base_path_variable_ends_loading :
    basePathLayer.DecidesIn basePathSources.environment ∧
      (basePathLayer.over (ofRoot "/project")).fault? = none ∧
      load "/project" basePathSources =
        .error (.misfit .environment ["basepath"] (.unknownField "basepath")) := by
  refine ⟨basePathLayer_decides, rfl, ?_⟩
  have hnone : Layer.empty.DecidesFile tomlSettings basePathSources.toml := rfl
  have hnone' : Layer.empty.DecidesFile jsonSettings basePathSources.json := rfl
  rcases @load_cases "/project" _ _ _ _ hnone hnone' basePathLayer_decides with
    ⟨hone, -⟩ | ⟨field, hset, -, hload⟩
  · exact absurd (hone .basePath nofun) (by decide)
  · cases field with
    | basePath => exact hload
    | _ => exact absurd rfl hset

end FontHosting.Config
