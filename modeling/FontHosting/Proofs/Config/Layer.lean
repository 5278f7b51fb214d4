import FontHosting.Config.Load
import FontHosting.Proofs.Config.Merging
import FontHosting.Proofs.Except
import Mathlib.Data.Option.Basic

/-!
# Layers of a configuration

What one source decides is a layer (`Layer`), and a configuration is what its layers come to, one
laid over the other (`Layer.over`).  The loader does this on settings, before it knows the types of
the fields: it lays tables of settings over each other (`IsGiven.over`) and reads the fields from
the outcome (`ofSettings_eq_ok`), where the first key that is no field ends it
(`ofSettings_eq_error`).
-/

namespace FontHosting.Config

open Table (find?)

/-! ## Fields -/

/-- The fields of a configuration. -/
inductive Field where
  | root
  | basePath
  | isDev
  | remapped
  | loaders
  | minifiesCss
  | logLevel
  deriving DecidableEq, Repr

namespace Field

/-- The key of a field in a file. -/
def key : Field → String
  | .root => "root"
  | .basePath => "basePath"
  | .isDev => "dev"
  | .remapped => "remapImports"
  | .loaders => "fontLoaders"
  | .minifiesCss => "minifyCss"
  | .logLevel => "logLevel"

/-- What a field holds. -/
abbrev Value : Field → Type
  | .root | .basePath | .logLevel => String
  | .isDev | .minifiesCss => Bool
  | .remapped => Table String
  | .loaders => List String

/-- The value of a field. -/
def get (config : Config) : (field : Field) → field.Value
  | .root => config.root
  | .basePath => config.basePath
  | .isDev => config.isDev
  | .remapped => config.remapped
  | .loaders => config.loaders
  | .minifiesCss => config.minifiesCss
  | .logLevel => config.logLevel

/-- A configuration with another value of a field. -/
def put (config : Config) : (field : Field) → field.Value → Config
  | .root, value => { config with root := value }
  | .basePath, value => { config with basePath := value }
  | .isDev, value => { config with isDev := value }
  | .remapped, value => { config with remapped := value }
  | .loaders, value => { config with loaders := value }
  | .minifiesCss, value => { config with minifiesCss := value }
  | .logLevel, value => { config with logLevel := value }

theorem mem_fieldNames_iff {name : String} :
    name ∈ fieldNames ↔ ∃ field : Field, field.key = name := by
  constructor
  · intro h
    simp only [fieldNames, List.mem_cons, List.not_mem_nil, or_false] at h
    rcases h with rfl | rfl | rfl | rfl | rfl | rfl | rfl
    exacts [⟨.root, rfl⟩, ⟨.basePath, rfl⟩, ⟨.isDev, rfl⟩, ⟨.remapped, rfl⟩, ⟨.loaders, rfl⟩,
      ⟨.minifiesCss, rfl⟩, ⟨.logLevel, rfl⟩]
  · rintro ⟨field, rfl⟩
    cases field <;> decide

theorem key_injective : Function.Injective key := by
  intro first second h
  cases first <;> cases second <;> first | rfl | exact absurd h (by decide)

/-- Only the field that is set changes. -/
theorem get_put (config target : Config) (field other : Field) :
    get (put config field (get target field)) other =
      if other = field then get target other else get config other := by
  cases field <;> cases other <;> rfl

theorem ext_get {first second : Config} (h : ∀ field, get first field = get second field) :
    first = second := by
  obtain ⟨root, basePath, isDev, remapped, loaders, minifiesCss, logLevel⟩ := first
  obtain rfl := h .root
  obtain rfl := h .basePath
  obtain rfl := h .isDev
  obtain rfl := h .remapped
  obtain rfl := h .loaders
  obtain rfl := h .minifiesCss
  obtain rfl := h .logLevel
  rfl

end Field

/-! ## Layers -/

/-- What one source decides. -/
abbrev Layer := (field : Field) → Option field.Value

/-- A configuration with a layer laid over it.  To the names of loader modules others are added,
and all other fields are replaced. -/
def Layer.over (layer : Layer) (config : Config) : Config where
  root := (layer .root).getD config.root
  basePath := (layer .basePath).getD config.basePath
  isDev := (layer .isDev).getD config.isDev
  remapped := config.remapped.overlay ((layer .remapped).getD Table.empty)
  loaders := (layer .loaders).getD config.loaders
  minifiesCss := (layer .minifiesCss).getD config.minifiesCss
  logLevel := (layer .logLevel).getD config.logLevel

theorem Layer.get_over (layer : Layer) (config : Config) {field : Field} (h : field ≠ .remapped) :
    field.get (layer.over config) = (layer field).getD (field.get config) := by
  cases field with
  | remapped => exact absurd rfl h
  | _ => rfl

/-! ## Types of fields -/

namespace Setting

/-- The text that a setting is. -/
def text? : Setting → Option String
  | .scalar _ (.text value) => some value
  | .scalar _ (.character value) => some (String.ofList [value])
  | _ => none

/-- The truth value that a setting is. -/
def boolean? : Setting → Option Bool
  | .scalar _ (.boolean value) => some value
  | _ => none

/-- The texts that a setting lists. -/
def texts? : Setting → Option (List String)
  | .list _ items => items.mapM text?
  | _ => none

/-- Whether a setting has the texts of a table under the keys of the table. -/
def IsTable (setting : Setting) (table : Table String) : Prop :=
  ∃ source entries, setting = .table source entries ∧ ∀ key,
    Option.Rel (fun setting value => setting.text? = some value) (find? key entries)
      (table.get? key)

end Setting

/-- Whether a setting has the type of a field, and which value it gives. -/
def Field.Reads : (field : Field) → Setting → field.Value → Prop
  | .root, setting, value | .basePath, setting, value | .logLevel, setting, value =>
      setting.text? = some value
  | .isDev, setting, value | .minifiesCss, setting, value => setting.boolean? = some value
  | .remapped, setting, table => setting.IsTable table
  | .loaders, setting, values => setting.texts? = some values

/-- Whether entries give the fields what a layer decides. -/
def Layer.Decides (layer : Layer) (entries : List (String × Setting)) : Prop :=
  ∀ field : Field, Option.Rel field.Reads (find? field.key entries) (layer field)

/-- Whether a setting gives a field a value. -/
structure Field.IsGiven (field : Field) (setting : Setting) (value : field.Value) : Prop where
  reads : field.Reads setting value
  sorted : setting.IsSorted

/-- Whether entries give every field its value. -/
def IsGiven (entries : List (String × Setting)) (config : Config) : Prop :=
  ∀ field : Field, ∃ setting, find? field.key entries = some setting ∧
    field.IsGiven setting (field.get config)

/-- What is no table replaces whatever there was. -/
theorem Field.Reads.replaces {field : Field} (hfield : field ≠ .remapped) {setting : Setting}
    {value : field.Value} (h : field.Reads setting value) :
    setting.IsSorted ∧ ∀ earlier?, setting.laidOver earlier? = setting := by
  cases setting with
  | scalar | list =>
      refine ⟨nofun, fun earlier? => ?_⟩
      cases earlier? with
      | none => rfl
      | some earlier => rw [Setting.laidOver, Setting.merge]
  | table source entries =>
      cases field with
      | remapped => exact absurd rfl hfield
      | _ => cases h

/-- A table of texts laid over another one. -/
theorem Setting.IsTable.merge {earlier later : Setting} {first second : Table String}
    (hfirst : earlier.IsTable first) (hsorted : later.IsSorted) (hsecond : later.IsTable second) :
    (earlier.merge later).IsTable (first.overlay second) := by
  obtain ⟨source, entries, rfl, hentries⟩ := hfirst
  obtain ⟨source', others, rfl, hothers⟩ := hsecond
  refine ⟨source', Setting.mergeEntries entries others, by rw [Setting.merge], fun key => ?_⟩
  rw [Setting.find?_mergeEntries (Table.nodup_keys (hsorted _ _ rfl)), Table.get?_overlay]
  have hentry := hentries key
  have hother := hothers key
  generalize find? key others = found at hother ⊢
  generalize second.get? key = said at hother ⊢
  cases hother with
  | none => rwa [Option.none_or]
  | @some setting value hread =>
      have htext : Field.root.Reads setting value := hread
      dsimp only
      rw [(htext.replaces (by decide)).2, Option.some_or]
      exact .some hread

theorem Setting.isSorted_merge {earlier later : Setting} (hearlier : earlier.IsSorted)
    (hlater : later.IsSorted) : (earlier.merge later).IsSorted := by
  intro source entries h
  cases later with
  | scalar | list =>
      rw [merge] at h
      cases h
  | table other others =>
      cases earlier with
      | scalar | list =>
          rw [merge] at h
          · cases h
            exact hlater _ _ rfl
          · exact nofun
      | table first firsts =>
          rw [merge] at h
          cases h
          exact pairwise_mergeEntries (hearlier _ _ rfl) others

/-- **A layer laid over settings** gives the settings of the configuration under the layer. -/
theorem IsGiven.over {entries later : List (String × Setting)} {config : Config} {layer : Layer}
    (h : IsGiven entries config) (hkeys : (later.map Prod.fst).Nodup)
    (hsorted : ∀ setting, find? Field.remapped.key later = some setting → setting.IsSorted)
    (hlater : layer.Decides later) :
    IsGiven (Setting.mergeEntries entries later) (layer.over config) := by
  intro field
  obtain ⟨setting, hfound, hgiven⟩ := h field
  have hsetting := hlater field
  rw [Setting.find?_mergeEntries hkeys, hfound]
  -- only one field is a table, and whatever is no table is replaced
  by_cases hfield : field = .remapped
  · subst hfield
    change ∃ setting, _ ∧ Field.remapped.IsGiven setting
      (config.remapped.overlay ((layer .remapped).getD Table.empty))
    generalize find? Field.remapped.key later = found at hsetting hsorted ⊢
    generalize layer .remapped = said at hsetting ⊢
    cases hsetting with
    | none => exact ⟨setting, rfl, hgiven⟩
    | @some other table hread =>
        exact ⟨_, rfl, hgiven.reads.merge (hsorted other rfl) hread,
          Setting.isSorted_merge hgiven.sorted (hsorted other rfl)⟩
  · rw [Layer.get_over _ _ hfield]
    generalize find? field.key later = found at hsetting ⊢
    generalize layer field = said at hsetting ⊢
    cases hsetting with
    | none => exact ⟨setting, rfl, hgiven⟩
    | @some other value hread =>
        obtain ⟨hsorted, hreplaces⟩ := hread.replaces hfield
        exact ⟨_, rfl, (hreplaces _).symm ▸ ⟨hread, hsorted⟩⟩

/-! ## Reading the fields -/

theorem asText_eq_ok {setting : Setting} {value : String} (h : setting.text? = some value)
    (path : List String) (wanted : String) : asText path wanted setting = .ok value := by
  rcases setting with ⟨source, _ | _ | _ | _ | _ | _ | _⟩ | _ | _
  all_goals cases h <;> rfl

theorem asBoolean_eq_ok {setting : Setting} {value : Bool} (h : setting.boolean? = some value)
    (path : List String) : asBoolean path setting = .ok value := by
  rcases setting with ⟨source, _ | _ | _ | _ | _ | _ | _⟩ | _ | _
  all_goals cases h <;> rfl

theorem asTexts_eq_ok {setting : Setting} {values : List String}
    (h : setting.texts? = some values) (path : List String) :
    asTexts path setting = .ok values := by
  cases setting with
  | scalar | table => cases h
  | list source items =>
      have heach : ∀ start, (items.zipIdx start).mapM (fun item =>
          asText (path ++ [toString item.2]) "a string" item.1) = .ok values := by
        induction items generalizing values with
        | nil =>
            cases h
            exact fun _ => rfl
        | cons item rest ih =>
            intro start
            simp only [Setting.texts?, List.mapM_cons, Option.bind_eq_bind, Option.bind_eq_some_iff,
              Option.pure_def, Option.some_inj] at h
            obtain ⟨value, hvalue, others, hothers, rfl⟩ := h
            rw [List.zipIdx_cons, List.mapM_cons, ih hothers]
            dsimp only
            rw [asText_eq_ok hvalue]
            rfl
      exact heach 0

theorem asTable_eq_ok {setting : Setting} {table : Table String} (h : setting.IsTable table)
    (hsorted : setting.IsSorted) (path : List String) : asTable path setting = .ok table := by
  obtain ⟨source, entries, rfl, hentries⟩ := h
  have hsorted := hsorted _ _ rfl
  have heach : ∀ entry ∈ entries, (do
      return (entry.1, ← asText (path ++ [entry.1]) "a string" entry.2) : Except LoadError _) =
        .ok (entry.1, entry.2.text?.getD "") := by
    intro entry hentry
    have hrel := hentries entry.1
    rw [(Table.mem_iff_find? hsorted).mp hentry] at hrel
    generalize table.get? entry.1 = said at hrel
    obtain @⟨_, value, hvalue⟩ | _ := hrel
    rw [asText_eq_ok hvalue, hvalue]
    rfl
  have hrun : asTable path (.table source entries) = (do
      let values ← entries.mapM fun entry => do
        return (entry.1, ← asText (path ++ [entry.1]) "a string" entry.2)
      return Table.ofList values) := rfl
  rw [hrun, mapM_eq_ok heach]
  refine congrArg Except.ok (Table.ext_get? fun key => ?_)
  have hkeys :
      ((entries.map fun entry => (entry.1, entry.2.text?.getD "")).map Prod.fst).Nodup := by
    rw [List.map_map]
    exact Table.nodup_keys hsorted
  rw [Table.get?_ofList_of_nodup hkeys,
    Table.find?_map key (fun setting => setting.text?.getD "") entries]
  have hrel := hentries key
  generalize find? key entries = found at hrel ⊢
  generalize table.get? key = said at hrel ⊢
  obtain @⟨setting, value, hvalue⟩ | _ := hrel
  · rw [Option.map_some, hvalue]
    rfl
  · rfl

/-- A setting of the type of a field sets the field. -/
theorem Field.IsGiven.set_eq {field : Field} {setting : Setting} {value : field.Value}
    (h : field.IsGiven setting value) (config : Config) :
    config.set field.key setting = .ok (field.put config value) := by
  obtain ⟨hreads, hsorted⟩ := h
  cases field with
  | root | basePath | logLevel =>
      simp only [key, Config.set, asText_eq_ok hreads]
      rfl
  | isDev | minifiesCss =>
      simp only [key, Config.set, asBoolean_eq_ok hreads]
      rfl
  | loaders =>
      simp only [key, Config.set, asTexts_eq_ok hreads]
      rfl
  | remapped =>
      simp only [key, Config.set, asTable_eq_ok hreads hsorted]
      rfl

/-- No field is set by any other key. -/
theorem set_unknown {name : String} (h : name ∉ fieldNames) (config : Config) (setting : Setting) :
    config.set name setting = .error (.misfit setting.source [name] (.unknownField name)) := by
  simp only [fieldNames, List.mem_cons, List.not_mem_nil, or_false, not_or] at h
  unfold set
  split <;> simp_all

/-- Settings that give every field its value, and nothing else, are read as the configuration. -/
theorem foldlM_set_eq_ok {entries : List (String × Setting)} {target : Config}
    (h : ∀ entry ∈ entries, ∃ field : Field, field.key = entry.1 ∧
      field.IsGiven entry.2 (field.get target)) (start : Config) :
    ∃ config, entries.foldlM (fun config entry => config.set entry.1 entry.2) start = .ok config ∧
      ∀ field : Field, field.get config =
        if field.key ∈ entries.map Prod.fst then field.get target else field.get start := by
  induction entries generalizing start with
  | nil => exact ⟨start, rfl, fun _ => rfl⟩
  | cons entry rest ih =>
      obtain ⟨⟨field, hkey, hgiven⟩, hrest⟩ := List.forall_mem_cons.mp h
      obtain ⟨config, hconfig, hget⟩ := ih hrest (field.put start (field.get target))
      refine ⟨config, ?_, fun other => ?_⟩
      · rw [List.foldlM_cons, ← hkey, hgiven.set_eq]
        exact hconfig
      · have hmem : other.key ∈ (entry :: rest).map Prod.fst ↔
            other = field ∨ other.key ∈ rest.map Prod.fst := by
          rw [List.map_cons, List.mem_cons, ← hkey, Field.key_injective.eq_iff]
        rw [hget, Field.get_put]
        by_cases hrest : other.key ∈ rest.map Prod.fst
        · rw [if_pos hrest, if_pos (hmem.mpr (.inr hrest))]
        · by_cases hother : other = field
          · rw [if_neg hrest, if_pos hother, if_pos (hmem.mpr (.inl hother))]
          · rw [if_neg hrest, if_neg hother, if_neg (hmem.not.mpr (by simp [hother, hrest]))]

/-- The keys of the settings that give every field its value, and which may be read. -/
theorem IsGiven.of_mem {entries : List (String × Setting)} {config : Config}
    (h : IsGiven entries config) (hsorted : entries.Pairwise fun a b => a.1 < b.1)
    {entry : String × Setting} (hentry : entry ∈ entries) {field : Field}
    (hkey : field.key = entry.1) : field.IsGiven entry.2 (field.get config) := by
  obtain ⟨setting, hfound, hgiven⟩ := h field
  rw [hkey, (Table.mem_iff_find? hsorted).mp hentry] at hfound
  exact Option.some_inj.mp hfound ▸ hgiven

/-- **Settings that give every field its value** are read as the configuration. -/
theorem ofSettings_eq_ok {entries : List (String × Setting)} {config : Config} {source : Source}
    (h : IsGiven entries config) (hsorted : entries.Pairwise fun a b => a.1 < b.1)
    (hknown : ∀ entry ∈ entries, entry.1 ∈ fieldNames) (start : Config) :
    ofSettings start (.table source entries) = .ok config := by
  have heach : ∀ entry ∈ entries, ∃ field : Field, field.key = entry.1 ∧
      field.IsGiven entry.2 (field.get config) := by
    intro entry hentry
    obtain ⟨field, hkey⟩ := Field.mem_fieldNames_iff.mp (hknown entry hentry)
    exact ⟨field, hkey, h.of_mem hsorted hentry hkey⟩
  obtain ⟨outcome, houtcome, hget⟩ := foldlM_set_eq_ok heach start
  obtain rfl : outcome = config := Field.ext_get fun field => by
    obtain ⟨setting, hfound, -⟩ := h field
    rw [hget, if_pos (Table.find?_isSome_iff.mp (hfound ▸ rfl))]
  exact houtcome

theorem foldlM_set_eq_error {entries : List (String × Setting)}
    (h : ∀ entry ∈ entries, entry.1 ∈ fieldNames →
      ∀ before : Config, ∃ after, before.set entry.1 entry.2 = .ok after)
    (hunknown : ∃ entry ∈ entries, entry.1 ∉ fieldNames) (start : Config) :
    ∃ entry ∈ entries, entry.1 ∉ fieldNames ∧
      entries.foldlM (fun config entry => config.set entry.1 entry.2) start =
        .error (.misfit entry.2.source [entry.1] (.unknownField entry.1)) := by
  induction entries generalizing start with
  | nil =>
      obtain ⟨_, hmem, -⟩ := hunknown
      cases hmem
  | cons entry rest ih =>
      obtain ⟨hentry, hrest⟩ := List.forall_mem_cons.mp h
      simp only [List.foldlM_cons]
      by_cases hknown : entry.1 ∈ fieldNames
      · obtain ⟨after, hafter⟩ := hentry hknown start
        obtain ⟨other, hother, hname⟩ := hunknown
        have hother : other ∈ rest := by
          refine (List.mem_cons.mp hother).resolve_left ?_
          rintro rfl
          exact hname hknown
        obtain ⟨first, hfirst, hunknown, herror⟩ := ih hrest ⟨other, hother, hname⟩ after
        exact ⟨first, List.mem_cons_of_mem _ hfirst, hunknown, by rw [hafter]; exact herror⟩
      · exact ⟨entry, List.mem_cons_self, hknown, by rw [set_unknown hknown]; rfl⟩

/-- **The first key that is no field** ends the reading. -/
theorem ofSettings_eq_error {entries : List (String × Setting)} {config : Config} {source : Source}
    (h : IsGiven entries config) (hsorted : entries.Pairwise fun a b => a.1 < b.1)
    (hunknown : ∃ entry ∈ entries, entry.1 ∉ fieldNames) (start : Config) :
    ∃ entry ∈ entries, entry.1 ∉ fieldNames ∧ ofSettings start (.table source entries) =
      .error (.misfit entry.2.source [entry.1] (.unknownField entry.1)) := by
  refine foldlM_set_eq_error (fun entry hentry hknown before => ?_) hunknown start
  obtain ⟨field, hkey⟩ := Field.mem_fieldNames_iff.mp hknown
  rw [← hkey]
  exact ⟨_, (h.of_mem hsorted hentry hkey).set_eq before⟩

/-! ## Defaults -/

theorem sorted_eq_ofList (entries : List (String × Setting)) :
    Setting.sorted entries = (Table.ofList entries).entries := by
  unfold Setting.sorted Table.ofList
  induction entries using List.reverseRecOn with
  | nil => rfl
  | append_singleton entries entry ih =>
      rw [List.foldl_append, List.foldl_append, ih]
      rfl

/-- The settings of a configuration give every field its value. -/
theorem exists_settings (config : Config) : ∃ entries,
    config.settings = .table .defaults entries ∧ entries.Pairwise (fun a b => a.1 < b.1) ∧
      (∀ entry ∈ entries, entry.1 ∈ fieldNames) ∧ IsGiven entries config := by
  refine ⟨_, rfl, Setting.pairwise_sorted _, fun entry hentry => ?_, fun field => ?_⟩
  · have hmem := List.mem_map_of_mem (f := Prod.fst) (Setting.mem_of_mem_sorted hentry)
    exact hmem
  · rw [sorted_eq_ofList]
    change ∃ setting, (Table.ofList _).get? field.key = some setting ∧ _
    have hkeys : fieldNames.Nodup := by decide
    rw [Table.get?_ofList_of_nodup]
    case h => exact hkeys
    cases field with
    | remapped =>
        refine ⟨_, rfl, ⟨_, _, rfl, fun key => ?_⟩, ?_⟩
        · rw [Table.find?_map key (Setting.text .defaults) config.remapped.entries]
          change Option.Rel _ _ (find? key config.remapped.entries)
          cases find? key config.remapped.entries with
          | none => exact .none
          | some value => exact .some rfl
        · rintro _ _ ⟨⟩
          exact List.pairwise_map.mpr config.remapped.sorted
    | loaders =>
        refine ⟨_, rfl, ?_, nofun⟩
        change (config.loaders.map (Setting.text .defaults)).mapM Setting.text? =
          some config.loaders
        induction config.loaders with
        | nil => rfl
        | cons value rest ih =>
            rw [List.map_cons, List.mapM_cons, ih]
            rfl
    | _ => exact ⟨_, rfl, rfl, nofun⟩

end FontHosting.Config
