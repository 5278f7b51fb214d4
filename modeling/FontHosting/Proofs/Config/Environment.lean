import FontHosting.Proofs.Config.Layer

/-!
# Variables that decide fields

The words of a variable are put together to the key of a field, but then the letters of the key
are put in lower case (`path?_variable`).  So the variables of fields of one word decide these
(`decides_oneWord`), and the others come to settings that no field has (`exists_variables`).
-/

namespace FontHosting.Config

open Table (find?)

/-! ## Variables -/

/-- The variable of a field without parts. -/
def Field.variableName? : Field → Option String
  | .root => some "FOB_FONT_ROOT"
  | .basePath => some "FOB_FONT_BASE_PATH"
  | .isDev => some "FOB_FONT_DEV"
  | .minifiesCss => some "FOB_FONT_MINIFY_CSS"
  | .logLevel => some "FOB_FONT_LOG_LEVEL"
  | .remapped | .loaders => none

/-- Whether the variables of an environment that are about fonts are those of fields, and give the
fields what a layer decides. -/
structure Layer.DecidesIn (layer : Layer) (environment : List (String × String)) : Prop where
  distinct : (environment.map Prod.fst).Nodup
  known : ∀ entry ∈ environment, Variable.path? entry.1 = none ∨
    ∃ field : Field, field.variableName? = some entry.1
  decides : ∀ field : Field, Option.Rel field.Reads
    ((field.variableName?.bind fun name => environment.lookup name).map Variable.readValue)
    (layer field)

/-- The key that the variable of a field is read as. -/
def Field.variableKey (field : Field) : String :=
  String.ofList (field.key.toList.map Char.toLower)

theorem path?_variable {field : Field} {name : String} (h : field.variableName? = some name) :
    Variable.path? name = some [field.variableKey] := by
  cases field <;> cases h <;> decide +kernel

theorem Field.variableKey_injective : Function.Injective variableKey := by
  intro first second h
  cases first <;> cases second <;> first | rfl | exact absurd h (by decide)

/-- The key of a variable is in lower case, and no field of several words has it. -/
theorem Field.variableKey_eq_key {first second : Field} (h : first.variableKey = second.key) :
    second.variableKey = second.key := by
  cases second with
  | root | isDev => decide
  | _ => cases first <;> exact absurd h (by decide)

/-- What the variables that give a field come to. -/
def variableEntries (environment : List (String × String)) : List (String × Setting) :=
  environment.filterMap fun (name, value) =>
    match Variable.path? name with
    | some [key] => some (key, Variable.readValue value)
    | _ => none

/-- Variables that give fields are laid over settings one after the other. -/
theorem foldl_variables {environment : List (String × String)}
    (h : ∀ entry ∈ environment, Variable.path? entry.1 = none ∨
      ∃ key, Variable.path? entry.1 = some [key]) (entries : List (String × Setting)) :
    environment.foldl (fun (merged : Setting) (name, value) =>
      match Variable.path? name with
      | some path => merged.merge (Variable.nested path (Variable.readValue value))
      | none => merged) (.table .environment entries) =
        .table .environment (Setting.mergeEntries entries (variableEntries environment)) := by
  induction environment generalizing entries with
  | nil =>
      rw [variableEntries, List.filterMap_nil, Setting.mergeEntries]
      rfl
  | cons entry rest ih =>
      obtain ⟨name, value⟩ := entry
      obtain ⟨hentry, hrest⟩ := List.forall_mem_cons.mp h
      rw [List.foldl_cons]
      rcases hentry with hpath | ⟨key, hpath⟩
      · simp only [hpath, variableEntries, List.filterMap_cons]
        exact ih hrest entries
      · simp only [hpath, variableEntries, List.filterMap_cons, Variable.nested, List.foldr_cons,
          List.foldr_nil, Setting.merge, Setting.mergeEntries_cons, Setting.mergeEntries]
        exact ih hrest _

theorem settings_eq {environment : List (String × String)}
    (h : ∀ entry ∈ environment, Variable.path? entry.1 = none ∨
      ∃ key, Variable.path? entry.1 = some [key]) :
    Variable.settings environment =
      .table .environment (Setting.mergeEntries [] (variableEntries environment)) :=
  foldl_variables h []

theorem source_readValue? {fuel : Nat} {text rest : List Char} {value : Setting}
    (h : Variable.readValue? fuel text = some (value, rest)) : value.source = .environment := by
  cases fuel with
  | zero => cases h
  | succ fuel =>
      obtain ⟨⟨read, left⟩, hread, heq⟩ := Option.bind_eq_some_iff.mp h
      obtain ⟨rfl, -⟩ := Prod.mk.inj (Option.some_inj.mp heq)
      split at hread
      case h_7 => cases hread
      case h_3 | h_4 | h_5 =>
        obtain ⟨_, -, hvalue⟩ := Option.map_eq_some_iff.mp hread
        obtain ⟨rfl, -⟩ := Prod.mk.inj hvalue
        rfl
      all_goals
        obtain ⟨rfl, -⟩ := Prod.mk.inj (Option.some_inj.mp hread)
        rfl

theorem source_readValue (written : String) :
    (Variable.readValue written).source = .environment := by
  unfold Variable.readValue
  dsimp only
  split
  · rename_i hread
    exact source_readValue? hread
  · rfl

section
variable {environment : List (String × String)} {layer : Layer}

theorem mem_variableEntries {entry : String × Setting} (hlayer : layer.DecidesIn environment)
    (h : entry ∈ variableEntries environment) :
    ∃ field : Field, ∃ name value, field.variableName? = some name ∧ (name, value) ∈ environment ∧
      entry = (field.variableKey, Variable.readValue value) := by
  obtain ⟨⟨name, value⟩, hmem, hentry⟩ := List.mem_filterMap.mp h
  rcases hlayer.known _ hmem with hpath | ⟨field, hfield⟩
  · simp [hpath] at hentry
  · simp only [path?_variable hfield, Option.some_inj] at hentry
    exact ⟨field, name, value, hfield, hmem, hentry.symm⟩

theorem find?_variableEntries
    (hknown : ∀ entry ∈ environment, Variable.path? entry.1 = none ∨
      ∃ field : Field, field.variableName? = some entry.1)
    {field : Field} {name : String} (hname : field.variableName? = some name) :
    find? field.variableKey (variableEntries environment) =
      (environment.lookup name).map Variable.readValue := by
  induction environment with
  | nil => rfl
  | cons entry rest ih =>
      obtain ⟨other, value⟩ := entry
      obtain ⟨hentry, hrest⟩ := List.forall_mem_cons.mp hknown
      rw [List.lookup_cons]
      rcases hentry with hpath | ⟨found, hfound⟩
      · have hne : name ≠ other := by
          rintro rfl
          cases hpath.symm.trans (path?_variable hname)
        have hskip : variableEntries ((other, value) :: rest) = variableEntries rest := by
          simp only [variableEntries, List.filterMap_cons, hpath]
        rw [hskip, ih hrest, beq_false_of_ne hne]
      · have htake : variableEntries ((other, value) :: rest) =
            (found.variableKey, Variable.readValue value) :: variableEntries rest := by
          simp only [variableEntries, List.filterMap_cons, path?_variable hfound]
        rw [htake, find?]
        by_cases hfield : field = found
        · subst hfield
          obtain rfl : name = other := Option.some_inj.mp (hname.symm.trans hfound)
          simp
        · have hne : name ≠ other := by
            rintro rfl
            have hpath := (path?_variable hname).symm.trans (path?_variable hfound)
            exact hfield (Field.variableKey_injective (by simpa using hpath))
          rw [if_neg (Field.variableKey_injective.ne hfield), ih hrest, beq_false_of_ne hne]

theorem nodup_variableEntries (hlayer : layer.DecidesIn environment) :
    ((variableEntries environment).map Prod.fst).Nodup := by
  -- two variables of one path would be variables of one field, and so have one name
  have hpaths : environment.Pairwise fun first second =>
      ∀ path, Variable.path? first.1 = some path → Variable.path? second.1 ≠ some path := by
    have hnames : environment.Pairwise fun first second => first.1 ≠ second.1 :=
      List.pairwise_map.mp hlayer.distinct
    refine hnames.imp_of_mem fun {first second} hfirst hsecond hne path hpath hpath' => hne ?_
    rcases hlayer.known _ hfirst with hnone | ⟨field, hfield⟩
    · cases hnone.symm.trans hpath
    rcases hlayer.known _ hsecond with hnone | ⟨other, hother⟩
    · cases hnone.symm.trans hpath'
    have hfound := (path?_variable hfield).symm.trans hpath
    have hfound' := (path?_variable hother).symm.trans hpath'
    obtain rfl : field = other :=
      Field.variableKey_injective (by simpa using hfound.trans hfound'.symm)
    exact Option.some_inj.mp (hfield.symm.trans hother)
  refine List.pairwise_map.mpr (hpaths.filterMap _ fun first second hpair entry hentry other hother
    heq => ?_)
  have hpath : ∀ {given : String × String} {entry : String × Setting},
      (match Variable.path? given.1 with
        | some [key] => some (key, Variable.readValue given.2)
        | _ => none) = some entry → Variable.path? given.1 = some [entry.1] := by
    intro given entry h
    split at h
    · rename_i hfound
      cases h
      exact hfound
    · cases h
  exact hpair _ (hpath hentry) (heq ▸ hpath hother)

theorem Layer.DecidesIn.rel (h : layer.DecidesIn environment) {field : Field} {name : String}
    (hname : field.variableName? = some name) :
    Option.Rel field.Reads (find? field.variableKey (variableEntries environment))
      (layer field) := by
  have hdecides := h.decides field
  rw [find?_variableEntries h.known hname]
  rwa [hname] at hdecides

theorem Layer.DecidesIn.eq_none (h : layer.DecidesIn environment) {field : Field}
    (hname : field.variableName? = none) : layer field = none := by
  have hrel := h.decides field
  rw [hname] at hrel
  generalize layer field = said at hrel ⊢
  cases hrel
  rfl

/-- A field is decided if its variable is set. -/
theorem Layer.DecidesIn.ne_none_iff (h : layer.DecidesIn environment) (field : Field) :
    layer field ≠ none ↔ field.variableKey ∈ (variableEntries environment).map Prod.fst := by
  rw [← Table.find?_isSome_iff]
  cases hname : field.variableName? with
  | some name =>
      have hrel := h.rel hname
      generalize layer field = said at hrel ⊢
      generalize find? field.variableKey (variableEntries environment) = found at hrel ⊢
      cases hrel <;> simp
  | none =>
      refine iff_of_false (fun hne => hne (h.eq_none hname)) fun hfound => ?_
      obtain ⟨entry, hentry, hkey⟩ := List.mem_map.mp (Table.find?_isSome_iff.mp hfound)
      obtain ⟨other, name, value, hother, -, rfl⟩ := mem_variableEntries h hentry
      obtain rfl : other = field := Field.variableKey_injective hkey
      cases hname.symm.trans hother

/-- The fields that a layer decides, without those of several words. -/
def Layer.oneWord (layer : Layer) : Layer :=
  fun field => if field.variableKey = field.key then layer field else none

/-- **Variables decide the fields of one word**, and no others. -/
theorem decides_oneWord (hlayer : layer.DecidesIn environment) :
    layer.oneWord.Decides (variableEntries environment) := by
  intro field
  rw [Layer.oneWord]
  by_cases hword : field.variableKey = field.key
  · rw [if_pos hword]
    cases hname : field.variableName? with
    | some name => exact hword ▸ hlayer.rel hname
    | none =>
        cases field with
        | remapped | loaders => exact absurd hword (by decide)
        | _ => cases hname
  · rw [if_neg hword, Table.find?_eq_none]
    · exact .none
    · intro hmem
      obtain ⟨entry, hentry, hkey⟩ := List.mem_map.mp hmem
      obtain ⟨other, name, value, -, -, rfl⟩ := mem_variableEntries hlayer hentry
      exact hword (Field.variableKey_eq_key hkey)

/-- What the variables of an environment come to. -/
theorem exists_variables (hlayer : layer.DecidesIn environment) : ∃ later,
    Variable.settings environment = .table .environment later ∧ (later.map Prod.fst).Nodup ∧
      layer.oneWord.Decides later ∧
      (∀ field : Field, layer field ≠ none → field.variableKey ∈ later.map Prod.fst) ∧
      ∀ name setting, find? name later = some setting → setting.source = .environment ∧
        ∃ field : Field, layer field ≠ none ∧ name = field.variableKey := by
  have hkeys := nodup_variableEntries hlayer
  have hfind : ∀ name, find? name (Setting.mergeEntries [] (variableEntries environment)) =
      find? name (variableEntries environment) := fun name => by
    rw [Setting.find?_mergeEntries hkeys]
    cases find? name (variableEntries environment) <;> rfl
  refine ⟨_, settings_eq fun entry hentry => ?_, ?_, fun field => ?_, fun field hset => ?_,
    fun name setting hfound => ?_⟩
  · exact (hlayer.known entry hentry).imp_right fun ⟨field, hfield⟩ => ⟨_, path?_variable hfield⟩
  · exact Table.nodup_keys (Setting.pairwise_mergeEntries .nil _)
  · rw [hfind]
    exact decides_oneWord hlayer field
  · rw [Setting.mem_keys_mergeEntries hkeys]
    exact .inr ((hlayer.ne_none_iff field).mp hset)
  · rw [hfind] at hfound
    have hmem := Table.mem_of_find? hfound
    obtain ⟨field, -, value, -, -, heq⟩ := mem_variableEntries hlayer hmem
    obtain ⟨rfl, rfl⟩ := Prod.mk.inj heq
    exact ⟨source_readValue value, field,
      (hlayer.ne_none_iff field).mpr (List.mem_map_of_mem hmem), rfl⟩

end

end FontHosting.Config
