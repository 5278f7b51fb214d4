import FontHosting.Proofs.Text.Percent
import FontHosting.Stylesheet.Id
import Mathlib.Data.List.Basic
import Mathlib.Data.List.TakeWhile

/-!
# Keys of stylesheets

A name may be written in many ways; its key is written in one.  Three facts carry
everything that is said about keys elsewhere:

* `firstValue?_normalize`: the fields of a name survive its normalisation, so the
  call behind a name can be read off the key (`read?_queryPart_key`);
* `key?_key`: a key is its own key;
* `read?_render`: what a name was rendered from is read back, so the key of an import
  tells the module that imports it (`read?_key_render`).

A name with a second `?` directly behind its first one is read differently by
`Query.read?`, which takes one mark off, and by `normalize`, which takes off all of
them.  Such names are set apart by `HasRepeatedMark`.
-/

namespace FontHosting.Stylesheet

open Text.Percent (queryPairs IsPlainKey queryPairs_render)

/-- Whether a second `?` stands directly behind the first one of a name. -/
def HasRepeatedMark (id : String) : Prop :=
  ['?', '?'].isPrefixOf (queryPart id.toList) = true

instance (id : String) : Decidable (HasRepeatedMark id) :=
  inferInstanceAs (Decidable (_ = true))

/-! ## The two parts of a name -/

theorem notMem_pathPart (id : List Char) : '?' ∉ pathPart id := by
  intro hmem
  simpa using List.mem_takeWhile_imp hmem

theorem pathPart_append_queryPart (id : List Char) : pathPart id ++ queryPart id = id :=
  List.takeWhile_append_dropWhile

/-- The query part is empty, or it starts with the first `?`. -/
theorem queryPart_cases (id : List Char) :
    queryPart id = [] ∨ ∃ rest, queryPart id = '?' :: rest := by
  cases hquery : queryPart id with
  | nil => exact Or.inl rfl
  | cons c rest =>
      have hne : queryPart id ≠ [] := by simp [hquery]
      have hfirst := List.head_dropWhile_not (fun c : Char => c != '?') (l := id) hne
      have hc : c = '?' := by
        simpa [show List.dropWhile (fun c : Char => c != '?') id = c :: rest from hquery]
          using hfirst
      exact Or.inr ⟨rest, by rw [hc]⟩

theorem pathPart_append {path : List Char} (hpath : '?' ∉ path) {query : List Char}
    (hquery : query = [] ∨ ∃ rest, query = '?' :: rest) : pathPart (path ++ query) = path := by
  have hall : ∀ c ∈ path, (c != '?') = true := by
    intro c hc
    have : c ≠ '?' := fun heq => hpath (heq ▸ hc)
    simpa using this
  unfold pathPart
  rw [List.takeWhile_append_of_pos hall]
  rcases hquery with rfl | ⟨rest, rfl⟩ <;> simp

theorem queryPart_append {path : List Char} (hpath : '?' ∉ path) {query : List Char}
    (hquery : query = [] ∨ ∃ rest, query = '?' :: rest) : queryPart (path ++ query) = query := by
  have hall : ∀ c ∈ path, (c != '?') = true := by
    intro c hc
    have : c ≠ '?' := fun heq => hpath (heq ▸ hc)
    simpa using this
  unfold queryPart
  rw [List.dropWhile_append_of_pos hall]
  rcases hquery with rfl | ⟨rest, rfl⟩ <;> simp

/-! ## Fields -/

/-- The pairs that stand behind the marks of a name. -/
def pairsOf (id : List Char) : List (List Char × List Char) :=
  queryPairs ((queryPart id).dropWhile (· == '?'))

/-- The fields that are found among pairs, in the order in which they are written. -/
def fieldsOf (pairs : List (List Char × List Char)) : List (String × List Char) :=
  fieldKeys.filterMap fun key => (firstValue? pairs key).map fun value => (key, value)

/-- Fields as they stand behind the `?` of a name. -/
def renderFields (fields : List (String × List Char)) : List Char :=
  Text.join ['&'] (fields.map fun field => renderField field.1 field.2)

theorem isPlainKey_of_mem : ∀ key ∈ fieldKeys, IsPlainKey key.toList := by
  simp only [fieldKeys, List.forall_mem_cons, IsPlainKey]
  decide

theorem mem_fieldKeys_of_mem_fieldsOf {pairs : List (List Char × List Char)}
    {field : String × List Char} (h : field ∈ fieldsOf pairs) : field.1 ∈ fieldKeys := by
  obtain ⟨key, hkey, hfield⟩ := List.mem_filterMap.mp h
  obtain ⟨value, -, rfl⟩ := Option.map_eq_some_iff.mp hfield
  exact hkey

theorem queryPairs_renderFields {fields : List (String × List Char)}
    (hkeys : ∀ field ∈ fields, field.1 ∈ fieldKeys) :
    queryPairs (renderFields fields) = fields.map fun field => (field.1.toList, field.2) := by
  have hplain : ∀ pair ∈ fields.map fun field => (field.1.toList, field.2),
      IsPlainKey pair.1 := by
    intro pair hpair
    obtain ⟨field, hfield, rfl⟩ := List.mem_map.mp hpair
    exact isPlainKey_of_mem field.1 (hkeys field hfield)
  have hrender := queryPairs_render hplain
  rw [List.map_map] at hrender
  exact hrender

/-- Looking a key up by its characters is looking it up. -/
theorem firstValue?_map (fields : List (String × List Char)) (key : String) :
    firstValue? (fields.map fun field => (field.1.toList, field.2)) key = fields.lookup key := by
  unfold firstValue?
  induction fields with
  | nil => rfl
  | cons field others ih =>
      obtain ⟨name, value⟩ := field
      have hsame : (key.toList == name.toList) = (key == name) := by
        by_cases heq : key = name <;> simp [heq, String.toList_inj]
      simp only [List.map_cons, List.lookup_cons, hsame, ih]

private theorem lookup_filterMap (value? : String → Option (List Char)) (keys : List String)
    (key : String) :
    (keys.filterMap fun key => (value? key).map fun value => (key, value)).lookup key =
      if key ∈ keys then value? key else none := by
  induction keys with
  | nil => rfl
  | cons first others ih =>
      by_cases heq : key = first
      · subst heq
        cases hvalue : value? key with
        | some value => simp [hvalue]
        | none => simp only [List.filterMap_cons, hvalue, Option.map_none, ih, ite_self]
      · have hne : (key == first) = false := by simpa using heq
        cases hvalue : value? first <;> simp [hvalue, List.lookup_cons, hne, ih, heq]

theorem firstValue?_fieldsOf (pairs : List (List Char × List Char)) {key : String}
    (hkey : key ∈ fieldKeys) :
    firstValue? ((fieldsOf pairs).map fun field => (field.1.toList, field.2)) key =
      firstValue? pairs key := by
  rw [firstValue?_map, fieldsOf, lookup_filterMap, if_pos hkey]

/-! ## Normalisation -/

/-- What follows the path of a normal name: nothing, or its fields behind a `?`. -/
def renderQuery (fields : List (String × List Char)) : List Char :=
  if fields.isEmpty then [] else '?' :: renderFields fields

theorem normalize_eq (id : List Char) :
    normalize id = pathPart id ++ renderQuery (fieldsOf (pairsOf id)) := by
  have hkept : (fieldKeys.filterMap fun key =>
      (firstValue? (pairsOf id) key).map (renderField key)) =
      (fieldsOf (pairsOf id)).map fun field => renderField field.1 field.2 := by
    simp only [fieldsOf, List.map_filterMap, Option.map_map, Function.comp_def]
  unfold normalize renderQuery
  rw [← pairsOf]
  dsimp only
  rw [hkept]
  cases hfields : fieldsOf (pairsOf id) with
  | nil => simp
  | cons field others => simp [renderFields]

theorem renderQuery_cases (fields : List (String × List Char)) :
    renderQuery fields = [] ∨ ∃ rest, renderQuery fields = '?' :: rest := by
  unfold renderQuery
  split
  · exact Or.inl rfl
  · exact Or.inr ⟨_, rfl⟩

/-- Rendered fields do not start with a mark, since their keys do not. -/
theorem dropWhile_renderQuery {fields : List (String × List Char)}
    (hkeys : ∀ field ∈ fields, field.1 ∈ fieldKeys) :
    (renderQuery fields).dropWhile (· == '?') = renderFields fields := by
  cases fields with
  | nil => rfl
  | cons field others =>
      have hfirst : ∀ key ∈ fieldKeys, ∃ c rest, key.toList = c :: rest ∧ (c == '?') = false := by
        simp only [fieldKeys, List.forall_mem_cons]
        exact ⟨⟨'p', _, rfl, rfl⟩, ⟨'i', _, rfl, rfl⟩, ⟨'a', _, rfl, rfl⟩, ⟨'v', _, rfl, rfl⟩,
          List.forall_mem_nil _⟩
      obtain ⟨c, rest, hkey, hc⟩ := hfirst field.1 (hkeys field List.mem_cons_self)
      have hstart : ∃ more, renderFields (field :: others) = c :: more := by
        cases others with
        | nil => simp [renderFields, Text.join, renderField, hkey]
        | cons second others => simp [renderFields, Text.join, renderField, hkey]
      obtain ⟨more, hmore⟩ := hstart
      simp [renderQuery, hmore, hc]

theorem pathPart_normalize (id : List Char) : pathPart (normalize id) = pathPart id := by
  rw [normalize_eq, pathPart_append (notMem_pathPart id) (renderQuery_cases _)]

theorem queryPart_normalize (id : List Char) :
    queryPart (normalize id) = renderQuery (fieldsOf (pairsOf id)) := by
  rw [normalize_eq, queryPart_append (notMem_pathPart id) (renderQuery_cases _)]

theorem pairsOf_normalize (id : List Char) :
    pairsOf (normalize id) =
      (fieldsOf (pairsOf id)).map fun field => (field.1.toList, field.2) := by
  have hkeys : ∀ field ∈ fieldsOf (pairsOf id), field.1 ∈ fieldKeys :=
    fun field => mem_fieldKeys_of_mem_fieldsOf
  rw [pairsOf, queryPart_normalize, dropWhile_renderQuery hkeys, queryPairs_renderFields hkeys]

/-- **The fields of a name survive its normalisation.** -/
theorem firstValue?_normalize (id : List Char) {key : String} (hkey : key ∈ fieldKeys) :
    firstValue? (pairsOf (normalize id)) key = firstValue? (pairsOf id) key := by
  rw [pairsOf_normalize, firstValue?_fieldsOf _ hkey]

theorem fieldsOf_pairsOf_normalize (id : List Char) :
    fieldsOf (pairsOf (normalize id)) = fieldsOf (pairsOf id) := by
  unfold fieldsOf
  apply List.filterMap_congr
  intro key hkey
  rw [firstValue?_normalize id hkey]

theorem normalize_normalize (id : List Char) : normalize (normalize id) = normalize id := by
  rw [normalize_eq, pathPart_normalize, fieldsOf_pairsOf_normalize, ← normalize_eq]

/-! ## Keys -/

theorem notMem_targetPath (kind : LoaderKind) : '?' ∉ kind.targetPath.toList := by
  cases kind <;> decide

theorem ofTargetPath?_targetPath (kind : LoaderKind) :
    LoaderKind.ofTargetPath? kind.targetPath.toList = some kind := by
  cases kind <;> decide

/-- A key is the normal name of a stylesheet right below the path of its loader. -/
theorem key?_eq_some_iff {id key : String} :
    key? id = some key ↔ ∃ kind, LoaderKind.ofTargetPath? (pathPart id.toList) = some kind ∧
      key.toList = kind.targetPath.toList ++ renderQuery (fieldsOf (pairsOf id.toList)) := by
  have hnormal : ∀ kind : LoaderKind,
      normalize (kind.targetPath.toList ++ queryPart id.toList) =
        kind.targetPath.toList ++ renderQuery (fieldsOf (pairsOf id.toList)) := by
    intro kind
    have hquery := queryPart_cases id.toList
    rw [normalize_eq, pathPart_append (notMem_targetPath kind) hquery, pairsOf,
      queryPart_append (notMem_targetPath kind) hquery, ← pairsOf]
  unfold key?
  rw [Option.map_eq_some_iff]
  constructor
  · rintro ⟨kind, hkind, rfl⟩
    exact ⟨kind, hkind, by rw [String.toList_ofList, hnormal]⟩
  · rintro ⟨kind, hkind, hkey⟩
    exact ⟨kind, hkind, by rw [hnormal, ← hkey, String.ofList_toList]⟩

theorem pathPart_key {id key : String} (h : key? id = some key) :
    ∃ kind, LoaderKind.ofTargetPath? (pathPart id.toList) = some kind ∧
      pathPart key.toList = kind.targetPath.toList := by
  obtain ⟨kind, hkind, hkey⟩ := key?_eq_some_iff.mp h
  exact ⟨kind, hkind, by rw [hkey, pathPart_append (notMem_targetPath kind) (renderQuery_cases _)]⟩

theorem queryPart_key {id key : String} (h : key? id = some key) :
    queryPart key.toList = renderQuery (fieldsOf (pairsOf id.toList)) := by
  obtain ⟨kind, -, hkey⟩ := key?_eq_some_iff.mp h
  rw [hkey, queryPart_append (notMem_targetPath kind) (renderQuery_cases _)]

/-- The fields of a key are those of the name. -/
theorem pairsOf_key {id key : String} (h : key? id = some key) :
    pairsOf key.toList =
      (fieldsOf (pairsOf id.toList)).map fun field => (field.1.toList, field.2) := by
  have hkeys : ∀ field ∈ fieldsOf (pairsOf id.toList), field.1 ∈ fieldKeys :=
    fun field => mem_fieldKeys_of_mem_fieldsOf
  rw [pairsOf, queryPart_key h, dropWhile_renderQuery hkeys, queryPairs_renderFields hkeys]

theorem firstValue?_key {id key : String} (h : key? id = some key) {field : String}
    (hfield : field ∈ fieldKeys) :
    firstValue? (pairsOf key.toList) field = firstValue? (pairsOf id.toList) field := by
  rw [pairsOf_key h, firstValue?_fieldsOf _ hfield]

/-- **A key is its own key.** -/
theorem key?_key {id key : String} (h : key? id = some key) : key? key = some key := by
  obtain ⟨kind, hkind, hpath⟩ := pathPart_key h
  have hfields : fieldsOf (pairsOf key.toList) = fieldsOf (pairsOf id.toList) :=
    List.filterMap_congr fun field hfield => by rw [firstValue?_key h hfield]
  refine key?_eq_some_iff.mpr ⟨kind, ?_, ?_⟩
  · rw [hpath, ofTargetPath?_targetPath]
  · rw [hfields, ← queryPart_key h, ← hpath, pathPart_append_queryPart]

/-! ## The call behind a key -/

/-- The query that the first values of the four keys make. -/
def queryOf? (value? : String → Option (List Char)) : Option Query := do
  return {
    path := String.ofList (← value? "path")
    function := String.ofList (← value? "import")
    arguments := String.ofList (← value? "arguments")
    variableName := String.ofList (← value? "variableName") }

theorem queryOf?_congr {first second : String → Option (List Char)}
    (h : ∀ field ∈ fieldKeys, first field = second field) : queryOf? first = queryOf? second := by
  unfold queryOf?
  rw [h "path" (by decide), h "import" (by decide), h "arguments" (by decide),
    h "variableName" (by decide)]

theorem read?_eq (text : List Char) :
    Query.read? text = queryOf? (firstValue? (queryPairs ((Text.after? ['?'] text).getD text))) :=
  rfl

/-- A name without a repeated mark is read without any of its marks. -/
theorem read?_queryPart {id : List Char} (hmark : ['?', '?'].isPrefixOf (queryPart id) = false) :
    Query.read? (queryPart id) = queryOf? (firstValue? (pairsOf id)) := by
  have hdrop : (Text.after? ['?'] (queryPart id)).getD (queryPart id) =
      (queryPart id).dropWhile (· == '?') := by
    rcases queryPart_cases id with hnil | ⟨rest, hrest⟩
    · rw [hnil]
      rfl
    · rw [hrest] at hmark ⊢
      cases rest with
      | nil => rfl
      | cons c rest =>
          have hc : c ≠ '?' := by
            rintro rfl
            exact Bool.noConfusion hmark
          have hafter : Text.after? ['?'] ('?' :: c :: rest) = some (c :: rest) := rfl
          simp [hafter, hc]
  rw [read?_eq, hdrop, ← pairsOf]

theorem not_repeatedMark_key {id key : String} (h : key? id = some key) :
    ['?', '?'].isPrefixOf (queryPart key.toList) = false := by
  have hkeys : ∀ field ∈ fieldsOf (pairsOf id.toList), field.1 ∈ fieldKeys :=
    fun field => mem_fieldKeys_of_mem_fieldsOf
  have hdrop := dropWhile_renderQuery hkeys
  rw [queryPart_key h]
  revert hdrop
  unfold renderQuery
  split
  · intro _
    rfl
  · intro hdrop
    cases hrender : renderFields (fieldsOf (pairsOf id.toList)) with
    | nil => rfl
    | cons c rest =>
        by_contra hprefix
        have hc : c = '?' := by
          simp only [List.isPrefixOf, Bool.and_true, beq_self_eq_true, Bool.true_and,
            Bool.not_eq_false, beq_iff_eq] at hprefix
          exact hprefix.symm
        subst hc
        rw [hrender] at hdrop
        have hlength := congrArg List.length hdrop
        have := (List.dropWhile_suffix (fun c : Char => c == '?') (l := rest)).length_le
        simp at hlength
        omega

/-- **The call behind a name can be read off its key.** -/
theorem read?_queryPart_key {id key : String} (h : key? id = some key)
    (hmark : ¬ HasRepeatedMark id) :
    Query.read? (queryPart key.toList) = Query.read? (queryPart id.toList) := by
  rw [read?_queryPart (not_repeatedMark_key h), 
    read?_queryPart (Bool.eq_false_iff.mpr hmark)]
  exact queryOf?_congr fun field hfield => firstValue?_key h hfield

/-! ## Rendered names -/

theorem queryPairs_render_pairs (query : Query) :
    queryPairs query.render = query.pairs.map fun field => (field.1.toList, field.2) := by
  refine queryPairs_renderFields ?_
  simp only [Query.pairs, List.forall_mem_cons]
  decide

/-- The query that a rendered query is read as. -/
theorem firstValue?_render (query : Query) :
    queryOf? (firstValue? (queryPairs query.render)) = some query := by
  have hlookup : ∀ field ∈ fieldKeys, firstValue? (queryPairs query.render) field =
      query.pairs.lookup field := by
    intro field _
    rw [queryPairs_render_pairs, firstValue?_map]
  rw [queryOf?_congr hlookup]
  simp [queryOf?, Query.pairs, List.lookup_cons]

/-- The fields of a rendered query are its own. -/
theorem fieldsOf_render (query : Query) : fieldsOf (queryPairs query.render) = query.pairs := by
  rw [fieldsOf, queryPairs_render_pairs]
  simp only [firstValue?_map]
  simp [fieldKeys, Query.pairs, List.lookup_cons]

theorem render_eq_cons (query : Query) : ∃ rest, query.render = 'p' :: rest := by
  simp [Query.render, Query.pairs, Text.join, renderField]

/-- **A rendered query is read back**, also behind its `?`. -/
theorem read?_render (query : Query) : Query.read? ('?' :: query.render) = some query := by
  rw [read?_eq]
  simpa [Text.after?] using firstValue?_render query

theorem notMem_targetPath_of_loader {id : Id} (hloader : '?' ∉ id.loader.toList) :
    '?' ∉ id.targetPath := by
  have hfile : '?' ∉ fileName := by decide
  unfold Id.targetPath joinPath
  split
  · exact hfile
  · intro hmem
    simp only [List.mem_append, List.mem_cons] at hmem
    rcases hmem with hmem | hmem | hmem
    · have hsub : Text.dropEndWhile (· == '/') id.loader.toList ⊆ id.loader.toList := by
        intro c hc
        have hc' := (List.dropWhile_sublist _).subset (List.mem_reverse.mp hc)
        exact List.mem_reverse.mp hc'
      exact hloader (hsub hmem)
    · exact absurd hmem (by decide)
    · exact hfile ((List.dropWhile_sublist _).subset hmem)

section
variable {id : Id} (hloader : '?' ∉ id.loader.toList)
include hloader

theorem pathPart_render : pathPart id.render = id.targetPath :=
  pathPart_append (notMem_targetPath_of_loader hloader) (Or.inr ⟨_, rfl⟩)

theorem queryPart_render : queryPart id.render = '?' :: id.query.render :=
  queryPart_append (notMem_targetPath_of_loader hloader) (Or.inr ⟨_, rfl⟩)

theorem pairsOf_render : pairsOf id.render = queryPairs id.query.render := by
  obtain ⟨rest, hrest⟩ := render_eq_cons id.query
  rw [pairsOf, queryPart_render hloader, hrest]
  simp

/-- **The key of a rendered name tells the whole call.** -/
theorem read?_key_render {key : String} (h : key? (String.ofList id.render) = some key) :
    Query.read? (queryPart key.toList) = some id.query := by
  obtain ⟨rest, hrest⟩ := render_eq_cons id.query
  have hmark : ¬ HasRepeatedMark (String.ofList id.render) := by
    unfold HasRepeatedMark
    rw [String.toList_ofList, queryPart_render hloader, hrest]
    simp [List.isPrefixOf]
  rw [read?_queryPart_key h hmark, String.toList_ofList, queryPart_render hloader, read?_render]

end

theorem notMem_module (kind : LoaderKind) : '?' ∉ kind.module.toList := by
  cases kind <;> decide

theorem targetPath_eq {id : Id} {kind : LoaderKind} (hkind : kind.module = id.loader) :
    id.targetPath = kind.targetPath.toList := by
  rw [Id.targetPath, ← hkind]
  cases kind <;> decide

/-- **A name that is rendered for a loader is its own key.** -/
theorem key?_render {id : Id} {kind : LoaderKind} (hkind : kind.module = id.loader) :
    key? (String.ofList id.render) = some (String.ofList id.render) := by
  have hloader : '?' ∉ id.loader.toList := hkind ▸ notMem_module kind
  refine key?_eq_some_iff.mpr ⟨kind, ?_, ?_⟩
  · rw [String.toList_ofList, pathPart_render hloader, targetPath_eq hkind,
      ofTargetPath?_targetPath]
  · rw [String.toList_ofList, pairsOf_render hloader, fieldsOf_render, Id.render,
      targetPath_eq hkind]
    rfl

end FontHosting.Stylesheet
