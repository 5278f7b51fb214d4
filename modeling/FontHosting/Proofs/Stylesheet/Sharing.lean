import FontHosting.Proofs.Stylesheet.Key
import FontHosting.Stylesheet.Collection

/-!
# Which names share a stylesheet

Stylesheets are kept under keys, and loaders are given the query of a name.  Both are read
off the same text, by two decoders.  A stylesheet is shared by the right names if the two
agree, so that names have one key exactly if they stand for one call.

* What two names of one key have in common are the kind of their loader and the fields behind
  all of their marks (`key?_eq_iff`).
* Those fields are the query of the name, unless the name hides a field
  (`read?_of_not_hidesField`): if the first `?` is repeated, then `normalize` takes every mark
  off, while `Query.read?` takes off one and makes the others a part of the first key.

So keys and calls agree for names that hide no field (`same_key_iff_same_call`).  With a
hidden field a name has the key of one call and the query of another
(`hidden_field_takes_another_key`).
-/

namespace FontHosting.Stylesheet

open Text.Percent (decodePair decodeValue queryPairs)

/-! ## Hidden fields -/

/-- What stands behind all marks of a name. -/
def behindMarks (id : List Char) : List Char :=
  (queryPart id).dropWhile (· == '?')

/-- The key of the first piece behind the marks of a name. -/
def firstKey (id : List Char) : List Char :=
  (decodePair ((Text.splitOn '&' (behindMarks id)).headD [])).1

/-- A field stands directly behind a repeated mark. -/
def HidesField (id : String) : Prop :=
  HasRepeatedMark id ∧ ∃ key ∈ fieldKeys, firstKey id.toList = key.toList

instance (id : String) : Decidable (HidesField id) :=
  inferInstanceAs (Decidable (_ ∧ _))

/-- A mark in front of a value is read as itself. -/
theorem decodeValue_mark (text : List Char) : decodeValue ('?' :: text) = '?' :: decodeValue text := by
  have hreplaced : Text.replaceChar '+' ' ' ('?' :: text) =
      '?' :: Text.replaceChar '+' ' ' text := rfl
  have hbyte : Text.Utf8.encodeChar '?' = [0x3F] := by decide
  have hdecoded : ∀ bytes, Text.Percent.decodeFrom 0 (0x3F :: bytes) =
      0x3F :: Text.Percent.decodeFrom 0 bytes := by
    intro bytes
    simp [Text.Percent.decodeFrom]
  unfold decodeValue
  rw [hreplaced, Text.Utf8.encode_cons, hbyte, List.singleton_append, hdecoded]
  exact Text.Utf8.run_encodeChar '?' _

/-- A piece with a mark in front of it is no field. -/
theorem decodePair_mark (piece : List Char) : ∃ rest, (decodePair ('?' :: piece)).1 = '?' :: rest := by
  refine ⟨decodeValue (piece.takeWhile (· != '=')), ?_⟩
  unfold decodePair
  rw [List.span_eq_takeWhile_dropWhile]
  exact decodeValue_mark _

theorem ne_mark_of_mem_fieldKeys {key : String} (hkey : key ∈ fieldKeys) (rest : List Char) :
    key.toList ≠ '?' :: rest := by
  have hfirst : ∀ key ∈ fieldKeys, key.toList.head? ≠ some '?' := by
    decide
  intro hmark
  exact hfirst key hkey (by rw [hmark]; rfl)

/-- Marks in front of a query become a part of its first piece. -/
theorem splitOn_marks {marks : List Char} (hmarks : ∀ c ∈ marks, c = '?') (text : List Char) :
    ∃ piece pieces, Text.splitOn '&' text = piece :: pieces ∧
      Text.splitOn '&' (marks ++ text) = (marks ++ piece) :: pieces := by
  induction marks with
  | nil =>
      obtain ⟨piece, pieces, hpieces⟩ :=
        List.exists_cons_of_ne_nil (Text.splitOn_ne_nil '&' text)
      exact ⟨piece, pieces, hpieces, hpieces⟩
  | cons mark rest ih =>
      obtain ⟨piece, pieces, hpieces, hrest⟩ := ih fun c hc => hmarks c (List.mem_cons_of_mem _ hc)
      obtain rfl := hmarks mark List.mem_cons_self
      refine ⟨piece, pieces, hpieces, ?_⟩
      rw [List.cons_append, Text.splitOn, if_neg (by decide), hrest]
      rfl

/-- **The marks in front of a query hide its first piece, and no other one.** -/
theorem firstValue?_marks {marks text : List Char} (hmarks : ∀ c ∈ marks, c = '?')
    (hne : marks ≠ []) {key : String} (hkey : key ∈ fieldKeys)
    (hfirst : (decodePair ((Text.splitOn '&' text).headD [])).1 ≠ key.toList) :
    firstValue? (queryPairs (marks ++ text)) key = firstValue? (queryPairs text) key := by
  obtain ⟨piece, pieces, hpieces, hmarked⟩ := splitOn_marks hmarks text
  obtain ⟨mark, others, rfl⟩ := List.exists_cons_of_ne_nil hne
  obtain rfl := hmarks mark List.mem_cons_self
  -- With the marks the first piece is no field, without them it is not this one.
  obtain ⟨rest, hrest⟩ := decodePair_mark (others ++ piece)
  rw [hpieces, List.headD_cons] at hfirst
  have hskipped : ∀ (pair : List Char × List Char) (pairs : List (List Char × List Char)),
      pair.1 ≠ key.toList → (pair :: pairs).lookup key.toList = pairs.lookup key.toList := by
    rintro ⟨name, value⟩ pairs hpair
    have hother : (key.toList == name) = false := by simpa using Ne.symm hpair
    simp only [List.lookup_cons, hother]
  have hmark : (decodePair ('?' :: (others ++ piece))).1 ≠ key.toList := by
    rw [hrest]
    exact (ne_mark_of_mem_fieldKeys hkey rest).symm
  unfold firstValue? queryPairs
  rw [hmarked, hpieces, List.cons_append, List.filter_cons_of_pos rfl, List.map_cons,
    hskipped _ _ hmark]
  by_cases hempty : piece.isEmpty = true
  · rw [List.filter_cons_of_neg (by simpa using hempty)]
  · rw [List.filter_cons_of_pos (by simpa using hempty), List.map_cons, hskipped _ _ hfirst]

/-- **The query of a name is what stands behind its marks**, unless it hides a field. -/
theorem read?_of_not_hidesField {id : String} (h : ¬ HidesField id) :
    Query.read? (queryPart id.toList) = queryOf? (firstValue? (pairsOf id.toList)) := by
  by_cases hmark : HasRepeatedMark id
  · obtain ⟨rest, hrest⟩ := List.isPrefixOf_iff_prefix.mp hmark
    have hafter : (Text.after? ['?'] (queryPart id.toList)).getD (queryPart id.toList) =
        ('?' :: rest.takeWhile (· == '?')) ++ rest.dropWhile (· == '?') := by
      rw [← hrest]
      exact congrArg ('?' :: ·) List.takeWhile_append_dropWhile.symm
    have hbehind : behindMarks id.toList = rest.dropWhile (· == '?') := by
      unfold behindMarks
      rw [← hrest]
      rfl
    rw [read?_eq, hafter]
    refine queryOf?_congr fun key hkey => ?_
    rw [pairsOf, ← behindMarks, hbehind]
    refine firstValue?_marks ?_ (List.cons_ne_nil _ _) hkey fun hfirst => h ⟨hmark, key, hkey, ?_⟩
    · intro c hc
      rcases List.mem_cons.mp hc with rfl | hc
      · rfl
      · simpa using List.mem_takeWhile_imp hc
    · rw [firstKey, hbehind, hfirst]
  · exact read?_queryPart (Bool.eq_false_iff.mpr hmark)

/-! ## Names of one key -/

theorem targetPath_injective {first second : LoaderKind}
    (h : first.targetPath.toList = second.targetPath.toList) : first = second := by
  have hkinds := congrArg LoaderKind.ofTargetPath? h
  rw [ofTargetPath?_targetPath, ofTargetPath?_targetPath] at hkinds
  exact Option.some_inj.mp hkinds

section
variable {first second : String}

theorem isSome_key?_iff {id : String} :
    (key? id).isSome = true ↔ ∃ kind, LoaderKind.ofTargetPath? (pathPart id.toList) = some kind := by
  unfold key?
  rw [Option.isSome_map, Option.isSome_iff_exists]

/-- **Names have one key exactly if they have the same fields behind the path of the same
loader.** -/
theorem key?_eq_iff (hfirst : (key? first).isSome = true) (hsecond : (key? second).isSome = true) :
    key? first = key? second ↔
      LoaderKind.ofTargetPath? (pathPart first.toList) =
        LoaderKind.ofTargetPath? (pathPart second.toList) ∧
      fieldsOf (pairsOf first.toList) = fieldsOf (pairsOf second.toList) := by
  obtain ⟨key, hkey⟩ := Option.isSome_iff_exists.mp hfirst
  obtain ⟨other, hother⟩ := Option.isSome_iff_exists.mp hsecond
  constructor
  · intro hsame
    obtain rfl : key = other := by rwa [hkey, hother, Option.some_inj] at hsame
    obtain ⟨kind, hkind, hpath⟩ := pathPart_key hkey
    obtain ⟨otherKind, hotherKind, hotherPath⟩ := pathPart_key hother
    obtain rfl := targetPath_injective (hpath.symm.trans hotherPath)
    refine ⟨hkind.trans hotherKind.symm, ?_⟩
    have hfields := (pairsOf_key hkey).symm.trans (pairsOf_key hother)
    refine List.map_injective_iff.mpr ?_ hfields
    rintro ⟨name, value⟩ ⟨otherName, otherValue⟩ hpair
    simpa [String.toList_inj] using hpair
  · rintro ⟨hkinds, hfields⟩
    obtain ⟨kind, hkind, htext⟩ := key?_eq_some_iff.mp hkey
    obtain ⟨otherKind, hotherKind, hotherText⟩ := key?_eq_some_iff.mp hother
    obtain rfl : kind = otherKind := by
      rwa [hkind, hotherKind, Option.some_inj] at hkinds
    rw [hkey, hother, Option.some_inj, ← String.toList_inj, htext, hotherText, hfields]

theorem fieldsOf_eq_pairs {pairs : List (List Char × List Char)} {query : Query}
    (h : queryOf? (firstValue? pairs) = some query) : fieldsOf pairs = query.pairs := by
  unfold queryOf? at h
  simp only [Option.bind_eq_bind, Option.bind_eq_some_iff, Option.pure_def,
    Option.some_inj] at h
  obtain ⟨path, hpath, function, hfunction, arguments, harguments, variableName, hvariable, rfl⟩ := h
  simp [fieldsOf, fieldKeys, Query.pairs, hpath, hfunction, harguments, hvariable]

theorem Query.pairs_injective {first second : Query} (h : first.pairs = second.pairs) :
    first = second := by
  obtain ⟨path, function, arguments, variableName⟩ := first
  obtain ⟨otherPath, otherFunction, otherArguments, otherName⟩ := second
  simpa [Query.pairs, String.toList_inj] using h

/-- What a request comes to depends on its name only through the key and the call. -/
theorem Collection.start_congr (hkey : key? first = key? second)
    (hkind : LoaderKind.ofTargetPath? (pathPart first.toList) =
      LoaderKind.ofTargetPath? (pathPart second.toList))
    (hquery : Query.read? (queryPart first.toList) = Query.read? (queryPart second.toList))
    (setup : Setup) (world : Loader.World) (collection : Collection) (environment : String)
    (isServer : Bool) :
    collection.start setup world ⟨first, environment, isServer⟩ =
      collection.start setup world ⟨second, environment, isServer⟩ := by
  unfold Collection.start Collection.readCall
  simp only [hkey, hkind, hquery]

/-- **Names share a key exactly if they stand for one call**, as long as they hide no field: the
loader is of the same kind and the queries are equal.  Then whichever of the names is asked for,
the request comes to the same. -/
theorem same_key_iff_same_call {firstQuery secondQuery : Query}
    (hfirst : (key? first).isSome = true) (hsecond : (key? second).isSome = true)
    (hfirstQuery : Query.read? (queryPart first.toList) = some firstQuery)
    (hsecondQuery : Query.read? (queryPart second.toList) = some secondQuery)
    (hfirstShows : ¬ HidesField first) (hsecondShows : ¬ HidesField second) :
    (key? first = key? second ↔
      LoaderKind.ofTargetPath? (pathPart first.toList) =
        LoaderKind.ofTargetPath? (pathPart second.toList) ∧ firstQuery = secondQuery) ∧
    (key? first = key? second →
      ∀ (setup : Setup) (world : Loader.World) (collection : Collection) (environment : String)
        (isServer : Bool),
        collection.start setup world ⟨first, environment, isServer⟩ =
          collection.start setup world ⟨second, environment, isServer⟩) := by
  have hfields : fieldsOf (pairsOf first.toList) = firstQuery.pairs :=
    fieldsOf_eq_pairs ((read?_of_not_hidesField hfirstShows).symm.trans hfirstQuery)
  have hothers : fieldsOf (pairsOf second.toList) = secondQuery.pairs :=
    fieldsOf_eq_pairs ((read?_of_not_hidesField hsecondShows).symm.trans hsecondQuery)
  have hiff : key? first = key? second ↔
      LoaderKind.ofTargetPath? (pathPart first.toList) =
        LoaderKind.ofTargetPath? (pathPart second.toList) ∧ firstQuery = secondQuery := by
    rw [key?_eq_iff hfirst hsecond, hfields, hothers]
    refine and_congr_right fun _ => ⟨Query.pairs_injective, ?_⟩
    rintro rfl
    rfl
  refine ⟨hiff, fun hsame => ?_⟩
  obtain ⟨hkind, hquery⟩ := hiff.mp hsame
  refine Collection.start_congr hsame hkind ?_
  rw [hfirstQuery, hsecondQuery, hquery]

end

/-- A name as a bundler may resolve it. -/
def resolvedName : String :=
  "/project/next-font/local/target.css?v=1&variableName=x&import&path=app%2Fa+b.js&arguments=[]"

/-- Another spelling, with a repeated mark in front of a parameter that is no field. -/
def markedName : String :=
  "next-font\\local\\target.css??v&path=app/a%20b.js&path=c.js&import=&arguments=%5B%5D&variableName=x"

/-- The call of both names. -/
def spelledQuery : Query := ⟨"app/a b.js", "", "[]", "x"⟩

theorem resolvedName_shares_key :
    ((key? resolvedName).isSome = true ∧ (key? markedName).isSome = true) ∧
    (Query.read? (queryPart resolvedName.toList) = some spelledQuery ∧
      Query.read? (queryPart markedName.toList) = some spelledQuery) ∧
    (HasRepeatedMark markedName ∧ ¬ HidesField resolvedName ∧ ¬ HidesField markedName) ∧
    key? resolvedName = key? markedName := by
  have hkind : LoaderKind.ofTargetPath? (pathPart resolvedName.toList) = some .local ∧
      LoaderKind.ofTargetPath? (pathPart markedName.toList) = some .local := by
    decide +kernel
  have hkeys : (key? resolvedName).isSome = true ∧ (key? markedName).isSome = true :=
    ⟨isSome_key?_iff.mpr ⟨_, hkind.1⟩, isSome_key?_iff.mpr ⟨_, hkind.2⟩⟩
  have hqueries : Query.read? (queryPart resolvedName.toList) = some spelledQuery ∧
      Query.read? (queryPart markedName.toList) = some spelledQuery := by
    decide +kernel
  have hshow : HasRepeatedMark markedName ∧ ¬ HidesField resolvedName ∧ ¬ HidesField markedName := by
    decide +kernel
  refine ⟨hkeys, hqueries, hshow, ?_⟩
  exact (same_key_iff_same_call hkeys.1 hkeys.2 hqueries.1 hqueries.2 hshow.2.1 hshow.2.2).1.mpr
    ⟨hkind.1.trans hkind.2.symm, rfl⟩

/-- A name that hides its first path. -/
def hidingName : String :=
  "next-font/local/target.css??path=a.js&path=b/c.js&import=&arguments=%5B%5D&variableName=x"

/-- A name with the path that the other one hides. -/
def plainName : String :=
  "next-font/local/target.css?path=a.js&import=&arguments=%5B%5D&variableName=x"

/-- **A name that hides a field takes the key of another call.**  The query of the name has the
second path, its key the first one. -/
theorem hidden_field_takes_another_key :
    (key? hidingName).isSome = true ∧ key? hidingName = key? plainName ∧
    Query.read? (queryPart hidingName.toList) = some ⟨"b/c.js", "", "[]", "x"⟩ ∧
    Query.read? (queryPart plainName.toList) = some ⟨"a.js", "", "[]", "x"⟩ := by
  decide +kernel

end FontHosting.Stylesheet
