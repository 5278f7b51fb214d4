import FontHosting.Proofs.Stylesheet.Key
import Mathlib.Data.List.Nodup

/-!
# Other spellings of a name

A bundler resolves the name of a stylesheet to a path below some directory, puts parameters of
its own into the query, and may reorder the query altogether.  None of this changes the key:

* the loader is told by the end of the path, whichever separators stand in front of it
  (`ofTargetPath?_append`);
* what is looked up in the query is the only piece with its key, so neither the order of the
  pieces nor the others among them matter (`fieldsOf_queryPairs`).

So all spellings have the rendered name for their key, and a key is its own key
(`key_is_canonical`).
-/

namespace FontHosting.Stylesheet

open Text.Percent (decodePair decodePair_renderPair queryPairs)

/-! ## Paths -/

/-- What may stand in front of the path of a stylesheet: nothing, or a path up to a separator. -/
structure IsDirectory (directory : List Char) : Prop where
  unmarked : '?' ∉ directory
  ended : directory = [] ∨ directory.getLast? = some '/' ∨ directory.getLast? = some '\\'

/-- The last characters of a path tell the loaders apart. -/
theorem eq_of_hasTargetPath {kind other : LoaderKind} {directory : List Char}
    (h : other.hasTargetPath (directory ++ kind.targetPath.toList) = true) : other = kind := by
  have hend : ∀ kind : LoaderKind, kind.targetPath.toList.drop (kind.targetPath.length - 12) <:+
      kind.targetPath.toList := fun kind => List.drop_suffix _ _
  have hother : other.targetPath.toList <:+ directory ++ kind.targetPath.toList := by
    simp only [LoaderKind.hasTargetPath, Bool.or_eq_true, beq_iff_eq,
      List.isSuffixOf_iff_suffix] at h
    rcases h with h | h
    · exact h ▸ List.suffix_rfl
    · exact (List.suffix_cons _ _).trans h
  have hsame := List.suffix_of_suffix_length_le ((hend other).trans hother)
    ((hend kind).trans (List.suffix_append _ _)) (by cases kind <;> cases other <;> decide)
  revert hsame
  cases kind <;> cases other <;> decide

/-- **The loader of a resolved path is told by its end.** -/
theorem ofTargetPath?_append {directory : List Char} (h : IsDirectory directory)
    (kind : LoaderKind) :
    LoaderKind.ofTargetPath? (directory ++ kind.targetPath.toList) = some kind := by
  have hpath : Text.replaceChar '\\' '/' (directory ++ kind.targetPath.toList) =
      Text.replaceChar '\\' '/' directory ++ kind.targetPath.toList := by
    rw [Text.replaceChar, List.map_append, ← Text.replaceChar, ← Text.replaceChar]
    congr 1
    cases kind <;> decide
  have hfound : kind.hasTargetPath
      (Text.replaceChar '\\' '/' directory ++ kind.targetPath.toList) = true := by
    simp only [LoaderKind.hasTargetPath, Bool.or_eq_true, beq_iff_eq,
      List.isSuffixOf_iff_suffix]
    rcases h.ended with rfl | hended
    · exact Or.inl rfl
    · obtain ⟨start, separator, rfl, hseparator⟩ :
          ∃ start separator, directory = start ++ [separator] ∧
            (separator = '/' ∨ separator = '\\') := by
        rcases hended with hended | hended
        all_goals
          obtain ⟨start, rfl⟩ := List.getLast?_eq_some_iff.mp hended
          exact ⟨start, _, rfl, by decide⟩
      refine Or.inr ⟨Text.replaceChar '\\' '/' start, ?_⟩
      rcases hseparator with rfl | rfl <;> simp [Text.replaceChar]
  unfold LoaderKind.ofTargetPath?
  rw [hpath]
  cases hkind : LoaderKind.all.find?
      (·.hasTargetPath (Text.replaceChar '\\' '/' directory ++ kind.targetPath.toList)) with
  | some other =>
      have hother := List.find?_some hkind
      exact congrArg some (eq_of_hasTargetPath hother)
  | none =>
      have hall : kind ∈ LoaderKind.all := by cases kind <;> decide
      exact absurd hfound (List.find?_eq_none.mp hkind kind hall)

/-! ## Queries -/

/-- A piece of a query that gives none of the fields. -/
structure IsIncidental (piece : List Char) : Prop where
  single : '&' ∉ piece
  unmarked : piece.head? ≠ some '?'
  unread : ∀ key ∈ fieldKeys, (decodePair piece).1 ≠ key.toList

/-- The pieces that a query is rendered as. -/
def Query.pieces (query : Query) : List (List Char) :=
  query.pairs.map fun pair => renderField pair.1 pair.2

/-- The pieces of a query with others among them, in any order. -/
structure Query.IsSpelled (query : Query) (pieces incidental : List (List Char)) : Prop where
  order : pieces.Perm (query.pieces ++ incidental)
  others : ∀ piece ∈ incidental, IsIncidental piece

theorem map_fst_pairs (query : Query) : query.pairs.map Prod.fst = fieldKeys := rfl

theorem mem_fieldKeys_of_mem_pairs {query : Query} {pair : String × List Char}
    (h : pair ∈ query.pairs) : pair.1 ∈ fieldKeys := by
  rw [← map_fst_pairs query]
  exact List.mem_map_of_mem h

/-- A rendered piece is read as its field. -/
theorem decodePair_renderField {key : String} (hkey : key ∈ fieldKeys) (value : List Char) :
    decodePair (renderField key value) = (key.toList, value) :=
  decodePair_renderPair (isPlainKey_of_mem key hkey) value

/-- The value of a key is found wherever it stands, if no other piece gives one. -/
theorem lookup_eq_some_of_unique {pairs : List (List Char × List Char)} {key value : List Char}
    (hmem : (key, value) ∈ pairs) (hunique : ∀ other, (key, other) ∈ pairs → other = value) :
    pairs.lookup key = some value := by
  induction pairs with
  | nil => cases hmem
  | cons pair rest ih =>
      obtain ⟨name, first⟩ := pair
      by_cases hname : key = name
      · subst hname
        rw [List.lookup_cons_self, hunique first List.mem_cons_self]
      · have hne : (key == name) = false := by simpa using hname
        simp only [List.lookup_cons, hne]
        refine ih ?_ fun other hother => hunique other (List.mem_cons_of_mem _ hother)
        exact (List.mem_cons.mp hmem).resolve_left fun heq => hname (congrArg Prod.fst heq)

section
variable {query : Query} {pieces incidental : List (List Char)}

theorem Query.IsSpelled.mem_iff (h : query.IsSpelled pieces incidental) {piece : List Char} :
    piece ∈ pieces ↔
      (∃ pair ∈ query.pairs, renderField pair.1 pair.2 = piece) ∨ piece ∈ incidental := by
  rw [h.order.mem_iff, List.mem_append, Query.pieces, List.mem_map]

/-- What is in a piece is no separator, and starts with no mark. -/
theorem Query.IsSpelled.piece (h : query.IsSpelled pieces incidental) {piece : List Char}
    (hpiece : piece ∈ pieces) : '&' ∉ piece ∧ piece.head? ≠ some '?' := by
  rcases h.mem_iff.mp hpiece with ⟨⟨key, value⟩, hpair, rfl⟩ | hpiece
  · have hkey := mem_fieldKeys_of_mem_pairs hpair
    have hfirst : ∀ key ∈ fieldKeys, key.toList ≠ [] ∧ key.toList.head? ≠ some '?' := by
      decide
    refine ⟨fun hmem => ?_, fun hhead => ?_⟩
    · rcases List.mem_append.mp hmem with hmem | hmem
      · exact (isPlainKey_of_mem key hkey).2.1 hmem
      · exact Text.Percent.notMem_encode (by decide) (by decide) value
          ((List.mem_cons.mp hmem).resolve_left (by decide))
    · rw [renderField, List.head?_append_of_ne_nil _ (hfirst key hkey).1] at hhead
      exact (hfirst key hkey).2 hhead
  · exact ⟨(h.others piece hpiece).single, (h.others piece hpiece).unmarked⟩

theorem Query.IsSpelled.ne_nil (h : query.IsSpelled pieces incidental) : pieces ≠ [] := by
  rintro rfl
  exact absurd h.order.length_eq (by simp [Query.pieces, Query.pairs])

/-- The value of each field is found among the pieces. -/
theorem firstValue?_of_isSpelled (h : query.IsSpelled pieces incidental)
    {pair : String × List Char} (hpair : pair ∈ query.pairs) :
    firstValue? (queryPairs (Text.join ['&'] pieces)) pair.1 = some pair.2 := by
  have hkeys : (query.pairs.map Prod.fst).Nodup := by
    rw [map_fst_pairs]
    decide
  have hpairs : queryPairs (Text.join ['&'] pieces) =
      (pieces.filter (!·.isEmpty)).map decodePair := by
    rw [queryPairs, Text.splitOn_join h.ne_nil fun piece hpiece => (h.piece hpiece).1]
  -- only the place of the first piece with the key could matter, and no other piece has it
  rw [firstValue?, hpairs]
  refine lookup_eq_some_of_unique ?_ fun other hother => ?_
  · refine List.mem_map.mpr ⟨renderField pair.1 pair.2, List.mem_filter.mpr ⟨?_, ?_⟩, ?_⟩
    · exact h.mem_iff.mpr (Or.inl ⟨pair, hpair, rfl⟩)
    · simp [renderField]
    · exact decodePair_renderField (mem_fieldKeys_of_mem_pairs hpair) pair.2
  · obtain ⟨piece, hpiece, hread⟩ := List.mem_map.mp hother
    rcases h.mem_iff.mp (List.mem_of_mem_filter hpiece) with ⟨found, hfound, rfl⟩ | hpiece
    · rw [decodePair_renderField (mem_fieldKeys_of_mem_pairs hfound)] at hread
      obtain ⟨hkey, rfl⟩ := Prod.mk.inj hread
      -- two fields of one key are one field, since the four keys differ
      exact congrArg Prod.snd
        (List.inj_on_of_nodup_map hkeys hfound hpair (String.toList_inj.mp hkey))
    · exact absurd (congrArg Prod.fst hread)
        ((h.others piece hpiece).unread pair.1 (mem_fieldKeys_of_mem_pairs hpair))

/-- **The fields of a query are found in any order and among any other pieces.** -/
theorem fieldsOf_queryPairs (h : query.IsSpelled pieces incidental) :
    fieldsOf (queryPairs (Text.join ['&'] pieces)) = query.pairs := by
  have hvalue : ∀ pair ∈ query.pairs,
      firstValue? (queryPairs (Text.join ['&'] pieces)) pair.1 = some pair.2 :=
    fun pair => firstValue?_of_isSpelled h
  simp only [Query.pairs, List.forall_mem_cons] at hvalue
  simp [fieldsOf, fieldKeys, Query.pairs, hvalue]

/-- No mark stands in front of the pieces. -/
theorem dropWhile_join (h : query.IsSpelled pieces incidental) :
    (Text.join ['&'] pieces).dropWhile (· == '?') = Text.join ['&'] pieces := by
  obtain ⟨first, others, rfl⟩ := List.exists_cons_of_ne_nil h.ne_nil
  have hfirst := (h.piece List.mem_cons_self).2
  have hhead : (Text.join ['&'] (first :: others)).head? ≠ some '?' := by
    cases others with
    | nil => exact hfirst
    | cons second others =>
        cases first with
        | nil => simp [Text.join]
        | cons c first => simpa [Text.join] using hfirst
  refine List.dropWhile_eq_self_iff.mpr fun hlength => ?_
  intro hmark
  refine hhead ?_
  rw [List.head?_eq_getElem?, List.getElem?_eq_getElem hlength, beq_iff_eq.mp hmark]

end

/-! ## Keys -/

/-- A name below a directory, with the pieces of its query. -/
def spelling (directory : List Char) (kind : LoaderKind) (pieces : List (List Char)) : String :=
  String.ofList (directory ++ kind.targetPath.toList ++ '?' :: Text.join ['&'] pieces)

/-- **All spellings of a name share a key, and that key is the name as it is rendered.**  The
directory in front of the path, the order of the four fields and the pieces among them that give
no field do not count; and a key, whatever the name it was made of, is its own key. -/
theorem key_is_canonical :
    (∀ id key : String, key? id = some key → key? key = some key) ∧
    ∀ (kind : LoaderKind) (query : Query) (directory : List Char)
      (pieces incidental : List (List Char)),
      IsDirectory directory → query.IsSpelled pieces incidental →
        key? (spelling directory kind pieces) =
          key? (String.ofList (Id.mk kind.module query).render) ∧
        key? (String.ofList (Id.mk kind.module query).render) =
          some (String.ofList (Id.mk kind.module query).render) := by
  refine ⟨fun _ _ => key?_key, fun kind query directory pieces incidental hdirectory hpieces => ?_⟩
  have hrendered : key? (String.ofList (Id.mk kind.module query).render) =
      some (String.ofList (Id.mk kind.module query).render) := key?_render rfl
  refine ⟨?_, hrendered⟩
  rw [hrendered]
  have hpath : '?' ∉ directory ++ kind.targetPath.toList := by
    simp [hdirectory.unmarked, notMem_targetPath kind]
  refine key?_eq_some_iff.mpr ⟨kind, ?_, ?_⟩
  · rw [spelling, String.toList_ofList, pathPart_append hpath (Or.inr ⟨_, rfl⟩),
      ofTargetPath?_append hdirectory]
  · have hfields : fieldsOf (pairsOf (spelling directory kind pieces).toList) = query.pairs := by
      rw [spelling, String.toList_ofList, pairsOf, queryPart_append hpath (Or.inr ⟨_, rfl⟩),
        List.dropWhile_cons_of_pos (by decide), dropWhile_join hpieces, fieldsOf_queryPairs hpieces]
    rw [hfields, String.toList_ofList, Id.render, targetPath_eq rfl]
    rfl

/-- A query whose values have marks in them. -/
def scatteredQuery : Query :=
  ⟨"app/é b.js", "", "[\x7b\"a\":\"&path=?\"\x7d]", "x"⟩

/-- Its pieces out of order, among others that look like fields. -/
def scatteredPieces : List (List Char) :=
  ["v=1?path=y".toList, renderField "variableName" "x".toList, [], "Path=z".toList,
    renderField "arguments" scatteredQuery.arguments.toList, "path%3D=z".toList,
    renderField "import" [], renderField "path" "app/é b.js".toList, "=path".toList]

/-- A directory that looks like the path of the other loader. -/
def misleadingDirectory : List Char :=
  "C:/next-font/google/target.css\\".toList

theorem key?_scatteredPieces :
    IsDirectory misleadingDirectory ∧
    scatteredQuery.IsSpelled scatteredPieces
      ["v=1?path=y".toList, [], "Path=z".toList, "path%3D=z".toList, "=path".toList] ∧
    key? (spelling misleadingDirectory .local scatteredPieces) =
      some (String.ofList (Id.mk "next-font/local" scatteredQuery).render) := by
  have hdirectory : IsDirectory misleadingDirectory := ⟨by decide, by decide⟩
  have hpieces : scatteredQuery.IsSpelled scatteredPieces
      ["v=1?path=y".toList, [], "Path=z".toList, "path%3D=z".toList, "=path".toList] := by
    refine ⟨by decide +kernel, fun piece hpiece => ?_⟩
    simp only [List.mem_cons, List.not_mem_nil, or_false] at hpiece
    rcases hpiece with rfl | rfl | rfl | rfl | rfl
    all_goals exact ⟨by decide +kernel, by decide +kernel, by decide +kernel⟩
  have hkeys := key_is_canonical.2 .local scatteredQuery misleadingDirectory scatteredPieces _
    hdirectory hpieces
  exact ⟨hdirectory, hpieces, hkeys.1.trans hkeys.2⟩

end FontHosting.Stylesheet
