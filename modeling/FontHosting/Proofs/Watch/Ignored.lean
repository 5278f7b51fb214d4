import FontHosting.Proofs.Text.Search
import FontHosting.Watch.Ignored

/-!
# What an ignored path has in it

Patterns are looked for in the text of a path, while what is meant are the names in it.  Cut at
its separators, a pattern is a list of names, and it is found where these names stand in the path
one behind the other (`StandsIn`): a pattern starts at a separator, and each of its own
separators is one of the path.  Nothing is said of what comes behind the pattern, so the last of
its names may go on in the path.

If it does not go on, the components of the pattern are consecutive ones of the path
(`standsIn_nil_iff`).  But where it does, directories are ignored whose names only start like an
ignored one, such as `distance` for `dist`.
-/

namespace FontHosting.Text

/-! ## Pieces of a longer text -/

section
variable {separator : Char} {text : List Char} {shared others : List (List Char)}
  {last first : List Char}

/-- The piece at the end of a text goes on with what is written behind the text. -/
theorem splitOn_append_of_eq (h : splitOn separator text = shared ++ [last]) {rest : List Char}
    (hrest : splitOn separator rest = first :: others) :
    splitOn separator (text ++ rest) = shared ++ (last ++ first) :: others := by
  induction text generalizing shared last with
  | nil =>
      obtain ⟨rfl, hlast⟩ := List.append_eq_singleton_iff.mp h.symm |>.resolve_right
        fun hnone => List.cons_ne_nil _ _ hnone.2
      obtain rfl := (List.cons.inj hlast).1
      exact hrest
  | cons c text ih =>
      rw [splitOn] at h
      rw [List.cons_append, splitOn]
      split at h
      · rename_i hc
        rw [if_pos hc]
        cases shared with
        | nil => exact absurd (List.cons.inj h).2 (splitOn_ne_nil separator text)
        | cons _ shared =>
            obtain ⟨rfl, hshared⟩ := List.cons.inj h
            rw [ih hshared, List.cons_append]
      · rename_i hc
        rw [if_neg hc]
        obtain ⟨piece, pieces, hpieces⟩ :=
          List.exists_cons_of_ne_nil (splitOn_ne_nil separator text)
        rw [hpieces] at h
        cases shared with
        | nil =>
            obtain ⟨rfl, rfl⟩ := List.cons.inj h
            have htext : splitOn separator (text ++ rest) = (piece ++ first) :: others :=
              @ih [] piece hpieces
            rw [htext]
            rfl
        | cons _ shared =>
            obtain ⟨rfl, rfl⟩ := List.cons.inj h
            have htext : splitOn separator (text ++ rest) =
                piece :: (shared ++ (last ++ first) :: others) :=
              @ih (piece :: shared) last hpieces
            rw [htext]
            rfl

/-- A text with a separator in it has the pieces of both sides. -/
theorem splitOn_append_cons (before after : List Char) :
    splitOn separator (before ++ separator :: after) =
      splitOn separator before ++ splitOn separator after := by
  obtain ⟨shared, last, hbefore⟩ :=
    (List.eq_nil_or_concat' (splitOn separator before)).resolve_left (splitOn_ne_nil _ _)
  have hafter : splitOn separator (separator :: after) = [] :: splitOn separator after := by
    rw [splitOn, if_pos rfl]
  rw [splitOn_append_of_eq hbefore hafter, hbefore, List.append_nil, List.append_assoc,
    List.singleton_append]

/-- The separator stands between the pieces in front and those behind. -/
theorem intercalate_append {separator : List Char} {before after : List (List Char)}
    (hbefore : before ≠ []) (hafter : after ≠ []) :
    separator.intercalate (before ++ after) =
      separator.intercalate before ++ (separator ++ separator.intercalate after) := by
  induction before with
  | nil => exact absurd rfl hbefore
  | cons piece rest ih =>
      by_cases hrest : rest = []
      · rw [hrest, List.singleton_append, List.intercalate_cons_of_ne_nil hafter,
          List.intercalate_singleton, List.append_assoc]
      · rw [List.cons_append,
          List.intercalate_cons_of_ne_nil (List.append_ne_nil_of_left_ne_nil hrest _), ih hrest,
          List.intercalate_cons_of_ne_nil hrest, List.append_assoc _ (separator.intercalate rest)]

/-- Pieces whose last one goes on are the start of a longer text. -/
theorem intercalate_prefix (separator : List Char) (shared : List (List Char))
    (last more : List Char) (others : List (List Char)) :
    separator.intercalate (shared ++ [last]) <+:
      separator.intercalate (shared ++ (last ++ more) :: others) := by
  have hlast : last <+: separator.intercalate ((last ++ more) :: others) := by
    by_cases hothers : others = []
    · rw [hothers, List.intercalate_singleton]
      exact List.prefix_append _ _
    · rw [List.intercalate_cons_of_ne_nil hothers, List.append_assoc, List.append_assoc]
      exact List.prefix_append _ _
  by_cases hshared : shared = []
  · rw [hshared, List.nil_append, List.nil_append, List.intercalate_singleton]
    exact hlast
  · rw [intercalate_append hshared (List.cons_ne_nil _ _),
      intercalate_append hshared (List.cons_ne_nil _ _), List.intercalate_singleton]
    exact (List.prefix_append_right_inj _).mpr ((List.prefix_append_right_inj _).mpr hlast)

end

/-- **A text is found in front of all, or behind a separator, where its pieces are found** one
behind the other, the last of which may go on. -/
theorem found_behind_separator_iff {separator : Char} {needle text : List Char} :
    (needle <+: text ∨ separator :: needle <:+: text) ↔
      ∃ more shared last, splitOn separator needle = shared ++ [last] ∧
        shared ++ [last ++ more] <:+: splitOn separator text := by
  have hrestored : ∀ text, [separator].intercalate (splitOn separator text) = text :=
    fun text => (join_eq_intercalate _ _).symm.trans (join_splitOn separator text)
  constructor
  · obtain ⟨shared, last, hneedle⟩ :=
      (List.eq_nil_or_concat' (splitOn separator needle)).resolve_left (splitOn_ne_nil _ _)
    have hgoesOn : ∀ rest, ∃ more others,
        splitOn separator (needle ++ rest) = shared ++ [last ++ more] ++ others := by
      intro rest
      obtain ⟨more, others, hrest⟩ := List.exists_cons_of_ne_nil (splitOn_ne_nil separator rest)
      refine ⟨more, others, ?_⟩
      rw [splitOn_append_of_eq hneedle hrest, List.append_assoc, List.singleton_append]
    rintro (⟨rest, rfl⟩ | ⟨before, rest, rfl⟩)
    · obtain ⟨more, others, hpieces⟩ := hgoesOn rest
      exact ⟨more, shared, last, hneedle, hpieces ▸ (List.prefix_append _ _).isInfix⟩
    · obtain ⟨more, others, hpieces⟩ := hgoesOn rest
      refine ⟨more, shared, last, hneedle, splitOn separator before, others, ?_⟩
      rw [List.append_assoc before, List.cons_append, splitOn_append_cons, hpieces,
        List.append_assoc]
  · rintro ⟨more, shared, last, hneedle, before, others, hpieces⟩
    have hstart : needle <+: [separator].intercalate (shared ++ (last ++ more) :: others) := by
      rw [← hrestored needle, hneedle]
      exact intercalate_prefix _ _ _ _ _
    rw [List.append_assoc, List.append_assoc, List.singleton_append] at hpieces
    rw [← hrestored text, ← hpieces]
    by_cases hbefore : before = []
    · rw [hbefore]
      exact .inl hstart
    · right
      rw [intercalate_append hbefore (List.append_ne_nil_of_right_ne_nil _ (List.cons_ne_nil _ _))]
      refine List.IsInfix.trans ?_ (List.suffix_append _ _).isInfix
      exact (List.cons_prefix_cons.mpr ⟨rfl, hstart⟩).isInfix

end FontHosting.Text

namespace FontHosting.Watch

/-! ## Names of a path -/

/-- The names of a pattern stand in a path one behind the other, and the last one goes on there
with some more characters. -/
def StandsIn (pattern below more : List Char) : Prop :=
  ∃ shared last, Text.splitOn '/' pattern = shared ++ [last] ∧
    shared ++ [last ++ more] <:+: Text.splitOn '/' below

/-- Every piece of a path is a name or leads upwards: no two separators stand together or at an
end, and no piece is a single `.`. -/
def WrittenPlainly (path : List Char) : Prop :=
  ∀ piece ∈ Text.splitOn '/' path, piece ≠ [] ∧ piece ≠ ['.']

/-- A piece of a path is the name of something hidden. -/
def IsHiddenName (piece : List Char) : Prop :=
  piece.head? = some '.' ∧ piece ≠ ['.'] ∧ piece ≠ ['.', '.']

section
variable {path pattern below piece : List Char}

theorem isHidden_name_iff : isHidden (.name piece) = true ↔ piece.head? = some '.' := by
  cases piece with
  | nil => decide
  | cons c rest =>
      rw [List.head?_cons, Option.some_inj]
      by_cases hc : c = '.'
      · subst hc
        exact iff_of_true rfl rfl
      · refine iff_of_false (fun h => ?_) hc
        unfold isHidden at h
        split at h
        · rename_i heq
          exact hc (List.cons.inj (Text.Path.Part.name.inj heq)).1
        · cases h

theorem exists_isHidden_iff :
    (∃ part, Text.Path.Part.ofPiece? piece = some part ∧ isHidden part = true) ↔
      IsHiddenName piece := by
  unfold Text.Path.Part.ofPiece? IsHiddenName
  split
  · rename_i hnone
    rcases hnone with rfl | rfl <;> simp
  · rename_i hsome
    split
    · rename_i hup
      subst hup
      simp [isHidden]
    · rename_i hname
      simp only [Option.some_inj, exists_eq_left', isHidden_name_iff]
      exact (and_iff_left ⟨fun hhere => hsome (.inr hhere), hname⟩).symm

/-- Whether a component of a path is hidden is seen between its separators. -/
theorem any_isHidden_iff :
    (Text.Path.parts path).any isHidden = true ↔
      ∃ piece ∈ Text.splitOn '/' path, IsHiddenName piece := by
  have htail : (Text.Path.parts path).any isHidden =
      ((Text.splitOn '/' path).filterMap Text.Path.Part.ofPiece?).any isHidden := by
    unfold Text.Path.parts
    dsimp only
    split
    · rfl
    · split <;> rfl
  rw [htail, List.any_eq_true]
  constructor
  · rintro ⟨part, hpart, hhidden⟩
    obtain ⟨piece, hpiece, heq⟩ := List.mem_filterMap.mp hpart
    exact ⟨piece, hpiece, exists_isHidden_iff.mp ⟨part, heq, hhidden⟩⟩
  · rintro ⟨piece, hpiece, hname⟩
    obtain ⟨part, heq, hhidden⟩ := exists_isHidden_iff.mpr hname
    exact ⟨part, List.mem_filterMap.mpr ⟨piece, hpiece, heq⟩, hhidden⟩

theorem WrittenPlainly.parts_eq (h : WrittenPlainly path) :
    Text.Path.parts path = (Text.splitOn '/' path).filterMap Text.Path.Part.ofPiece? := by
  obtain ⟨first, others, hpieces⟩ :=
    List.exists_cons_of_ne_nil (Text.splitOn_ne_nil '/' path)
  obtain ⟨hsome, hhere⟩ := h first (hpieces ▸ List.mem_cons_self)
  have habsolute : Text.Path.isAbsolute path = false := by
    cases path with
    | nil => rfl
    | cons c rest =>
        by_contra habsolute
        obtain rfl : c = '/' := by simpa [Text.Path.isAbsolute] using habsolute
        rw [Text.splitOn, if_pos rfl] at hpieces
        exact hsome (List.cons.inj hpieces).1.symm
  unfold Text.Path.parts
  rw [habsolute, hpieces]
  simp [hhere]

/-- A path that is written plainly has its components between its separators. -/
theorem WrittenPlainly.texts_parts (h : WrittenPlainly path) :
    (Text.Path.parts path).map Text.Path.Part.text = Text.splitOn '/' path := by
  have htext : ∀ piece ∈ Text.splitOn '/' path,
      (Text.Path.Part.ofPiece? piece).map Text.Path.Part.text = some piece := by
    intro piece hpiece
    unfold Text.Path.Part.ofPiece?
    rw [if_neg fun hnone => hnone.elim (h piece hpiece).1 (h piece hpiece).2]
    split
    · rename_i hup
      rw [hup]
      rfl
    · rfl
  rw [h.parts_eq, List.map_filterMap, List.filterMap_congr htext, List.filterMap_some]

/-- **Where no name goes on, the components of a pattern are consecutive ones of the path.** -/
theorem standsIn_nil_iff (hpattern : WrittenPlainly pattern) (hbelow : WrittenPlainly below) :
    StandsIn pattern below [] ↔ Text.Path.parts pattern <:+: Text.Path.parts below := by
  have hpieces : StandsIn pattern below [] ↔
      Text.splitOn '/' pattern <:+: Text.splitOn '/' below := by
    constructor
    · rintro ⟨shared, last, heq, hinfix⟩
      rwa [List.append_nil, ← heq] at hinfix
    · intro hinfix
      obtain ⟨shared, last, heq⟩ :=
        (List.eq_nil_or_concat' (Text.splitOn '/' pattern)).resolve_left (Text.splitOn_ne_nil _ _)
      exact ⟨shared, last, heq, by rwa [List.append_nil, ← heq]⟩
  rw [hpieces]
  constructor
  · intro hinfix
    rw [hpattern.parts_eq, hbelow.parts_eq]
    exact hinfix.filterMap _
  · intro hinfix
    rw [← hpattern.texts_parts, ← hbelow.texts_parts]
    exact hinfix.map _

end

/-! ## Ignored paths -/

/-- A path ends as a pattern with a `*` in front says. -/
def EndsAs (pattern : String) (below : List Char) : Prop :=
  ∃ ending, pattern.toList = '*' :: ending ∧ ending <:+ below

/-- A path matches a pattern that starts with `*` if it ends so, and any other if the names of
the pattern stand in it. -/
theorem matchesPattern_iff {below : List Char} {pattern : String} :
    matchesPattern below pattern = true ↔
      EndsAs pattern below ∨
        pattern.toList.head? ≠ some '*' ∧ ∃ more, StandsIn pattern.toList below more := by
  unfold matchesPattern EndsAs
  split
  · rename_i ending heq
    rw [heq, List.isSuffixOf_iff_suffix]
    simp
  · rename_i hstar
    have hhead : pattern.toList.head? ≠ some '*' := by
      intro hhead
      obtain ⟨ending, hending⟩ := List.head?_eq_some_iff.mp hhead
      exact hstar ending hending
    have hnone : ¬ ∃ ending, pattern.toList = '*' :: ending ∧ ending <:+ below :=
      fun ⟨ending, heq, _⟩ => hstar ending heq
    rw [Bool.or_eq_true_iff, List.isPrefixOf_iff_prefix, Text.occursIn_iff,
      Text.found_behind_separator_iff, or_iff_right hnone, and_iff_right hhead]
    rfl

section
variable {patterns : List String} {root path : String} {below : List Char}

/-- **A path below the root directory is ignored** if it ends as a pattern says, if the names of
a pattern stand in it, the last of which may go on, or if one of its names is hidden.  If path
and patterns are written plainly, these names are consecutive components of the path, unless
the last of them does go on. -/
theorem isIgnored_iff (hbelow : Text.Path.below? root.toList path.toList = some below) :
    (isIgnored patterns root path = true ↔
      (∃ pattern ∈ patterns, EndsAs pattern below) ∨
      (∃ pattern ∈ patterns, pattern.toList.head? ≠ some '*' ∧
        ∃ more, StandsIn pattern.toList below more) ∨
      ∃ piece ∈ Text.splitOn '/' below, IsHiddenName piece) ∧
    (WrittenPlainly below → (∀ pattern ∈ patterns, WrittenPlainly pattern.toList) →
      (isIgnored patterns root path = true ↔
        (∃ pattern ∈ patterns, EndsAs pattern below) ∨
        (∃ pattern ∈ patterns, pattern.toList.head? ≠ some '*' ∧
          (Text.Path.parts pattern.toList <:+: Text.Path.parts below ∨
            ∃ more ≠ [], StandsIn pattern.toList below more)) ∨
        ∃ piece ∈ Text.splitOn '/' below, IsHiddenName piece)) := by
  have hignored : isIgnored patterns root path = true ↔
      (∃ pattern ∈ patterns, EndsAs pattern below) ∨
      (∃ pattern ∈ patterns, pattern.toList.head? ≠ some '*' ∧
        ∃ more, StandsIn pattern.toList below more) ∨
      ∃ piece ∈ Text.splitOn '/' below, IsHiddenName piece := by
    unfold isIgnored
    rw [hbelow, Bool.or_eq_true_iff, any_isHidden_iff, List.any_eq_true]
    simp only [matchesPattern_iff, and_or_left, exists_or, or_assoc]
  refine ⟨hignored, fun hplain hpatterns => hignored.trans ?_⟩
  refine or_congr_right (or_congr_left (exists_congr fun pattern => ?_))
  refine and_congr_right fun hmem => and_congr_right fun _ => ?_
  rw [← standsIn_nil_iff (hpatterns pattern hmem) hplain]
  constructor
  · rintro ⟨more, hstands⟩
    by_cases hmore : more = []
    · exact .inl (hmore ▸ hstands)
    · exact .inr ⟨more, hmore, hstands⟩
  · rintro (hstands | ⟨more, -, hstands⟩)
    · exact ⟨[], hstands⟩
    · exact ⟨more, hstands⟩

end

/-- A page in a directory whose name starts like an ignored one. -/
def pageOfDistance : String := "/project/distance/page.tsx"

theorem pageOfDistance_ignored_iff :
    Text.Path.below? "/project".toList pageOfDistance.toList =
        some "distance/page.tsx".toList ∧
      (isIgnored defaultPatterns "/project" pageOfDistance = true ↔
        (∃ pattern ∈ defaultPatterns, EndsAs pattern "distance/page.tsx".toList) ∨
        (∃ pattern ∈ defaultPatterns, pattern.toList.head? ≠ some '*' ∧
          (Text.Path.parts pattern.toList <:+: Text.Path.parts "distance/page.tsx".toList ∨
            ∃ more ≠ [], StandsIn pattern.toList "distance/page.tsx".toList more)) ∨
        ∃ piece ∈ Text.splitOn '/' "distance/page.tsx".toList, IsHiddenName piece) := by
  have hbelow : Text.Path.below? "/project".toList pageOfDistance.toList =
      some "distance/page.tsx".toList := by decide +kernel
  exact ⟨hbelow, (isIgnored_iff hbelow).2 (by unfold WrittenPlainly; decide +kernel)
    (by unfold WrittenPlainly; decide +kernel)⟩

/-- The page is ignored with the patterns that are usual, although the components of none of them
occur in its path and none of its own is hidden. -/
theorem pageOfDistance_is_ignored :
    isIgnored defaultPatterns "/project" pageOfDistance = true ∧
      (∀ pattern ∈ defaultPatterns, pattern.toList.head? ≠ some '*' ∧
        ¬ Text.Path.parts pattern.toList <:+: Text.Path.parts "distance/page.tsx".toList) ∧
      (Text.Path.parts "distance/page.tsx".toList).any isHidden = false := by
  decide +kernel

end FontHosting.Watch
