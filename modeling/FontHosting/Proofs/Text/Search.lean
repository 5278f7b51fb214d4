import FontHosting.Text.Search
import Mathlib.Data.List.Infix

/-!
# Where a text occurs

A text occurs in another one if it is an infix of it.  A character that does not occur in
the text cuts every text around it in two: whoever looks for an occurrence finds it on one
side of the cut (`infix_append_cons`), and whoever replaces the occurrences replaces them on
both sides (`replaceAll_append_cons`).  The first occurrence is where it is whatever stands behind
it (`find?_append`, `find?_of_append`).
-/

namespace FontHosting.Text

variable {needle replacement before after : List Char} {c : Char}

theorem occursIn_iff {text : List Char} : occursIn needle text = true ↔ needle <:+: text := by
  induction text with
  | nil => rw [occursIn, List.isEmpty_iff, List.infix_nil]
  | cons first rest ih =>
      rw [occursIn, Bool.or_eq_true_iff, List.isPrefixOf_iff_prefix, ih, List.infix_cons_iff]

/-! ## Occurrences at a cut -/

theorem prefix_append_cons (hc : c ∉ needle) :
    needle <+: before ++ c :: after ↔ needle <+: before := by
  constructor
  · intro h
    have hcut : before ++ [c] <+: before ++ c :: after := by simp
    rcases List.prefix_or_prefix_of_prefix h hcut with hshort | hlong
    · rcases List.prefix_concat_iff.mp hshort with rfl | hbefore
      · exact absurd (List.mem_append_right _ (List.mem_singleton_self c)) hc
      · exact hbefore
    · exact absurd (hlong.subset (List.mem_append_right _ (List.mem_singleton_self c))) hc
  · intro h
    exact h.trans (List.prefix_append _ _)

/-- A text without a character occurs on one side of it. -/
theorem infix_append_cons (hc : c ∉ needle) (h : needle <:+: before ++ c :: after) :
    needle <:+: before ∨ needle <:+: after := by
  induction before with
  | nil =>
      rcases List.infix_cons_iff.mp h with hprefix | hafter
      · have hnone : needle <+: [] := (prefix_append_cons hc).mp hprefix
        rw [List.prefix_nil.mp hnone]
        exact Or.inl List.nil_infix
      · exact Or.inr hafter
  | cons first rest ih =>
      rcases List.infix_cons_iff.mp h with hprefix | hrest
      · exact Or.inl ((prefix_append_cons hc).mp hprefix).isInfix
      · rcases ih hrest with hbefore | hafter
        · exact Or.inl (hbefore.trans (List.infix_cons List.infix_rfl))
        · exact Or.inr hafter

/-- A text does not go on behind its last character. -/
theorem prefix_append_of_notMem (hlast : needle.getLast? = some c) (hc : c ∉ after) :
    needle <+: before ++ after ↔ needle <+: before := by
  refine ⟨fun h => ?_, fun h => h.trans (List.prefix_append _ _)⟩
  rcases List.prefix_or_prefix_of_prefix h (List.prefix_append before after) with
    hbefore | ⟨rest, rfl⟩
  · exact hbefore
  · rw [List.prefix_append_right_inj] at h
    cases rest with
    | nil => rw [List.append_nil]
    | cons first rest =>
        rw [List.getLast?_append_of_ne_nil _ (List.cons_ne_nil _ _)] at hlast
        exact absurd (h.subset (List.mem_of_getLast? hlast)) hc

/-- A text does not start in front of its first character. -/
theorem infix_of_append_right (hc : c ∉ before) (h : c :: needle <:+: before ++ after) :
    c :: needle <:+: after := by
  induction before with
  | nil => exact h
  | cons first rest ih =>
      rcases List.infix_cons_iff.mp h with hprefix | hrest
      · obtain ⟨rfl, -⟩ := List.cons_prefix_cons.mp hprefix
        exact absurd List.mem_cons_self hc
      · exact ih (fun hmem => hc (List.mem_cons_of_mem _ hmem)) hrest

/-- A text does not end behind its last character. -/
theorem infix_of_append_left (hc : c ∉ after) (h : needle ++ [c] <:+: before ++ after) :
    needle ++ [c] <:+: before := by
  rw [← List.reverse_infix, List.reverse_append] at h ⊢
  rw [List.reverse_append] at h
  exact infix_of_append_right (mt List.mem_reverse.mp hc) h

/-! ## Replacing occurrences -/

/-- Both sides of a cut are replaced on their own if no occurrence goes over the cut. -/
theorem replaceFrom_append (hcut : ∀ text, needle <+: text ++ after ↔ needle <+: text)
    (skip : Nat) (hskip : skip ≤ before.length) :
    replaceFrom needle replacement skip (before ++ after) =
      replaceFrom needle replacement skip before ++ replaceFrom needle replacement 0 after := by
  induction before generalizing skip with
  | nil =>
      obtain rfl : skip = 0 := Nat.le_zero.mp hskip
      rfl
  | cons first rest ih =>
      cases skip with
      | succ skip => exact ih skip (Nat.le_of_succ_le_succ hskip)
      | zero =>
          have hiff : needle.isPrefixOf (first :: (rest ++ after)) = true ↔
              needle.isPrefixOf (first :: rest) = true := by
            rw [List.isPrefixOf_iff_prefix, List.isPrefixOf_iff_prefix, ← List.cons_append]
            exact hcut (first :: rest)
          simp only [List.cons_append, replaceFrom]
          by_cases hhere : needle.isPrefixOf (first :: rest) = true
          · have hlength := (List.isPrefixOf_iff_prefix.mp hhere).length_le
            rw [List.length_cons] at hlength
            rw [if_pos (hiff.mpr hhere), if_pos hhere, ih (needle.length - 1) (by omega),
              List.append_assoc]
          · rw [if_neg (mt hiff.mp hhere), if_neg hhere, ih 0 (Nat.zero_le _), List.cons_append]

/-- **A character that the needle does not have stays**, and both sides are replaced. -/
theorem replaceAll_append_cons (hc : c ∉ needle) :
    replaceAll needle replacement (before ++ c :: after) =
      replaceAll needle replacement before ++ c :: replaceAll needle replacement after := by
  unfold replaceAll
  by_cases hempty : needle.isEmpty = true
  · simp only [hempty, if_true]
  · have hno : ¬ needle.isPrefixOf (c :: after) = true := by
      rw [List.isPrefixOf_iff_prefix]
      intro h
      have hnone : needle <+: [] := (prefix_append_cons hc).mp h
      exact hempty (List.isEmpty_iff.mpr (List.prefix_nil.mp hnone))
    simp only [if_neg hempty]
    rw [replaceFrom_append (fun _ => prefix_append_cons hc) 0 (Nat.zero_le _), replaceFrom,
      if_neg hno]

theorem replaceFrom_eq_self {text : List Char} (h : ¬ needle <:+: text) :
    replaceFrom needle replacement 0 text = text := by
  induction text with
  | nil => rfl
  | cons first rest ih =>
      have hhere : ¬ needle.isPrefixOf (first :: rest) = true := by
        rw [List.isPrefixOf_iff_prefix]
        exact fun hprefix => h hprefix.isInfix
      rw [replaceFrom, if_neg hhere, ih fun hrest => h (List.infix_cons hrest)]

theorem replaceAll_of_not_infix {text : List Char} (h : ¬ needle <:+: text) :
    replaceAll needle replacement text = text := by
  unfold replaceAll
  rw [replaceFrom_eq_self h, ite_self]

/-- **What stands behind a text stays**, if it does not have the last character of the needle. -/
theorem replaceAll_append_of_notMem (hlast : needle.getLast? = some c) (hc : c ∉ after) :
    replaceAll needle replacement (before ++ after) =
      replaceAll needle replacement before ++ after := by
  have hno : ¬ needle <:+: after := fun h => hc (h.subset (List.mem_of_getLast? hlast))
  unfold replaceAll
  rw [replaceFrom_append (fun _ => prefix_append_of_notMem hlast hc) 0 (Nat.zero_le _),
    replaceFrom_eq_self hno]
  split <;> rfl

/-- The needle itself is replaced as a whole. -/
theorem replaceAll_self (hneedle : needle ≠ []) :
    replaceAll needle replacement needle = replacement := by
  have hpassed : ∀ skip (text : List Char), text.length ≤ skip →
      replaceFrom needle replacement skip text = [] := by
    intro skip text hlength
    induction text generalizing skip with
    | nil => rfl
    | cons first rest ih =>
        cases skip with
        | zero => cases hlength
        | succ skip => exact ih skip (Nat.le_of_succ_le_succ hlength)
  cases needle with
  | nil => exact absurd rfl hneedle
  | cons first rest =>
      have hwhole : (first :: rest).isPrefixOf (first :: rest) = true :=
        List.isPrefixOf_iff_prefix.mpr List.prefix_rfl
      have hrest : replaceFrom (first :: rest) replacement ((first :: rest).length - 1) rest = [] :=
        hpassed _ _ (Nat.le_refl _)
      unfold replaceAll
      rw [if_neg (by simp), replaceFrom, if_pos hwhole, hrest, List.append_nil]

/-! ## Pieces of a text -/

variable {text piece : List Char}

/-- A piece occurs in the text that it was put into. -/
theorem infix_intercalate {separator : List Char} {pieces : List (List Char)}
    (h : piece ∈ pieces) : piece <:+: separator.intercalate pieces := by
  induction pieces with
  | nil => cases h
  | cons first rest ih =>
      cases rest with
      | nil => rw [List.mem_singleton.mp h, List.intercalate_singleton]
      | cons second others =>
          rw [List.intercalate_cons_cons, List.append_assoc]
          rcases List.mem_cons.mp h with rfl | hrest
          · exact (List.prefix_append _ _).isInfix
          · refine (ih hrest).trans ?_
            exact ((List.suffix_append _ _).trans (List.suffix_append _ _)).isInfix

theorem join_eq_intercalate (separator : List Char) (pieces : List (List Char)) :
    join separator pieces = separator.intercalate pieces := by
  induction pieces with
  | nil => rfl
  | cons first rest ih =>
      cases rest with
      | nil => rw [List.intercalate_singleton, join]
      | cons second others =>
          rw [List.intercalate_cons_cons, ← ih, join]
          exact List.cons_ne_nil _ _

/-- A piece between separators occurs in the text that was cut. -/
theorem infix_of_mem_splitOn {separator : Char} (h : piece ∈ splitOn separator text) :
    piece <:+: text := by
  have hjoin : piece <:+: [separator].intercalate (splitOn separator text) :=
    infix_intercalate h
  rwa [← join_eq_intercalate, join_splitOn] at hjoin

/-- A line occurs in its text. -/
theorem infix_of_mem_lines {line : List Char} (h : line ∈ lines text) : line <:+: text := by
  have hended : ∀ piece ∈ (splitOn '\n' text).dropLast,
      (if piece.getLast? = some '\r' then piece.dropLast else piece) <:+: text := by
    intro piece hpiece
    have hin := infix_of_mem_splitOn (List.dropLast_subset _ hpiece)
    split
    · exact (List.dropLast_prefix piece).isInfix.trans hin
    · exact hin
  unfold lines at h
  dsimp only at h
  split at h
  · obtain ⟨piece, hpiece, rfl⟩ := List.mem_map.mp h
    exact hended piece hpiece
  · obtain ⟨piece, hpiece, rfl⟩ := List.mem_map.mp h
    exact hended piece hpiece
  · rename_i last _ hlast
    rcases List.mem_append.mp h with hearlier | hline
    · obtain ⟨piece, hpiece, rfl⟩ := List.mem_map.mp hearlier
      exact hended piece hpiece
    · rw [List.mem_singleton.mp hline]
      exact infix_of_mem_splitOn (List.mem_of_getLast? hlast)

theorem prefix_of_find? {place : Nat} (h : find? needle text = some place) :
    needle <+: text.drop place := by
  induction text generalizing place with
  | nil =>
      rw [find?] at h
      split at h
      · rename_i hempty
        rw [List.isEmpty_iff.mp hempty]
        exact List.nil_prefix
      · cases h
  | cons first rest ih =>
      rw [find?] at h
      split at h
      · rename_i hhere
        obtain rfl := Option.some_inj.mp h
        exact List.isPrefixOf_iff_prefix.mp hhere
      · obtain ⟨later, hlater, rfl⟩ := Option.map_eq_some_iff.mp h
        exact ih hlater

/-- A text is what it was cut into. -/
theorem eq_of_splitOnce? (h : splitOnce? needle text = some (before, after)) :
    text = before ++ (needle ++ after) := by
  obtain ⟨place, hplace, hparts⟩ := Option.map_eq_some_iff.mp h
  obtain ⟨rfl, rfl⟩ := Prod.mk.inj hparts
  obtain ⟨rest, hrest⟩ := prefix_of_find? hplace
  have hafter : text.drop (place + needle.length) = rest := by
    rw [← List.drop_drop, ← hrest, List.drop_left]
  rw [hafter, hrest, List.take_append_drop]

/-- A text is found behind others that do not have its first character. -/
theorem find?_behind {first : Char} {lead : List Char} (hlead : first ∉ lead)
    (needle rest : List Char) :
    find? (first :: needle) (lead ++ (first :: needle ++ rest)) = some lead.length := by
  induction lead with
  | nil =>
      have hhere : (first :: needle).isPrefixOf (first :: (needle ++ rest)) = true :=
        List.isPrefixOf_iff_prefix.mpr (List.prefix_append _ _)
      simp only [List.nil_append, List.cons_append, find?, hhere, if_true, List.length_nil]
  | cons c others ih =>
      have hne : first ≠ c := fun h => hlead (h ▸ List.mem_cons_self)
      have hhere : ¬ (first :: needle).isPrefixOf (c :: (others ++ (first :: needle ++ rest))) =
          true := by
        rw [List.isPrefixOf_iff_prefix, List.cons_prefix_cons]
        exact fun h => hne h.1
      rw [List.cons_append, find?, if_neg hhere,
        ih fun hmem => hlead (List.mem_cons_of_mem _ hmem)]
      rfl

/-- A text is cut at the first of the characters between its parts. -/
theorem splitOnce?_behind {first : Char} {lead : List Char} (hlead : first ∉ lead)
    (rest : List Char) : splitOnce? [first] (lead ++ first :: rest) = some (lead, rest) := by
  have hfind : find? [first] (lead ++ first :: rest) = some lead.length :=
    find?_behind hlead [] rest
  have hdrop : (lead ++ first :: rest).drop (lead.length + 1) = rest := by
    rw [← List.drop_drop, List.drop_left, List.drop_one, List.tail_cons]
  rw [splitOnce?, hfind, Option.map_some, List.take_left, List.length_singleton, hdrop]

/-! ## The first occurrence of a text -/

/-- What was found is all there. -/
theorem add_length_le_of_find? {place : Nat} (h : find? needle text = some place) :
    place + needle.length ≤ text.length := by
  induction text generalizing place with
  | nil =>
      rw [find?] at h
      split at h
      · rename_i hempty
        obtain rfl := Option.some_inj.mp h
        rw [List.isEmpty_iff.mp hempty]
        exact le_rfl
      · cases h
  | cons first others ih =>
      rw [find?] at h
      split at h
      · rename_i hhere
        obtain rfl := Option.some_inj.mp h
        rw [Nat.zero_add]
        exact (List.isPrefixOf_iff_prefix.mp hhere).length_le
      · obtain ⟨later, hlater, rfl⟩ := Option.map_eq_some_iff.mp h
        have hfits := ih hlater
        rw [List.length_cons]
        omega

/-- What was found is found at the same place if more follows. -/
theorem find?_append {place : Nat} (h : find? needle text = some place) (rest : List Char) :
    find? needle (text ++ rest) = some place := by
  have hfits := add_length_le_of_find? h
  induction text generalizing place with
  | nil =>
      rw [find?] at h
      split at h
      · rename_i hempty
        obtain rfl := Option.some_inj.mp h
        rw [List.isEmpty_iff.mp hempty]
        cases rest <;> rfl
      · cases h
  | cons first others ih =>
      -- There is room for the needle here, so what follows does not matter to it.
      have hhere : needle <+: first :: (others ++ rest) ↔ needle <+: first :: others := by
        have hlonger := List.prefix_append (first :: others) rest
        refine ⟨fun hstart => ?_, fun hstart => hstart.trans hlonger⟩
        exact List.prefix_of_prefix_length_le hstart hlonger (by omega)
      rw [find?] at h
      rw [List.cons_append, find?]
      simp only [List.isPrefixOf_iff_prefix] at h ⊢
      rw [if_congr hhere rfl rfl]
      split at h
      · rename_i hstart
        rw [if_pos hstart, h]
      · rename_i hstart
        obtain ⟨later, hlater, rfl⟩ := Option.map_eq_some_iff.mp h
        rw [if_neg hstart, ih hlater (add_length_le_of_find? hlater)]
        rfl

/-- What is found in a text is found in a beginning of it, if it fits in there. -/
theorem find?_of_append {rest : List Char} {place : Nat}
    (h : find? needle (text ++ rest) = some place) (hfits : place + needle.length ≤ text.length) :
    find? needle text = some place := by
  induction text generalizing place with
  | nil =>
      rw [List.length_nil] at hfits
      obtain rfl : needle = [] := List.length_eq_zero_iff.mp (by omega)
      obtain rfl : place = 0 := by omega
      rfl
  | cons first others ih =>
      rw [List.cons_append, find?] at h
      rw [find?]
      simp only [List.isPrefixOf_iff_prefix] at h ⊢
      split at h
      · rename_i hstart
        obtain rfl := Option.some_inj.mp h
        rw [← List.cons_append] at hstart
        have hhere : needle <+: first :: others :=
          List.prefix_of_prefix_length_le hstart (List.prefix_append _ _) (by omega)
        rw [if_pos hhere]
      · rename_i hstart
        obtain ⟨later, hlater, rfl⟩ := Option.map_eq_some_iff.mp h
        rw [List.length_cons] at hfits
        have hhere : ¬ needle <+: first :: others := fun hshort =>
          hstart (hshort.trans (List.prefix_append (first :: others) rest))
        rw [if_neg hhere, ih hlater (by omega)]
        rfl

end FontHosting.Text
