import FontHosting.Asset
import FontHosting.Proofs.Text.Percent
import FontHosting.Proofs.Text.Search
import FontHosting.Url
import Mathlib.Data.List.DropRight

/-!
# Public URLs below a base

A public URL is a base with a path behind it.  If the base does not end with `/` and the path
is `/` with something other than `/` behind it, then the two are told apart again: the origin of
the URL is that of the base (`splitOrigin?_append`).

Encoding goes through the characters of a path one by one (`encodeSegments_eq`).  It leaves exactly
those paths alone that are made of unreserved characters and `/` (`encodeSegments_eq_self_iff`),
and what it gives has no `:`.
-/

namespace FontHosting.Text

variable {needle text before after : List Char}

/-! ## Cutting at the first occurrence -/

theorem splitOnce?_append (h : splitOnce? needle text = some (before, after))
    (rest : List Char) : splitOnce? needle (text ++ rest) = some (before, after ++ rest) := by
  obtain ⟨place, hplace, hparts⟩ := Option.map_eq_some_iff.mp h
  obtain ⟨rfl, rfl⟩ := Prod.mk.inj hparts
  have hfits := add_length_le_of_find? hplace
  unfold splitOnce?
  rw [find?_append hplace, Option.map_some, List.take_append_of_le_length (by omega),
    List.drop_append_of_le_length hfits]

theorem splitOnce?_eq_none (h : ¬ needle <:+: text) : splitOnce? needle text = none := by
  cases hsplit : splitOnce? needle text with
  | none => rfl
  | some parts =>
      obtain ⟨before, after⟩ := parts
      refine absurd ?_ h
      rw [eq_of_splitOnce? hsplit]
      exact ⟨before, after, by rw [List.append_assoc]⟩

theorem infix_of_splitOnce?_eq_none (h : splitOnce? needle text = none) : ¬ needle <:+: text := by
  rw [splitOnce?, Option.map_eq_none_iff] at h
  induction text with
  | nil =>
      rw [find?] at h
      split at h
      · cases h
      · rename_i hempty
        rw [List.infix_nil]
        exact fun hnil => hempty (List.isEmpty_iff.mpr hnil)
  | cons first others ih =>
      rw [find?] at h
      split at h
      · cases h
      · rename_i hhere
        rw [List.infix_cons_iff]
        rintro (hstart | hlater)
        · exact hhere (List.isPrefixOf_iff_prefix.mpr hstart)
        · exact ih (Option.map_eq_none_iff.mp h) hlater

end FontHosting.Text

namespace FontHosting.Url

open Text (splitOnce? splitOnce?_append splitOnce?_eq_none)
open Text.Percent (encode encodeChar isUnreserved)

/-! ## Origins -/

/-- What stands between the scheme and the host of a URL. -/
def schemeMark : List Char := "://".toList

/-- A path that can be told from what stands before it: it starts with `/`, and then something
else follows. -/
def IsTail (tail : List Char) : Prop :=
  ∃ second rest, tail = '/' :: second :: rest ∧ second ≠ '/' ∧ ':' ∉ tail

variable {url origin path tail : List Char}

theorem eq_of_splitOrigin? (h : splitOrigin? url = some (origin, path)) :
    url = origin ++ path ∧ ':' ∈ origin := by
  obtain ⟨⟨scheme, rest⟩, hsplit, h⟩ := Option.bind_eq_some_iff.mp h
  dsimp only at h
  split at h
  · cases h
  · obtain ⟨rfl, rfl⟩ := Prod.mk.inj (Option.some_inj.mp h)
    rw [List.span_eq_takeWhile_dropWhile]
    refine ⟨?_, by simp⟩
    rw [Text.eq_of_splitOnce? hsplit]
    simp [List.takeWhile_append_dropWhile]

/-- No scheme ends where a path is put behind a URL. -/
theorem not_infix_append (hurl : url.getLast? ≠ some '/') (htail : IsTail tail)
    (h : ¬ schemeMark <:+: url) : ¬ schemeMark <:+: url ++ tail := by
  obtain ⟨second, rest, rfl, hsecond, hcolon⟩ := htail
  have hmark : second ∉ schemeMark := by
    simp only [List.mem_cons, not_or] at hcolon
    simp [schemeMark, hsecond, Ne.symm hcolon.2.1]
  intro hwithin
  -- The mark ends before the second character of the tail, or it starts behind it.
  rw [show url ++ '/' :: second :: rest = url ++ ['/'] ++ second :: rest by simp] at hwithin
  rcases Text.infix_append_cons hmark hwithin with hbefore | hafter
  · rcases List.infix_concat_iff.mp hbefore with hsuffix | hinfix
    · obtain ⟨front, hfront⟩ := hsuffix
      have hfront : front ++ [':', '/'] ++ ['/'] = url ++ ['/'] := by
        rw [← hfront]
        simp [schemeMark]
      rw [← List.append_cancel_right hfront] at hurl
      simp at hurl
    · exact h hinfix
  · refine hcolon ?_
    have hin : ':' ∈ rest := hafter.subset (by simp [schemeMark])
    exact List.mem_cons_of_mem _ (List.mem_cons_of_mem _ hin)

theorem takeWhile_append (htail : IsTail tail) (text : List Char) :
    (text ++ tail).takeWhile (fun c => c != '/') = text.takeWhile fun c => c != '/' := by
  obtain ⟨second, rest, rfl, -⟩ := htail
  rw [List.takeWhile_append]
  split
  · rename_i hall
    rw [List.takeWhile_cons_of_neg (by simp), List.append_nil]
    exact ((List.takeWhile_prefix _).eq_of_length hall).symm
  · rfl

theorem dropWhile_append (htail : IsTail tail) (text : List Char) :
    (text ++ tail).dropWhile (fun c => c != '/') = text.dropWhile (fun c => c != '/') ++ tail := by
  obtain ⟨second, rest, rfl, -⟩ := htail
  rw [List.dropWhile_append]
  split
  · rename_i hnone
    rw [List.isEmpty_iff.mp hnone, List.dropWhile_cons_of_neg (by simp), List.nil_append]
  · rfl

/-- **The origin of a URL is that of its base.** -/
theorem splitOrigin?_append (hurl : url.getLast? ≠ some '/') (htail : IsTail tail) :
    splitOrigin? (url ++ tail) =
      (splitOrigin? url).map fun parts => (parts.1, parts.2 ++ tail) := by
  cases hsplit : splitOnce? schemeMark url with
  | none =>
      have hnone := splitOnce?_eq_none
        (not_infix_append hurl htail (Text.infix_of_splitOnce?_eq_none hsplit))
      unfold splitOrigin?
      rw [show "://".toList = schemeMark from rfl, hsplit, hnone]
      rfl
  | some parts =>
      obtain ⟨scheme, rest⟩ := parts
      have hrest : rest ≠ [] := by
        rintro rfl
        refine hurl ?_
        rw [Text.eq_of_splitOnce? hsplit]
        simp [schemeMark]
      obtain ⟨first, others, rfl⟩ := List.exists_cons_of_ne_nil hrest
      unfold splitOrigin?
      rw [show "://".toList = schemeMark from rfl, hsplit, splitOnce?_append hsplit]
      simp only [Option.bind_eq_bind, Option.bind_some, List.span_eq_takeWhile_dropWhile]
      have htake : (first :: others ++ tail).takeWhile (fun c => c != '/') =
          (first :: others).takeWhile fun c => c != '/' := takeWhile_append htail _
      have hdrop : (first :: others ++ tail).dropWhile (fun c => c != '/') =
          (first :: others).dropWhile (fun c => c != '/') ++ tail := dropWhile_append htail _
      rw [htake, hdrop]
      by_cases hscheme : scheme.isEmpty = true
      · simp [hscheme]
      · simp [hscheme]

/-! ## Encoded paths -/

/-- One character of a path: `/` and unreserved ones stand for themselves. -/
def encodePathChar (c : Char) : List Char :=
  if c = '/' then ['/'] else encodeChar c

/-- A character of a path that stands for itself. -/
def IsPlainChar (c : Char) : Prop :=
  c = '/' ∨ isUnreserved c = true

/-- **A path is encoded character by character.** -/
theorem encodeSegments_eq (path : List Char) :
    encodeSegments path = path.flatMap encodePathChar := by
  unfold encodeSegments
  induction path with
  | nil => rfl
  | cons c rest ih =>
      obtain ⟨piece, pieces, hpieces⟩ :=
        List.exists_cons_of_ne_nil (Text.splitOn_ne_nil '/' rest)
      rw [List.flatMap_cons, ← ih, encodePathChar, Text.splitOn, hpieces]
      split
      · simp [Text.join, encode]
      · cases pieces <;> simp [Text.join, encode, List.flatMap_cons]

theorem encodeSegments_append (first second : List Char) :
    encodeSegments (first ++ second) = encodeSegments first ++ encodeSegments second := by
  rw [encodeSegments_eq, encodeSegments_eq, encodeSegments_eq, List.flatMap_append]

theorem encodePathChar_of_isPlainChar {c : Char} (h : IsPlainChar c) : encodePathChar c = [c] := by
  unfold encodePathChar
  split
  · rename_i hslash
    rw [hslash]
  · rename_i hslash
    rw [encodeChar, if_pos (h.resolve_left hslash)]

/-- Any other character takes three places for each of its bytes. -/
theorem length_encodePathChar {c : Char} (h : ¬ IsPlainChar c) :
    (encodePathChar c).length = 3 * (Text.Utf8.encodeChar c).length := by
  obtain ⟨hslash, hreserved⟩ := not_or.mp h
  rw [encodePathChar, if_neg hslash, encodeChar, if_neg hreserved]
  induction Text.Utf8.encodeChar c with
  | nil => rfl
  | cons byte bytes ih =>
      rw [List.flatMap_cons, List.length_append, ih, List.length_cons]
      simp only [Text.Percent.escape, List.length_cons, List.length_nil]
      omega

theorem length_encodePathChar_pos (c : Char) : 0 < (encodePathChar c).length := by
  by_cases h : IsPlainChar c
  · rw [encodePathChar_of_isPlainChar h]
    exact Nat.zero_lt_one
  · have hbytes := Text.Utf8.length_encodeChar_pos c
    rw [length_encodePathChar h]
    omega

theorem length_le_length_flatMap (path : List Char) :
    path.length ≤ (path.flatMap encodePathChar).length := by
  induction path with
  | nil => exact le_rfl
  | cons c rest ih =>
      have hc := length_encodePathChar_pos c
      rw [List.flatMap_cons, List.length_append, List.length_cons]
      omega

/-- **Encoding leaves a path alone exactly if all of its characters stand for themselves.** -/
theorem encodeSegments_eq_self_iff :
    encodeSegments path = path ↔ ∀ c ∈ path, IsPlainChar c := by
  rw [encodeSegments_eq]
  induction path with
  | nil => simp
  | cons c rest ih =>
      rw [List.flatMap_cons, List.forall_mem_cons]
      by_cases hc : IsPlainChar c
      · rw [encodePathChar_of_isPlainChar hc, List.singleton_append, List.cons_inj_right, ih]
        exact (and_iff_right hc).symm
      · refine iff_of_false (fun hsame => ?_) fun hall => hc hall.1
        -- The character takes more than one place, and no other one less.
        have hlength := congrArg List.length hsame
        have hlater := length_le_length_flatMap rest
        have hbytes := Text.Utf8.length_encodeChar_pos c
        rw [List.length_append, length_encodePathChar hc, List.length_cons] at hlength
        omega

/-- A mark that would have to be encoded stands in no encoded path. -/
theorem notMem_encodeSegments {mark : Char} (hslash : mark ≠ '/') (hmark : isUnreserved mark = false)
    (hpercent : mark ≠ '%') (path : List Char) : mark ∉ encodeSegments path := by
  rw [encodeSegments_eq]
  intro hmem
  obtain ⟨c, -, hc⟩ := List.mem_flatMap.mp hmem
  unfold encodePathChar at hc
  split at hc
  · exact hslash (List.mem_singleton.mp hc)
  · have hencoded : mark ∈ encode [c] := by
      simpa [encode] using hc
    exact Text.Percent.notMem_encode hmark hpercent [c] hencoded

end FontHosting.Url
