import FontHosting.Text.Blank
import Mathlib.Data.List.TakeWhile

/-!
# Blanks around a text

Trimming takes blanks off a text and nothing else: what was taken off at either end is there,
and it is blank (`exists_blanks_trimStart`, `exists_blanks_trimEnd`).  What is left is solid, if
anything is (`isSolid_trim`), and a solid text is what is left of it with blanks on both sides
(`trimStart_append`, `trimEnd_append`).
-/

namespace FontHosting.Text

theorem mem_trim_of_not_isBlank {text : List Char} {c : Char} (hmem : c ∈ text)
    (hc : isBlank c = false) : c ∈ trim text := by
  have hstart : ∀ {text : List Char}, c ∈ text → c ∈ text.dropWhile isBlank := by
    intro text hmem
    rw [← List.takeWhile_append_dropWhile (p := isBlank) (l := text), List.mem_append] at hmem
    rcases hmem with hblank | hrest
    · rw [List.mem_takeWhile_imp hblank] at hc
      cases hc
    · exact hrest
  unfold trim trimEnd dropEndWhile trimStart
  rw [List.mem_reverse]
  exact hstart (List.mem_reverse.mpr (hstart hmem))

/-- The blanks in front of a text. -/
theorem exists_blanks_trimStart (text : List Char) :
    text.take (text.length - (trimStart text).length) ++ trimStart text = text ∧
      ∀ c ∈ text.take (text.length - (trimStart text).length), isBlank c = true := by
  have hsplit := List.takeWhile_append_dropWhile (p := isBlank) (l := text)
  have hlength : text.length - (trimStart text).length = (text.takeWhile isBlank).length := by
    have hsum := congrArg List.length hsplit
    rw [List.length_append] at hsum
    unfold trimStart
    omega
  have htake : text.take (text.length - (trimStart text).length) = text.takeWhile isBlank := by
    calc text.take (text.length - (trimStart text).length)
        = (text.takeWhile isBlank ++ text.dropWhile isBlank).take
            (text.takeWhile isBlank).length := by rw [hlength, hsplit]
      _ = text.takeWhile isBlank := List.take_left
  rw [htake]
  exact ⟨hsplit, fun c hc => List.mem_takeWhile_imp hc⟩

/-- The blanks behind a text. -/
theorem exists_blanks_trimEnd (text : List Char) :
    trimEnd text ++ text.drop (trimEnd text).length = text ∧
      ∀ c ∈ text.drop (trimEnd text).length, isBlank c = true := by
  have hsplit : trimEnd text ++ (text.reverse.takeWhile isBlank).reverse = text := by
    unfold trimEnd dropEndWhile
    rw [← List.reverse_append, List.takeWhile_append_dropWhile, List.reverse_reverse]
  have hdrop : text.drop (trimEnd text).length = (text.reverse.takeWhile isBlank).reverse := by
    calc text.drop (trimEnd text).length
        = (trimEnd text ++ (text.reverse.takeWhile isBlank).reverse).drop
            (trimEnd text).length := by rw [hsplit]
      _ = (text.reverse.takeWhile isBlank).reverse := List.drop_left
  rw [hdrop]
  exact ⟨hsplit, fun c hc => List.mem_takeWhile_imp (List.mem_reverse.mp hc)⟩

/-! ## Solid texts -/

/-- A text that starts and ends with characters that are not blank. -/
structure IsSolid (text : List Char) : Prop where
  starts : ∃ c rest, text = c :: rest ∧ isBlank c = false
  ends : ∃ rest c, text = rest ++ [c] ∧ isBlank c = false

theorem IsSolid.ne_nil {text : List Char} (h : IsSolid text) : text ≠ [] := by
  obtain ⟨c, rest, rfl, -⟩ := h.starts
  exact List.cons_ne_nil _ _

/-- A text starts with no blank whatever stands behind it. -/
theorem IsSolid.starts_append {text : List Char} (h : IsSolid text) (rest : List Char) :
    ∃ c others, text ++ rest = c :: others ∧ isBlank c = false := by
  obtain ⟨c, others, rfl, hc⟩ := h.starts
  exact ⟨c, others ++ rest, rfl, hc⟩

/-- A text ends with no blank whatever stands in front of it. -/
theorem IsSolid.append_ends {text : List Char} (h : IsSolid text) (lead : List Char) :
    ∃ others c, lead ++ text = others ++ [c] ∧ isBlank c = false := by
  obtain ⟨others, c, rfl, hc⟩ := h.ends
  exact ⟨lead ++ others, c, (List.append_assoc _ _ _).symm, hc⟩

section
variable {blanks text : List Char}

theorem trimStart_append (hblanks : ∀ c ∈ blanks, isBlank c = true)
    (hstarts : ∃ c rest, text = c :: rest ∧ isBlank c = false) :
    trimStart (blanks ++ text) = text := by
  obtain ⟨c, others, rfl, hc⟩ := hstarts
  unfold trimStart
  rw [List.dropWhile_append_of_pos hblanks, List.dropWhile_cons_of_neg (by simp [hc])]

theorem trimEnd_append (hends : ∃ rest c, text = rest ++ [c] ∧ isBlank c = false)
    (hblanks : ∀ c ∈ blanks, isBlank c = true) : trimEnd (text ++ blanks) = text := by
  obtain ⟨others, c, rfl, hc⟩ := hends
  have hreversed : ∀ c ∈ blanks.reverse, isBlank c = true := fun c hmem =>
    hblanks c (List.mem_reverse.mp hmem)
  unfold trimEnd dropEndWhile
  rw [List.reverse_append, List.dropWhile_append_of_pos hreversed, List.reverse_append,
    List.reverse_singleton, List.singleton_append, List.dropWhile_cons_of_neg (by simp [hc])]
  simp

/-- What is left of a text starts with no blank. -/
theorem starts_trimStart (h : trimStart text ≠ []) :
    ∃ c rest, trimStart text = c :: rest ∧ isBlank c = false := by
  obtain ⟨c, rest, hcons⟩ := List.exists_cons_of_ne_nil h
  refine ⟨c, rest, hcons, ?_⟩
  have hhead := List.head_dropWhile_not isBlank h
  unfold trimStart at hcons
  simpa only [hcons, List.head_cons] using hhead

theorem isSolid_trim (h : trim text ≠ []) : IsSolid (trim text) := by
  constructor
  · have hstart : trimStart text ≠ [] := by
      intro hnil
      rw [trim, hnil] at h
      exact h rfl
    obtain ⟨c, rest, hcons, hc⟩ := starts_trimStart hstart
    obtain ⟨first, others, htrim⟩ := List.exists_cons_of_ne_nil h
    -- the trimmed text is a beginning of the one that is trimmed in front only
    have hsplit := (exists_blanks_trimEnd (trimStart text)).1
    rw [← trim, htrim, hcons, List.cons_append] at hsplit
    obtain rfl := (List.cons.inj hsplit).1
    exact ⟨first, others, htrim, hc⟩
  · have hreversed : trimStart (trimStart text).reverse ≠ [] := by
      intro hnil
      refine h ?_
      rw [trim, trimEnd, dropEndWhile, ← trimStart, hnil, List.reverse_nil]
    obtain ⟨c, rest, hcons, hc⟩ := starts_trimStart hreversed
    refine ⟨rest.reverse, c, ?_, hc⟩
    rw [trim, trimEnd, dropEndWhile, ← trimStart, hcons, List.reverse_cons]

/-- Trimming at the end leaves the blanks in front of a text. -/
theorem trimEnd_eq_append (h : trim text ≠ []) :
    trimEnd text = text.take (text.length - (trimStart text).length) ++ trim text := by
  obtain ⟨hstart, -⟩ := exists_blanks_trimStart text
  obtain ⟨hend, hspaces⟩ := exists_blanks_trimEnd (trimStart text)
  generalize text.take (text.length - (trimStart text).length) = front at hstart ⊢
  generalize (trimStart text).drop (trimEnd (trimStart text)).length = spaces at hend hspaces
  have htext : text = front ++ trim text ++ spaces := by
    rw [List.append_assoc, trim, hend, hstart]
  calc trimEnd text = trimEnd (front ++ trim text ++ spaces) := congrArg trimEnd htext
    _ = front ++ trim text := trimEnd_append ((isSolid_trim h).append_ends front) hspaces

/-- Nothing is left of blanks. -/
theorem trim_eq_nil_iff : trim text = [] ↔ trimStart text = [] ∧ trimEnd text = [] := by
  constructor
  · intro h
    have hblank : ∀ c ∈ text, isBlank c = true := by
      intro c hc
      by_contra hsolid
      have hmem := mem_trim_of_not_isBlank hc (by simpa using hsolid)
      rw [h] at hmem
      exact absurd hmem List.not_mem_nil
    constructor
    · exact List.dropWhile_eq_nil_iff.mpr hblank
    · have hreversed : text.reverse.dropWhile isBlank = [] :=
        List.dropWhile_eq_nil_iff.mpr fun c hc => hblank c (List.mem_reverse.mp hc)
      rw [trimEnd, dropEndWhile, hreversed, List.reverse_nil]
  · rintro ⟨hstart, -⟩
    rw [trim, hstart]
    rfl

end

end FontHosting.Text
