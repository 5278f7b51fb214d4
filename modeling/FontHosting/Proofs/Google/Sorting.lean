import FontHosting.Google.Axes
import FontHosting.Proofs.Text.Blank
import FontHosting.Proofs.Text.Search
import Mathlib.Data.List.Sort
import Mathlib.Data.Prod.Lex

/-!
# Sorting the values of a URL

`sortBy` puts the same items in another order (`perm_sortBy`).  If the items are compared by an
order, the result is ascending, and the only ascending list in which items that tie stay as they
were (`Orders.isSorted_iff`).  If they are compared by their ranks (`pairwise_sortBy`) and no two
of them have the same rank, it does not depend on the order in which they came
(`sortBy_eq_of_perm`).

The values of a URL are not ordered by ranks in general, since the comparison reads values with
a comma differently from those without one.  It is by ranks where two values that start with
the same number start with the same text up to a comma (`valueBefore_iff`), as the values of
one URL do whose weights start with different numbers.
-/

namespace FontHosting.Google

/-! ## Sorting -/

section
variable {α β : Type} {before : α → α → Bool} {items : List α}

theorem perm_insertFromEnd (before : α → α → Bool) (item : α) (items : List α) :
    (insertFromEnd before item items).Perm (item :: items) := by
  induction items with
  | nil => exact .refl _
  | cons last rest ih =>
      rw [insertFromEnd]
      split
      · exact (ih.cons last).trans (.swap item last rest)
      · exact .refl _

/-- **Sorting keeps the items.** -/
theorem perm_sortBy (before : α → α → Bool) (items : List α) :
    (sortBy before items).Perm items := by
  have hfold : ∀ sorted : List α,
      (items.foldl (fun sorted item => insertFromEnd before item sorted) sorted).Perm
        (items ++ sorted) := by
    induction items with
    | nil => exact fun sorted => .refl _
    | cons item rest ih =>
        intro sorted
        rw [List.foldl_cons]
        exact ((ih _).trans ((perm_insertFromEnd before item sorted).append_left rest)).trans
          List.perm_middle
  have hsorted := (List.reverse_perm _).trans (hfold [])
  rwa [List.append_nil] at hsorted

theorem insertFromEnd_map (before : β → β → Bool) (change : α → β) (item : α) (items : List α) :
    insertFromEnd before (change item) (items.map change) =
      (insertFromEnd (fun a b => before (change a) (change b)) item items).map change := by
  induction items with
  | nil => rfl
  | cons last rest ih =>
      rw [List.map_cons, insertFromEnd, insertFromEnd, ih]
      split <;> rfl

/-- What is sorted by a part of it has its parts sorted. -/
theorem sortBy_map (before : β → β → Bool) (change : α → β) (items : List α) :
    sortBy before (items.map change) =
      (sortBy (fun a b => before (change a) (change b)) items).map change := by
  have hfold : ∀ sorted : List α,
      (items.map change).foldl (fun sorted item => insertFromEnd before item sorted)
          (sorted.map change) =
        (items.foldl (fun sorted item =>
          insertFromEnd (fun a b => before (change a) (change b)) item sorted) sorted).map
            change := by
    induction items with
    | nil => exact fun sorted => rfl
    | cons item rest ih =>
        intro sorted
        rw [List.map_cons, List.foldl_cons, List.foldl_cons, insertFromEnd_map, ih]
  unfold sortBy
  rw [List.map_reverse, ← hfold []]
  rfl

/-! ### Orders -/

/-- Items are compared by an order: of two items at most one comes before the other, and an item
that does not come before a second, which does not come before a third, does not come before the
third either. -/
structure Orders (before : α → α → Bool) (items : List α) : Prop where
  asymm : ∀ a ∈ items, ∀ b ∈ items, before a b = true → before b a = false
  trans : ∀ a ∈ items, ∀ b ∈ items, ∀ c ∈ items,
    before a b = false → before b c = false → before a c = false

theorem Orders.subset {others : List α} (h : Orders before items) (hsub : others ⊆ items) :
    Orders before others where
  asymm a ha b hb := h.asymm a (hsub ha) b (hsub hb)
  trans a ha b hb c hc := h.trans a (hsub ha) b (hsub hb) c (hsub hc)

theorem Orders.irrefl (h : Orders before items) {item : α} (hitem : item ∈ items) :
    before item item = false := by
  by_contra hbefore
  have hself := h.asymm item hitem item hitem (Bool.not_eq_false _ ▸ hbefore)
  exact hbefore hself

theorem descending_insertFromEnd {item : α} (h : Orders before (item :: items))
    (hitems : items.Pairwise fun a b => before a b = false) :
    (insertFromEnd before item items).Pairwise fun a b => before a b = false := by
  induction items with
  | nil => exact List.pairwise_singleton _ _
  | cons last rest ih =>
      obtain ⟨hlast, hrest⟩ := List.pairwise_cons.mp hitems
      have hmem : last ∈ item :: last :: rest := List.mem_cons_of_mem _ List.mem_cons_self
      rw [insertFromEnd]
      split
      · rename_i hbefore
        -- what is behind the last item now is the new one, or was behind it before
        refine List.pairwise_cons.mpr ⟨fun other hother => ?_, ih (h.subset ?_) hrest⟩
        · rcases List.mem_cons.mp ((perm_insertFromEnd before item rest).mem_iff.mp hother) with
            rfl | hother
          · exact h.asymm _ List.mem_cons_self _ hmem hbefore
          · exact hlast other hother
        · exact List.cons_subset_cons _ (List.subset_cons_self _ _)
      · rename_i hbefore
        have hitem : before item last = false := Bool.eq_false_iff.mpr hbefore
        refine List.pairwise_cons.mpr ⟨fun other hother => ?_, hitems⟩
        rcases List.mem_cons.mp hother with rfl | hother
        · exact hitem
        · exact h.trans _ List.mem_cons_self _ hmem _
            (List.mem_cons_of_mem _ (List.mem_cons_of_mem _ hother)) hitem (hlast other hother)

/-- **Items that are compared by an order are sorted in that order.** -/
theorem ascending_sortBy (h : Orders before items) :
    (sortBy before items).Pairwise fun a b => before b a = false := by
  have hfold : ∀ sorted : List α, Orders before (items ++ sorted) →
      sorted.Pairwise (fun a b => before a b = false) →
      (items.foldl (fun sorted item => insertFromEnd before item sorted) sorted).Pairwise
        fun a b => before a b = false := by
    clear h
    induction items with
    | nil => exact fun sorted _ hsorted => hsorted
    | cons item rest ih =>
        intro sorted horders hsorted
        have hinserted := perm_insertFromEnd before item sorted
        refine ih _ (horders.subset ?_) (descending_insertFromEnd (horders.subset ?_) hsorted)
        · exact ((hinserted.append_left rest).trans List.perm_middle).subset
        · exact List.cons_subset_cons _ (List.subset_append_right _ _)
  unfold sortBy
  rw [List.pairwise_reverse]
  exact hfold [] (by rwa [List.append_nil]) .nil

theorem filter_insertFromEnd {keep : α → Bool} {item : α}
    (h : ∀ other ∈ items, keep item = true → keep other = true → before item other = false) :
    (insertFromEnd before item items).filter keep = (item :: items).filter keep := by
  induction items with
  | nil => rfl
  | cons last rest ih =>
      have hrest := ih fun other hother => h other (List.mem_cons_of_mem _ hother)
      rw [insertFromEnd]
      split
      · rename_i hbefore
        have hapart : ¬ (keep item = true ∧ keep last = true) := fun hkept =>
          Bool.false_ne_true ((h last List.mem_cons_self hkept.1 hkept.2).symm.trans hbefore)
        rw [List.filter_cons, hrest]
        cases hitem : keep item <;> cases hlast : keep last <;> simp_all
      · rfl

/-- **Items of which none comes before another keep their places among each other.** -/
theorem filter_sortBy {keep : α → Bool}
    (h : ∀ a ∈ items, ∀ b ∈ items, keep a = true → keep b = true → before a b = false) :
    (sortBy before items).filter keep = items.filter keep := by
  have hfold : ∀ sorted : List α,
      (∀ a ∈ items, ∀ b ∈ items ++ sorted, keep a = true → keep b = true →
        before a b = false) →
      (items.foldl (fun sorted item => insertFromEnd before item sorted) sorted).filter keep =
        (items.filter keep).reverse ++ sorted.filter keep := by
    clear h
    induction items with
    | nil => exact fun sorted _ => rfl
    | cons item rest ih =>
        intro sorted happart
        have hmem : ∀ b ∈ rest ++ insertFromEnd before item sorted, b ∈ item :: rest ++ sorted :=
          fun b hb => (((perm_insertFromEnd before item sorted).append_left rest).trans
            List.perm_middle).mem_iff.mp hb
        rw [List.foldl_cons, ih _ fun a ha b hb =>
            happart a (List.mem_cons_of_mem _ ha) b (hmem b hb),
          filter_insertFromEnd fun other hother =>
            happart item List.mem_cons_self other (List.mem_append_right _ hother)]
        cases hitem : keep item <;> simp [hitem]
  unfold sortBy
  rw [List.filter_reverse, hfold [] (by simpa using h), List.filter_nil, List.append_nil,
    List.reverse_reverse]

/-- Neither of two items comes before the other. -/
def ties (before : α → α → Bool) (a b : α) : Bool := !before a b && !before b a

/-- A list has the items of another in ascending order, and those that tie as they were. -/
structure IsSorted (before : α → α → Bool) (items sorted : List α) : Prop where
  perm : sorted.Perm items
  ascending : sorted.Pairwise fun a b => before b a = false
  stable : ∀ item ∈ items, sorted.filter (ties before item) = items.filter (ties before item)

/-- There is one way only to sort items. -/
theorem eq_of_ascending {first second : List α} (hirrefl : ∀ item ∈ first, before item item = false)
    (hperm : first.Perm second) (hfirst : first.Pairwise fun a b => before b a = false)
    (hsecond : second.Pairwise fun a b => before b a = false)
    (hstable : ∀ item ∈ first, first.filter (ties before item) =
      second.filter (ties before item)) : first = second := by
  induction first generalizing second with
  | nil => exact (List.nil_perm.mp hperm).symm
  | cons x xs ih =>
      cases second with
      | nil => exact absurd hperm.symm (List.not_perm_nil_cons x xs)
      | cons y ys =>
          obtain ⟨hx, hxs⟩ := List.pairwise_cons.mp hfirst
          obtain ⟨hy, hys⟩ := List.pairwise_cons.mp hsecond
          -- the first items of both lists tie, so they are the first of those that tie with them
          have hself := hirrefl x List.mem_cons_self
          have hxy : before y x = false := by
            rcases List.mem_cons.mp (hperm.mem_iff.mpr List.mem_cons_self) with rfl | hmem
            · exact hself
            · exact hx y hmem
          have hyx : before x y = false := by
            rcases List.mem_cons.mp (hperm.mem_iff.mp List.mem_cons_self) with rfl | hmem
            · exact hself
            · exact hy x hmem
          have hheads := hstable x List.mem_cons_self
          rw [List.filter_cons_of_pos (by simp [ties, hself]),
            List.filter_cons_of_pos (by simp [ties, hxy, hyx])] at hheads
          obtain rfl := (List.cons.inj hheads).1
          refine congrArg (x :: ·) (ih (fun item hitem => hirrefl item (List.mem_cons_of_mem _ hitem))
            ((List.perm_cons x).mp hperm) hxs hys fun item hitem => ?_)
          have htails := hstable item (List.mem_cons_of_mem _ hitem)
          rw [List.filter_cons, List.filter_cons] at htails
          split at htails
          · exact (List.cons.inj htails).2
          · exact htails

/-- **Sorting by an order has one result**, and that is the list in order. -/
theorem Orders.isSorted_iff (h : Orders before items) {sorted : List α} :
    IsSorted before items sorted ↔ sorted = sortBy before items := by
  have hsorted : IsSorted before items (sortBy before items) := by
    refine ⟨perm_sortBy before items, ascending_sortBy h, fun item hitem => ?_⟩
    refine filter_sortBy fun a ha b hb htie hother => ?_
    have hitems : before a item = false ∧ before item b = false := by
      simp only [ties, Bool.and_eq_true, Bool.not_eq_true'] at htie hother
      exact ⟨htie.2, hother.1⟩
    exact h.trans a ha item hitem b hb hitems.1 hitems.2
  constructor
  · intro hother
    refine eq_of_ascending (fun item hitem => h.irrefl (hother.perm.mem_iff.mp hitem))
      (hother.perm.trans hsorted.perm.symm) hother.ascending hsorted.ascending fun item hitem => ?_
    have hmem := hother.perm.mem_iff.mp hitem
    rw [hother.stable item hmem, hsorted.stable item hmem]
  · rintro rfl
    exact hsorted

/-! ### Ranks -/

/-- Items are compared by their ranks. -/
def ComparesBy [LT β] (before : α → α → Bool) (rank : α → β) (items : List α) : Prop :=
  ∀ a ∈ items, ∀ b ∈ items, (before a b = true ↔ rank a < rank b)

theorem ComparesBy.perm [LT β] {rank : α → β} {others : List α}
    (h : ComparesBy before rank items) (hperm : items.Perm others) :
    ComparesBy before rank others :=
  fun a ha b hb => h a (hperm.mem_iff.mpr ha) b (hperm.mem_iff.mpr hb)

variable [LinearOrder β] {rank : α → β}

theorem ComparesBy.eq_false_iff (h : ComparesBy before rank items) {a b : α} (ha : a ∈ items)
    (hb : b ∈ items) : before a b = false ↔ rank b ≤ rank a := by
  rw [← not_lt, ← h a ha b hb, Bool.not_eq_true]

theorem ComparesBy.orders (h : ComparesBy before rank items) : Orders before items where
  asymm a ha b hb hab := (h.eq_false_iff hb ha).mpr ((h a ha b hb).mp hab).le
  trans _ ha _ hb _ hc hab hbc := (h.eq_false_iff ha hc).mpr <|
    ((h.eq_false_iff hb hc).mp hbc).trans ((h.eq_false_iff ha hb).mp hab)

/-- **Items that are compared by ranks are sorted in the order of their ranks.** -/
theorem pairwise_sortBy (h : ComparesBy before rank items) :
    (sortBy before items).Pairwise fun a b => rank a ≤ rank b := by
  have hmem := fun a => (perm_sortBy before items).mem_iff (a := a)
  refine (ascending_sortBy h.orders).imp_of_mem fun {a b} ha hb hab => ?_
  exact (h.eq_false_iff ((hmem b).mp hb) ((hmem a).mp ha)).mp hab

/-- **Items of different ranks are sorted in one way only.** -/
theorem sortBy_eq_of_perm {others : List α} (hperm : items.Perm others)
    (h : ComparesBy before rank items)
    (hranks : ∀ a ∈ items, ∀ b ∈ items, rank a = rank b → a = b) :
    sortBy before items = sortBy before others := by
  have hitems := perm_sortBy before items
  have hboth : (sortBy before items).Perm (sortBy before others) :=
    (hitems.trans hperm).trans (perm_sortBy before others).symm
  refine hboth.eq_of_pairwise (fun a b ha hb hab hba => ?_) (pairwise_sortBy h)
    (pairwise_sortBy (h.perm hperm))
  exact hranks a (hitems.mem_iff.mp ha) b
    (hperm.mem_iff.mpr ((perm_sortBy before others).mem_iff.mp hb)) (hab.antisymm hba)

end

/-! ## The number in front of a value -/

/-- The digits that a text starts with, behind a minus sign if there is one. -/
def digitsInFront : List Char → List Char
  | '-' :: rest => '-' :: rest.takeWhile Char.isDigit
  | text => text.takeWhile Char.isDigit

theorem digitsInFront_of_ne {c : Char} (hc : c ≠ '-') (rest : List Char) :
    digitsInFront (c :: rest) = (c :: rest).takeWhile Char.isDigit := by
  unfold digitsInFront
  split
  · rename_i heq
    exact absurd (List.cons.inj heq).1 hc
  · rfl

theorem leadingInt_eq (value : List Char) :
    leadingInt value = (Decimal.readInt64? (digitsInFront (Text.trim value))).getD 0 := by
  unfold leadingInt
  dsimp only
  generalize Text.trim value = text
  cases text with
  | nil => rfl
  | cons c rest =>
      by_cases hc : c = '-'
      · subst hc
        rfl
      · rw [digitsInFront_of_ne hc]
        split
        · rename_i heq
          exact absurd (List.cons.inj heq).1 hc
        · rfl

/-- A run of digits ends in front of what does not start with a digit. -/
theorem takeWhile_isDigit_append (text : List Char) {rest : List Char}
    (hrest : ∀ c ∈ rest.head?, c.isDigit = false) :
    (text ++ rest).takeWhile Char.isDigit = text.takeWhile Char.isDigit := by
  induction text with
  | nil =>
      cases rest with
      | nil => rfl
      | cons c rest => simp [hrest c rfl]
  | cons first text ih =>
      rw [List.cons_append, List.takeWhile_cons, List.takeWhile_cons, ih]

/-- So does a number, in front of what does not start with a minus sign either. -/
theorem digitsInFront_append (text : List Char) {rest : List Char}
    (hrest : ∀ c ∈ rest.head?, c.isDigit = false ∧ c ≠ '-') :
    digitsInFront (text ++ rest) = digitsInFront text := by
  have hdigits := fun c hc => (hrest c hc).1
  cases text with
  | nil =>
      cases rest with
      | nil => rfl
      | cons c rest =>
          rw [List.nil_append, digitsInFront_of_ne (hrest c rfl).2]
          exact takeWhile_isDigit_append [] hdigits
  | cons first text =>
      by_cases hfirst : first = '-'
      · subst hfirst
        exact congrArg ('-' :: ·) (takeWhile_isDigit_append text hdigits)
      · rw [List.cons_append, digitsInFront_of_ne hfirst, digitsInFront_of_ne hfirst]
        exact takeWhile_isDigit_append (first :: text) hdigits

theorem isBlank_eq_false_of_isDigit {c : Char} (h : c.isDigit = true) :
    Text.isBlank c = false := by
  have hrange : 0x30 ≤ c.toNat ∧ c.toNat ≤ 0x39 := by
    simpa [Char.isDigit, UInt32.le_iff_toNat_le] using h
  unfold Text.isBlank
  simp only [Bool.or_eq_false_iff, Bool.and_eq_false_iff, decide_eq_false_iff_not, beq_eq_false_iff_ne]
  omega

/-- Blanks behind a text do not matter to the number in front. -/
theorem digitsInFront_trimEnd (text : List Char) :
    digitsInFront (Text.trimEnd text) = digitsInFront text := by
  obtain ⟨hsplit, hblanks⟩ := Text.exists_blanks_trimEnd text
  have hend : ∀ c ∈ (text.drop (Text.trimEnd text).length).head?,
      c.isDigit = false ∧ c ≠ '-' := by
    intro c hc
    have hblank := hblanks c (List.mem_of_head? hc)
    constructor
    · by_contra hdigit
      rw [isBlank_eq_false_of_isDigit (Bool.not_eq_false _ ▸ hdigit)] at hblank
      cases hblank
    · rintro rfl
      revert hblank
      decide
  rw [← digitsInFront_append _ hend, hsplit]

/-- **What stands behind a comma does not matter to the number in front.** -/
theorem leadingInt_append_comma (first rest : List Char) :
    leadingInt (first ++ ',' :: rest) = leadingInt first := by
  have hstart : Text.trimStart (first ++ ',' :: rest) = Text.trimStart first ++ ',' :: rest := by
    unfold Text.trimStart
    rw [List.dropWhile_append]
    split
    · rename_i hempty
      rw [List.isEmpty_iff.mp hempty]
      rfl
    · rfl
  rw [leadingInt_eq, leadingInt_eq, Text.trim, Text.trim, digitsInFront_trimEnd,
    digitsInFront_trimEnd, hstart, digitsInFront_append]
  rintro c hc
  obtain rfl : ',' = c := Option.some_inj.mp hc
  decide

/-! ## Ranks of values -/

/-- The rank of a value: the number that it starts with, and the one behind its first comma. -/
def valueRank (value : String) : Int ×ₗ Int :=
  match Text.splitOnce? [','] value.toList with
  | some (first, rest) => toLex (leadingInt first, leadingInt rest)
  | none => toLex (leadingInt value.toList, 0)

/-- The rank of a value starts with the number that the value starts with. -/
theorem exists_valueRank (value : String) :
    ∃ second, valueRank value = toLex (leadingInt value.toList, second) := by
  unfold valueRank
  split
  · rename_i first rest hsplit
    rw [Text.eq_of_splitOnce? hsplit]
    exact ⟨_, by rw [List.singleton_append, leadingInt_append_comma]⟩
  · exact ⟨_, rfl⟩

/-- Two values with a comma have the same text in front of it. -/
def ShareFront (a b : String) : Prop :=
  ∃ front first second, Text.splitOnce? [','] a.toList = some (front, first) ∧
    Text.splitOnce? [','] b.toList = some (front, second)

theorem compareValues_self (value : String) : compareValues value value = .eq := by
  unfold compareValues
  split
  · rename_i ha hb
    obtain ⟨rfl, rfl⟩ := Prod.mk.inj (Option.some_inj.mp (ha.symm.trans hb))
    rw [if_pos rfl]
    exact compare_eq_iff_eq.mpr rfl
  · exact compare_eq_iff_eq.mpr rfl

theorem compareValues_of_ne {a b : String} (h : leadingInt a.toList ≠ leadingInt b.toList) :
    compareValues a b = compare (leadingInt a.toList) (leadingInt b.toList) := by
  unfold compareValues
  split
  · rename_i aFirst aRest bFirst bRest ha hb
    have hfirst : ∀ {value : String} {first rest : List Char},
        Text.splitOnce? [','] value.toList = some (first, rest) →
          leadingInt value.toList = leadingInt first := by
      intro value first rest hsplit
      rw [Text.eq_of_splitOnce? hsplit, List.singleton_append, leadingInt_append_comma]
    rw [hfirst ha, hfirst hb] at h ⊢
    rw [if_neg fun heq => h (congrArg leadingInt heq)]
  · rfl

/-- **Values are compared by their ranks**, unless they start with the same number and are
neither the same nor alike up to a comma. -/
theorem valueBefore_iff {a b : String}
    (h : leadingInt a.toList = leadingInt b.toList → a = b ∨ ShareFront a b) :
    valueBefore a b = true ↔ valueRank a < valueRank b := by
  unfold valueBefore
  rw [beq_iff_eq]
  by_cases hnumber : leadingInt a.toList = leadingInt b.toList
  · rcases h hnumber with rfl | ⟨front, first, second, ha, hb⟩
    · rw [compareValues_self]
      simp
    · unfold compareValues valueRank
      rw [ha, hb]
      simp [Prod.Lex.toLex_lt_toLex, compare_lt_iff_lt]
  · obtain ⟨aSecond, ha⟩ := exists_valueRank a
    obtain ⟨bSecond, hb⟩ := exists_valueRank b
    rw [compareValues_of_ne hnumber, ha, hb, Prod.Lex.toLex_lt_toLex, compare_lt_iff_lt]
    simp [hnumber]

end FontHosting.Google
