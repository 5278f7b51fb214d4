import FontHosting.Proofs.FontCall.Layout

/-!
# Deletions are applied to the bytes of a text

An edit passes over the bytes of a text from deletion to deletion.  `foldl_delete` and
`foldl_delete_rest` say what is written when the text is put together from parts, by
induction on the parts: what is pending is what stands before the next deletion.
`apply_eq_lay`: the bytes that the edit writes are the text of the layout of the parts.
-/

namespace FontHosting.FontCall

open Script
open Text.Utf8 (size size_append)

/-! ## The deletions of an edit -/

/-- The deletions of the parts that are removed, counted from an index on. -/
def deletionsOf : Nat → List Part → List Deletion
  | _, [] => []
  | index, part :: parts =>
      if part.removed then ⟨index, part.piece.tree.span⟩ :: deletionsOf (index + 1) parts
      else deletionsOf (index + 1) parts

/-- Whether parts cover the places of their trees. -/
def ArePlaced : Nat → List Part → Prop
  | _, [] => True
  | offset, part :: parts =>
      part.piece.tree.span = part.piece.spanAt offset ∧
        ArePlaced (part.piece.spanAt offset).stop parts

theorem le_index_of_mem_deletionsOf {parts : List Part} {index : Nat} {deletion : Deletion}
    (h : deletion ∈ deletionsOf index parts) : index ≤ deletion.index := by
  induction parts generalizing index with
  | nil => cases h
  | cons part parts ih =>
      rw [deletionsOf] at h
      split at h
      · rcases List.mem_cons.mp h with rfl | h
        · exact Nat.le_refl index
        · exact Nat.le_of_succ_le (ih h)
      · exact Nat.le_of_succ_le (ih h)

/-! ## Applying an edit -/

section
variable {edit : Edit} {text passed kept removed rest : List Char} {progress : Progress}

/-- One deletion of what stands behind the text that is kept. -/
theorem delete_eq (htext : text = passed ++ (kept ++ (removed ++ rest)))
    (hcursor : progress.cursor = size passed) (index : Nat) :
    edit.delete text progress
        ⟨index, ⟨size passed + size kept, size passed + size kept + size removed⟩⟩ =
      if some index = edit.insertAt ∧ !edit.imports.isEmpty then
        ⟨progress.written ++ kept ++ joinLines edit.imports,
          size (passed ++ (kept ++ removed)), true⟩
      else
        ⟨progress.written ++ kept, skipLineEnd text (size (passed ++ (kept ++ removed))),
          progress.placed⟩ := by
  have hsize : size text = size passed + (size kept + (size removed + size rest)) := by
    rw [htext]
    simp only [size_append]
  have hslice : slice text progress.cursor (size passed + size kept) = kept := by
    rw [htext, hcursor, slice_append]
  have hstop : size passed + size kept + size removed = size (passed ++ (kept ++ removed)) := by
    simp only [size_append, Nat.add_assoc]
  simp only [Edit.delete]
  rw [if_neg (by omega), hslice, hstop]

/-- A deletion that leaves nothing behind takes the line end behind it along. -/
theorem delete_dropped (htext : text = passed ++ (kept ++ (removed ++ rest)))
    (hcursor : progress.cursor = size passed) {index : Nat}
    (hindex : ¬(some index = edit.insertAt ∧ !edit.imports.isEmpty)) :
    ∃ gone, text = gone ++ dropLineEnd rest ∧
      edit.delete text progress
          ⟨index, ⟨size passed + size kept, size passed + size kept + size removed⟩⟩ =
        ⟨progress.written ++ kept, size gone, progress.placed⟩ := by
  obtain ⟨lineEnd, hrest, -, hskip⟩ := exists_lineEnd rest
  have hbehind : text = (passed ++ (kept ++ removed)) ++ rest := by
    rw [htext]
    simp only [List.append_assoc]
  refine ⟨passed ++ (kept ++ removed) ++ lineEnd, ?_, ?_⟩
  · rw [List.append_assoc _ lineEnd, ← hrest]
    exact hbehind
  · rw [delete_eq htext hcursor, if_neg hindex, ← hskip, ← hbehind]

end

/-- Texts of parts whose first line end may be dropped. -/
theorem trimmed_partsText {part : Part} (hsolid : part.IsSolid) (trim : Bool)
    (rest : List Char) :
    trimmed trim (part.piece.gap ++ (part.piece.text ++ rest)) =
      trimmed trim part.piece.gap ++ (part.piece.text ++ rest) := by
  obtain ⟨c, others, htext, hreturn, hnewline⟩ := hsolid
  cases trim with
  | false => rfl
  | true =>
      rw [htext]
      exact dropLineEnd_append hreturn hnewline part.piece.gap (others ++ rest)

/-- The place of a part, told by what has been passed and kept of the text before it. -/
theorem place_eq {text before passed kept rest : List Char} {part : Part}
    (hbefore : text = before ++ (part.piece.gap ++ (part.piece.text ++ rest)))
    (hpassed : text = passed ++ (kept ++ (part.piece.text ++ rest)))
    (hspan : part.piece.tree.span = part.piece.spanAt (size before)) :
    part.piece.tree.span =
      ⟨size passed + size kept, size passed + size kept + size part.piece.text⟩ := by
  have hsize := congrArg size (hbefore.symm.trans hpassed)
  simp only [size_append] at hsize
  rw [hspan, Piece.spanAt]
  congr 1 <;> omega

theorem partsText_cons (part : Part) (parts : List Part) :
    partsText (part :: parts) = part.piece.gap ++ (part.piece.text ++ partsText parts) :=
  textOf_cons part.piece (parts.map Part.piece)

/-- The deletions behind the place of the imports. -/
theorem foldl_delete_rest {edit : Edit} {text tail : List Char} {parts : List Part}
    (hsolid : ∀ part ∈ parts, part.IsSolid) {index : Nat}
    (hlater : edit.imports = [] ∨
      ∀ deletion ∈ deletionsOf index parts, some deletion.index ≠ edit.insertAt)
    {trim : Bool} {before passed pending : List Char} {progress : Progress}
    (hbefore : text = before ++ (partsText parts ++ tail))
    (hpassed : text = passed ++ (pending ++ trimmed trim (partsText parts ++ tail)))
    (hplaced : ArePlaced (size before) parts) (hcursor : progress.cursor = size passed) :
    let last := (deletionsOf index parts).foldl (edit.delete text) progress
    last.placed = progress.placed ∧
      last.written ++ sliceFrom text last.cursor =
        progress.written ++ (pending ++ (lay tail trim [] parts).text) := by
  induction parts generalizing index trim before passed pending progress with
  | nil =>
      refine ⟨rfl, ?_⟩
      rw [deletionsOf, List.foldl_nil, hcursor, hpassed, sliceFrom_append]
      rfl
  | cons part parts ih =>
      obtain ⟨hpart, hparts⟩ := List.forall_mem_cons.mp hsolid
      obtain ⟨hspan, hplaced⟩ := hplaced
      rw [partsText_cons, List.append_assoc, List.append_assoc] at hbefore hpassed
      rw [trimmed_partsText hpart] at hpassed
      have hnext : text =
          (before ++ (part.piece.gap ++ part.piece.text)) ++ (partsText parts ++ tail) := by
        rw [hbefore]
        simp only [List.append_assoc]
      rw [Piece.stop_spanAt] at hplaced
      cases hremoved : part.removed with
      | false =>
          have hdeletions : deletionsOf index (part :: parts) = deletionsOf (index + 1) parts := by
            simp [deletionsOf, hremoved]
          rw [hdeletions] at hlater ⊢
          have hpassed' : text = passed ++ ((pending ++
              (trimmed trim part.piece.gap ++ part.piece.text)) ++
                trimmed false (partsText parts ++ tail)) := by
            rw [hpassed]
            simp only [List.append_assoc, trimmed, Bool.false_eq_true, if_false]
          obtain ⟨hdone, hwritten⟩ := ih hparts hlater hnext hpassed' hplaced hcursor
          refine ⟨hdone, hwritten.trans ?_⟩
          rw [lay_kept hremoved]
          simp only [List.append_assoc]
      | true =>
          have hdeletions : deletionsOf index (part :: parts) =
              ⟨index, part.piece.tree.span⟩ :: deletionsOf (index + 1) parts := by
            simp [deletionsOf, hremoved]
          rw [hdeletions] at hlater ⊢
          have hpassed' : text = passed ++ ((pending ++ trimmed trim part.piece.gap) ++
              (part.piece.text ++ (partsText parts ++ tail))) := by
            rw [hpassed]
            simp only [List.append_assoc]
          have hplace := place_eq hbefore hpassed' hspan
          have hindex : ¬(some index = edit.insertAt ∧ !edit.imports.isEmpty) := by
            rintro ⟨hindex, hnew⟩
            rcases hlater with hnone | hlater
            · simp [hnone] at hnew
            · exact hlater _ (List.mem_cons_self ..) hindex
          obtain ⟨gone, hgone, hdelete⟩ := delete_dropped hpassed' hcursor hindex
          have hbehind : text = gone ++ ([] ++ trimmed true (partsText parts ++ tail)) := hgone
          rw [List.foldl_cons, hplace, hdelete]
          generalize hafter : Progress.mk _ (size gone) progress.placed = after
          have hcursor' : after.cursor = size gone := by rw [← hafter]
          obtain ⟨hdone, hwritten⟩ := ih hparts
            (hlater.imp_right fun h deletion hmem => h deletion (List.mem_cons_of_mem _ hmem))
            hnext hbehind hplaced hcursor'
          subst hafter
          refine ⟨hdone, hwritten.trans ?_⟩
          rw [lay_removed hremoved]
          simp only [List.append_assoc, List.nil_append]

/-- The deletions of an edit that has imports to place. -/
theorem foldl_delete {edit : Edit} {text tail : List Char} {new : List Piece}
    (hnew : textOf new = joinLines edit.imports) (hne : new ≠ []) (himports : edit.imports ≠ [])
    {parts : List Part} (hsolid : ∀ part ∈ parts, part.IsSolid) {index : Nat}
    (hinsert : edit.insertAt = (deletionsOf index parts).head?.map Deletion.index)
    (hremoved : deletionsOf index parts ≠ [])
    {before passed pending : List Char} {progress : Progress}
    (hbefore : text = before ++ (partsText parts ++ tail))
    (hpassed : text = passed ++ (pending ++ (partsText parts ++ tail)))
    (hplaced : ArePlaced (size before) parts) (hcursor : progress.cursor = size passed) :
    let last := (deletionsOf index parts).foldl (edit.delete text) progress
    last.placed = true ∧
      last.written ++ sliceFrom text last.cursor =
        progress.written ++ (pending ++ (lay tail false new parts).text) := by
  induction parts generalizing index before passed pending progress with
  | nil => exact absurd rfl hremoved
  | cons part parts ih =>
      obtain ⟨hpart, hparts⟩ := List.forall_mem_cons.mp hsolid
      obtain ⟨hspan, hplaced⟩ := hplaced
      rw [partsText_cons, List.append_assoc, List.append_assoc] at hbefore hpassed
      have hnext : text =
          (before ++ (part.piece.gap ++ part.piece.text)) ++ (partsText parts ++ tail) := by
        rw [hbefore]
        simp only [List.append_assoc]
      rw [Piece.stop_spanAt] at hplaced
      have hpassed' : text = passed ++ ((pending ++ part.piece.gap) ++
          (part.piece.text ++ (partsText parts ++ tail))) := by
        rw [hpassed]
        simp only [List.append_assoc]
      cases hpartRemoved : part.removed with
      | false =>
          have hdeletions : deletionsOf index (part :: parts) = deletionsOf (index + 1) parts := by
            simp [deletionsOf, hpartRemoved]
          rw [hdeletions] at hinsert hremoved ⊢
          have hkept : text = passed ++ ((pending ++ (part.piece.gap ++ part.piece.text)) ++
              (partsText parts ++ tail)) := by
            rw [hpassed]
            simp only [List.append_assoc]
          obtain ⟨hdone, hwritten⟩ := ih hparts hinsert hremoved hnext hkept hplaced hcursor
          refine ⟨hdone, hwritten.trans ?_⟩
          rw [lay_kept hpartRemoved]
          simp only [List.append_assoc, trimmed, Bool.false_eq_true, if_false]
      | true =>
          have hdeletions : deletionsOf index (part :: parts) =
              ⟨index, part.piece.tree.span⟩ :: deletionsOf (index + 1) parts := by
            simp [deletionsOf, hpartRemoved]
          rw [hdeletions] at hinsert ⊢
          have hindex : some index = edit.insertAt ∧ !edit.imports.isEmpty := by
            simp [hinsert, himports]
          rw [List.foldl_cons, place_eq hbefore hpassed' hspan,
            delete_eq hpassed' hcursor, if_pos hindex]
          -- behind the imports no index is the one whose place they took
          have hlater : ∀ deletion ∈ deletionsOf (index + 1) parts,
              some deletion.index ≠ edit.insertAt := by
            intro deletion hdeletion heq
            have hle := le_index_of_mem_deletionsOf hdeletion
            rw [← hindex.1] at heq
            have := Option.some.inj heq
            omega
          have hbehind : text = (passed ++ ((pending ++ part.piece.gap) ++ part.piece.text)) ++
              ([] ++ trimmed false (partsText parts ++ tail)) := by
            rw [hpassed']
            simp only [List.append_assoc, List.nil_append, trimmed, Bool.false_eq_true, if_false]
          generalize hafter : Progress.mk _ _ true = after
          have hcursor' : after.cursor =
              size (passed ++ ((pending ++ part.piece.gap) ++ part.piece.text)) := by
            rw [← hafter]
          obtain ⟨hdone, hwritten⟩ :=
            foldl_delete_rest hparts (.inr hlater) hnext hbehind hplaced hcursor'
          subst hafter
          refine ⟨hdone, hwritten.trans ?_⟩
          rw [lay_first hpartRemoved hne, hnew]
          simp only [List.append_assoc, List.nil_append, trimmed, Bool.false_eq_true, if_false]

/-- **The bytes that an edit writes are the text of its layout.** -/
theorem apply_eq_lay {edit : Edit} {before tail : List Char} {parts : List Part}
    {new : List Piece} (hdeletions : edit.deletions = deletionsOf 0 parts)
    (hinsert : edit.insertAt = edit.deletions.head?.map Deletion.index)
    (hremoved : edit.deletions ≠ []) (hnew : textOf new = joinLines edit.imports)
    (hnone : new = [] ↔ edit.imports = []) (hsolid : ∀ part ∈ parts, part.IsSolid)
    (hplaced : ArePlaced (size before) parts) :
    edit.apply (before ++ (partsText parts ++ tail)) =
      edit.append (before ++ (lay tail false new parts).text) := by
  rw [hdeletions] at hinsert hremoved
  rw [Edit.apply, hdeletions]
  have hcursor : (Progress.mk [] 0 false).cursor = size [] := rfl
  by_cases himports : edit.imports = []
  · have hpassed : before ++ (partsText parts ++ tail) =
        [] ++ (before ++ trimmed false (partsText parts ++ tail)) := rfl
    obtain ⟨-, hwritten⟩ :=
      foldl_delete_rest hsolid (.inl himports) rfl hpassed hplaced hcursor
    rw [hnone.mpr himports, if_pos (.inr (by simp [himports]))]
    exact congrArg edit.append hwritten
  · have hpassed : before ++ (partsText parts ++ tail) =
        [] ++ (before ++ (partsText parts ++ tail)) := rfl
    obtain ⟨hdone, hwritten⟩ := foldl_delete hnew (mt hnone.mp himports) himports hsolid hinsert
      hremoved rfl hpassed hplaced hcursor
    rw [if_pos (.inl hdone)]
    exact congrArg edit.append hwritten

end FontHosting.FontCall
