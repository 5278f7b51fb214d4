import FontHosting.FontCall.Transform
import FontHosting.Proofs.FontCall.Deletion
import FontHosting.Proofs.Script.Start

/-!
# What an edit leaves of a text

An edit goes through a text with a cursor, which may run ahead of a deletion, and with a mark for
the imports.  What comes out of it is told here without either:

* `keptSegments` cuts a text at its deletions, and putting the deletions back restores it
  (`weave_keptSegments`);
* `Edit.result` puts the segments together again, the first two around the imports and the others
  without the line end they start with, and ends with the exports.

The two agree for well-formed edits (`apply_eq_result`), and the edit that is made for a script is
well-formed (`isWellFormed_ofAnalysis`).  The induction is over the deletions; what it carries
along is that the cursor stands behind the last deletion and the line end that goes with it.  A
deletion that the cursor has run past is the second half of that line end: it is skipped, and
nothing is left of it either way (`dropLineEnd_solid`).
-/

namespace FontHosting.FontCall

open Script
open Text.Utf8 (size size_nil size_append size_cons length_encodeChar_pos)

/-! ## Well-formed edits -/

/-- Whether an offset is a place between two characters of a text, or at one of its ends. -/
def IsBoundary (text : List Char) (offset : Nat) : Prop :=
  ∃ before behind, text = before ++ behind ∧ offset = size before

/-- Whether a text starts with one of the two line ends. -/
def StartsWithLineEnd (text : List Char) : Prop :=
  ['\n'] <+: text ∨ ['\r', '\n'] <+: text

/-- Whether a deletion is a part of a text that starts with no line end. -/
structure Deletion.Cuts (deletion : Deletion) (text : List Char) : Prop where
  nonempty : deletion.span.start < deletion.span.stop
  starts : IsBoundary text deletion.span.start
  stops : IsBoundary text deletion.span.stop
  solid : ¬StartsWithLineEnd (slice text deletion.span.start deletion.span.stop)

/-- Whether an edit takes parts out of a text one behind the other, and has its imports take the
place of the first of them. -/
structure Edit.IsWellFormed (edit : Edit) (text : List Char) : Prop where
  deletes : edit.deletions ≠ []
  cuts : ∀ deletion ∈ edit.deletions, deletion.Cuts text
  counted : edit.deletions.Pairwise fun first second => first.index < second.index
  ordered : edit.deletions.Pairwise fun first second => first.span.stop ≤ second.span.start
  replaced : edit.insertAt = edit.deletions.head?.map Deletion.index

/-! ## Results -/

/-- What stands between deletions, in front of the first one and behind the last one. -/
def keptSegments (text : List Char) : Nat → List Deletion → List (List Char)
  | offset, [] => [sliceFrom text offset]
  | offset, deletion :: rest =>
      slice text offset deletion.span.start :: keptSegments text deletion.span.stop rest

/-- Two lists of texts, in turn. -/
def weave : List (List Char) → List (List Char) → List Char
  | kept :: others, removed :: rest => kept ++ removed ++ weave others rest
  | kept, _ => kept.flatten

/-- A text whose last line has ended. -/
def endLine (text : List Char) : List Char :=
  if text = [] ∨ text.getLast? = some '\n' then text else text ++ ['\n']

/-- A text with lines behind it. -/
def withLines (text : List Char) (lines : List String) : List Char :=
  if lines = [] then text else endLine text ++ lines.flatMap fun line => line.toList ++ ['\n']

/-- A text after an edit: what is kept of it, with the imports between the first two segments.
A segment loses the line end it starts with, unless imports stand there. -/
def Edit.result (edit : Edit) (text : List Char) : List Char :=
  match keptSegments text 0 edit.deletions with
  | before :: behind :: others =>
      withLines (before ++ joinLines edit.imports ++ trimmed edit.imports.isEmpty behind ++
        others.flatMap dropLineEnd) edit.exports
  | kept => withLines kept.flatten edit.exports

/-! ## Places in a text -/

theorem eq_nil_of_size {text : List Char} (h : size text = 0) : text = [] := by
  cases text with
  | nil => rfl
  | cons c rest =>
      have hwidth := length_encodeChar_pos c
      rw [size_cons] at h
      omega

/-- Of two beginnings of a text the one that is no longer is a beginning of the other. -/
theorem exists_append_of_size_le {first second rest others : List Char}
    (h : first ++ rest = second ++ others) (hsize : size first ≤ size second) :
    ∃ between, second = first ++ between := by
  rcases List.append_eq_append_iff.mp h with ⟨between, hsecond, -⟩ | ⟨between, hfirst, -⟩
  · exact ⟨between, hsecond⟩
  · rw [hfirst, size_append] at hsize
    obtain rfl : between = [] := eq_nil_of_size (by omega)
    exact ⟨[], by rw [hfirst, List.append_nil, List.append_nil]⟩

/-- How a deletion cuts what follows a place of a text into three. -/
structure Deletion.Parts (deletion : Deletion) (text passed kept removed rest : List Char) :
    Prop where
  text_eq : text = passed ++ (kept ++ (removed ++ rest))
  span_eq : deletion.span = ⟨size passed + size kept, size passed + size kept + size removed⟩
  nonempty : removed ≠ []
  solid : ¬StartsWithLineEnd removed

section
variable {deletion : Deletion} {text passed kept removed rest : List Char}

theorem Deletion.Cuts.exists_parts {behind : List Char} (h : deletion.Cuts text)
    (htext : text = passed ++ behind) (hpassed : size passed ≤ deletion.span.start) :
    ∃ kept removed rest, behind = kept ++ (removed ++ rest) ∧
      deletion.Parts text passed kept removed rest := by
  subst htext
  obtain ⟨hnonempty, ⟨first, afterFirst, hfirst, hstart⟩, ⟨second, rest, hsecond, hstop⟩,
    hsolid⟩ := h
  obtain ⟨kept, rfl⟩ := exists_append_of_size_le hfirst (hstart ▸ hpassed)
  obtain ⟨removed, rfl⟩ := exists_append_of_size_le (hfirst.symm.trans hsecond)
    (hstart ▸ hstop ▸ hnonempty.le)
  have hbehind : behind = kept ++ (removed ++ rest) := by
    simpa only [List.append_assoc, List.append_cancel_left_eq] using hsecond
  rw [size_append] at hstart
  rw [size_append, size_append] at hstop
  obtain ⟨index, ⟨start, stop⟩⟩ := deletion
  dsimp only at hstart hstop hnonempty hsolid ⊢
  subst hstart hstop
  refine ⟨kept, removed, rest, hbehind, by rw [hbehind], rfl, ?_, ?_⟩
  · rintro rfl
    rw [size_nil] at hnonempty
    omega
  · have hslice := slice_append (passed ++ kept) removed rest
    rw [size_append, List.append_assoc, ← hbehind] at hslice
    rwa [hslice] at hsolid

theorem Deletion.Parts.text_eq_append (h : deletion.Parts text passed kept removed rest) :
    text = (passed ++ (kept ++ removed)) ++ rest := by
  rw [h.text_eq]
  simp only [List.append_assoc]

theorem Deletion.Parts.stop_eq (h : deletion.Parts text passed kept removed rest) :
    deletion.span.stop = size (passed ++ (kept ++ removed)) := by
  rw [h.span_eq]
  simp only [size_append, Nat.add_assoc]

theorem Deletion.Parts.slice_kept (h : deletion.Parts text passed kept removed rest) :
    slice text (size passed) deletion.span.start = kept := by
  rw [h.span_eq, h.text_eq, slice_append]

theorem Deletion.Parts.slice_removed (h : deletion.Parts text passed kept removed rest) :
    slice text deletion.span.start deletion.span.stop = removed := by
  have hslice := slice_append (passed ++ kept) removed rest
  rw [size_append, List.append_assoc, ← h.text_eq] at hslice
  rw [h.span_eq, hslice]

end

/-- A part that starts with no line end keeps what stands in front of it from running into it,
unless a line end is cut in two. -/
theorem dropLineEnd_solid {removed : List Char} (hne : removed ≠ [])
    (hsolid : ¬StartsWithLineEnd removed) (kept rest : List Char) :
    dropLineEnd (kept ++ (removed ++ rest)) = dropLineEnd kept ++ (removed ++ rest) ∨
      kept = [] ∧ removed = ['\r'] ∧ ∃ more, rest = '\n' :: more := by
  obtain ⟨c, others, rfl⟩ := List.exists_cons_of_ne_nil hne
  have hnewline : c ≠ '\n' := by
    rintro rfl
    exact hsolid (.inl ⟨others, rfl⟩)
  have hreturn : ∀ more, c = '\r' → others ≠ '\n' :: more := by
    rintro more rfl rfl
    exact hsolid (.inr ⟨more, rfl⟩)
  -- a line end is told by two characters at most, so what is kept matters up to there
  rcases kept with _ | ⟨a, _ | ⟨b, kept⟩⟩
  · by_cases hc : c = '\r'
    · subst hc
      cases others with
      | nil =>
          cases rest with
          | nil => exact .inl rfl
          | cons d more =>
              by_cases hd : d = '\n'
              · exact .inr ⟨rfl, rfl, more, by rw [hd]⟩
              · left
                simp only [List.nil_append, List.cons_append]
                unfold dropLineEnd
                grind
      | cons d others =>
          left
          simp only [List.nil_append, List.cons_append]
          unfold dropLineEnd
          grind
    · left
      exact dropLineEnd_append hc hnewline [] (others ++ rest)
  all_goals
    left
    simp only [List.nil_append, List.cons_append]
    unfold dropLineEnd
    grind

/-! ## Segments -/

section
variable {edit : Edit} {text : List Char}

/-- What stands behind a place, told by the segments and the deletions. -/
theorem weave_keptSegments {deletions : List Deletion}
    (hcuts : ∀ deletion ∈ deletions, deletion.Cuts text)
    (hordered : deletions.Pairwise fun first second => first.span.stop ≤ second.span.start)
    {passed behind : List Char} (htext : text = passed ++ behind)
    (hstart : ∀ deletion ∈ deletions, size passed ≤ deletion.span.start) :
    weave (keptSegments text (size passed) deletions)
      (deletions.map fun deletion => slice text deletion.span.start deletion.span.stop) =
        behind := by
  induction deletions generalizing passed behind with
  | nil => simp [keptSegments, weave, htext, sliceFrom_append]
  | cons deletion rest ih =>
      obtain ⟨hcut, hcuts⟩ := List.forall_mem_cons.mp hcuts
      obtain ⟨hbehind, hordered⟩ := List.pairwise_cons.mp hordered
      obtain ⟨kept, removed, others, rfl, hparts⟩ :=
        hcut.exists_parts htext (hstart _ List.mem_cons_self)
      rw [keptSegments, List.map_cons, weave, hparts.slice_kept, hparts.slice_removed,
        hparts.stop_eq, ih hcuts hordered hparts.text_eq_append (hparts.stop_eq ▸ hbehind),
        List.append_assoc]

/-- The deletions behind the place of the imports.  The text is cut where the last deletion ends,
and the cursor stands there or behind the line end that starts there. -/
theorem foldl_delete_segments {deletions : List Deletion}
    (hcuts : ∀ deletion ∈ deletions, deletion.Cuts text)
    (hordered : deletions.Pairwise fun first second => first.span.stop ≤ second.span.start)
    (hlater : edit.imports = [] ∨ ∀ deletion ∈ deletions, some deletion.index ≠ edit.insertAt)
    {trim : Bool} {passed behind gone : List Char} {progress : Progress}
    (hpassed : text = passed ++ behind) (hgone : text = gone ++ trimmed trim behind)
    (hstart : ∀ deletion ∈ deletions, size passed ≤ deletion.span.start)
    (hcursor : progress.cursor = size gone) :
    let last := deletions.foldl (edit.delete text) progress
    ∃ segment others, keptSegments text (size passed) deletions = segment :: others ∧
      last.placed = progress.placed ∧
      last.written ++ sliceFrom text last.cursor =
        progress.written ++ (trimmed trim segment ++ others.flatMap dropLineEnd) := by
  induction deletions generalizing trim passed behind gone progress with
  | nil =>
      refine ⟨behind, [], ?_, rfl, ?_⟩
      · rw [keptSegments, hpassed, sliceFrom_append]
      · rw [List.foldl_nil, hcursor, hgone, sliceFrom_append, List.flatMap_nil, List.append_nil]
  | cons deletion rest ih =>
      obtain ⟨hcut, hcuts⟩ := List.forall_mem_cons.mp hcuts
      obtain ⟨hbehind, hordered⟩ := List.pairwise_cons.mp hordered
      obtain ⟨kept, removed, others, rfl, hparts⟩ :=
        hcut.exists_parts hpassed (hstart _ List.mem_cons_self)
      have hspan := hparts.span_eq
      have hnext := hparts.text_eq_append
      have hstop := hparts.stop_eq
      have hlater' : edit.imports = [] ∨
          ∀ deletion ∈ rest, some deletion.index ≠ edit.insertAt :=
        hlater.imp_right fun h deletion hmem => h deletion (List.mem_cons_of_mem _ hmem)
      rw [List.foldl_cons, keptSegments, hparts.slice_kept, hstop]
      have hcases : trimmed trim (kept ++ (removed ++ others)) =
            trimmed trim kept ++ (removed ++ others) ∨
          trim = true ∧ kept = [] ∧ removed = ['\r'] ∧ ∃ more, others = '\n' :: more := by
        cases trim with
        | false => exact .inl rfl
        | true =>
            exact (dropLineEnd_solid hparts.nonempty hparts.solid kept others).imp_right fun h =>
              ⟨rfl, h⟩
      rcases hcases with hwhole | ⟨rfl, rfl, rfl, more, rfl⟩
      · rw [hwhole] at hgone
        have hplace : deletion.span = ⟨size gone + size (trimmed trim kept),
            size gone + size (trimmed trim kept) + size removed⟩ := by
          have hsize := congrArg size (hpassed.symm.trans hgone)
          simp only [size_append] at hsize
          rw [hspan]
          congr 1 <;> omega
        have hindex : ¬(some deletion.index = edit.insertAt ∧ !edit.imports.isEmpty) := by
          rintro ⟨hindex, hnew⟩
          rcases hlater with hnone | hlater
          · simp [hnone] at hnew
          · exact hlater _ List.mem_cons_self hindex
        obtain ⟨gone', hgone', hdelete⟩ := delete_dropped hgone hcursor hindex
        rw [show deletion = ⟨deletion.index, _⟩ from congrArg (Deletion.mk _) hplace, hdelete]
        have hbehind' : text = gone' ++ trimmed true others := hgone'
        generalize hafter : Progress.mk _ (size gone') progress.placed = after
        have hcursor' : after.cursor = size gone' := by rw [← hafter]
        obtain ⟨segment, segments, hsegments, hplaced, hwritten⟩ :=
          ih hcuts hordered hlater' hnext hbehind' (hstop ▸ hbehind) hcursor'
        subst hafter
        refine ⟨kept, segment :: segments, by rw [hsegments], hplaced, hwritten.trans ?_⟩
        rw [List.append_assoc, List.flatMap_cons]
        rfl
      · -- the line end behind the last deletion is cut in two, and has been passed as a whole
        have hskip : edit.delete text progress deletion = progress := by
          have hsize := congrArg size (hpassed.symm.trans hgone)
          change size (passed ++ '\r' :: '\n' :: more) = size (gone ++ more) at hsize
          simp only [size_append, size_cons] at hsize
          have hreturn := length_encodeChar_pos '\r'
          have hpast : deletion.span.start < progress.cursor := by
            rw [hspan, hcursor]
            change size passed < size gone
            omega
          rw [Edit.delete, if_pos (.inl hpast)]
        rw [hskip]
        have hbehind' : text = gone ++ trimmed true ('\n' :: more) := hgone
        obtain ⟨segment, segments, hsegments, hplaced, hwritten⟩ :=
          ih hcuts hordered hlater' hnext hbehind' (hstop ▸ hbehind) hcursor
        refine ⟨[], segment :: segments, by rw [hsegments], hplaced, hwritten.trans ?_⟩
        rw [List.flatMap_cons]
        rfl

end

/-! ## Applying -/

section
variable {edit : Edit} {text : List Char}

theorem joinLines_append_newline {lines : List String} (hne : lines ≠ []) :
    joinLines lines ++ ['\n'] = lines.flatMap fun line => line.toList ++ ['\n'] := by
  induction lines with
  | nil => exact absurd rfl hne
  | cons line others ih =>
      cases others with
      | nil => simp [joinLines, Text.join]
      | cons next others =>
          rw [List.flatMap_cons, ← ih (List.cons_ne_nil next others)]
          simp [joinLines, Text.join]

theorem append_eq_withLines (edit : Edit) (written : List Char) :
    edit.append written = withLines written edit.exports := by
  unfold Edit.append withLines
  by_cases hnone : edit.exports = []
  · simp [hnone]
  · rw [if_neg (by simpa using hnone), if_neg hnone, ← joinLines_append_newline hnone, endLine]
    by_cases hended : written = [] ∨ written.getLast? = some '\n' <;> simp [hended]

/-- The deletion whose place the imports take. -/
theorem delete_first {kept removed rest : List Char} {deletion : Deletion}
    (htext : text = kept ++ (removed ++ rest))
    (hspan : deletion.span = ⟨size kept, size kept + size removed⟩)
    (hinsert : some deletion.index = edit.insertAt) :
    ∃ gone placed, text = gone ++ trimmed edit.imports.isEmpty rest ∧
      edit.delete text ⟨[], 0, false⟩ deletion =
        ⟨kept ++ joinLines edit.imports, size gone, placed⟩ ∧
      (placed = true ∨ edit.imports.isEmpty) := by
  obtain ⟨index, span⟩ := deletion
  dsimp only at hspan hinsert
  have hspan' : span = ⟨size [] + size kept, size [] + size kept + size removed⟩ := by
    rw [hspan, size_nil, Nat.zero_add]
  have htext' : text = [] ++ (kept ++ (removed ++ rest)) := htext
  have hcursor : (Progress.mk [] 0 false).cursor = size [] := rfl
  by_cases himports : edit.imports = []
  · have hindex : ¬(some index = edit.insertAt ∧ !edit.imports.isEmpty) := by simp [himports]
    obtain ⟨gone, hgone, hdelete⟩ := delete_dropped htext' hcursor hindex
    refine ⟨gone, false, ?_, ?_, .inr (by simp [himports])⟩
    · rw [hgone, himports]
      rfl
    · rw [hspan', hdelete]
      simp [himports, joinLines, Text.join]
  · have hdelete := @delete_eq edit _ _ _ _ _ _ htext' hcursor index
    rw [if_pos ⟨hinsert, by simpa using himports⟩, ← hspan'] at hdelete
    refine ⟨kept ++ removed, true, ?_, hdelete, .inl rfl⟩
    rw [List.isEmpty_eq_false_iff.mpr himports, htext, List.append_assoc]
    rfl

/-- **Applying a well-formed edit gives its result.** -/
theorem apply_eq_result (h : edit.IsWellFormed text) : edit.apply text = edit.result text := by
  obtain ⟨hdeletes, hcuts, hcounted, hordered, hreplaced⟩ := h
  obtain ⟨deletion, rest, hdeletions⟩ := List.exists_cons_of_ne_nil hdeletes
  rw [hdeletions] at hcuts hcounted hordered hreplaced
  obtain ⟨hcut, hcuts⟩ := List.forall_mem_cons.mp hcuts
  obtain ⟨hbehind, hordered⟩ := List.pairwise_cons.mp hordered
  have hbegin : text = [] ++ text := rfl
  obtain ⟨kept, removed, others, htext, hparts⟩ := hcut.exists_parts hbegin (Nat.zero_le _)
  have hspan : deletion.span = ⟨size kept, size kept + size removed⟩ := by
    rw [hparts.span_eq, size_nil, Nat.zero_add]
  have hnext : text = (kept ++ removed) ++ others := hparts.text_eq_append
  have hstop : deletion.span.stop = size (kept ++ removed) := hparts.stop_eq
  have hkept : slice text 0 deletion.span.start = kept := hparts.slice_kept
  have hinsert : some deletion.index = edit.insertAt := hreplaced.symm
  -- behind the imports no index is the one whose place they took
  have hlater : ∀ later ∈ rest, some later.index ≠ edit.insertAt := by
    intro later hmem heq
    have hlt := (List.pairwise_cons.mp hcounted).1 later hmem
    rw [← hinsert] at heq
    exact absurd (Option.some.inj heq) hlt.ne'
  obtain ⟨gone, placed, hgone, hdelete, hplaced⟩ := delete_first htext hspan hinsert
  have hcursor : (Progress.mk (kept ++ joinLines edit.imports) (size gone) placed).cursor =
      size gone := rfl
  obtain ⟨segment, segments, hsegments, hlast, hwritten⟩ :=
    foldl_delete_segments hcuts hordered (.inr hlater) hnext hgone (hstop ▸ hbehind) hcursor
  have hall : keptSegments text 0 edit.deletions = kept :: segment :: segments := by
    rw [hdeletions, keptSegments, hkept, hstop, hsegments]
  rw [Edit.apply, Edit.result, hall, hdeletions, List.foldl_cons, hdelete]
  dsimp only
  rw [if_pos (hlast ▸ hplaced), append_eq_withLines, List.nil_append, hwritten]
  simp only [List.append_assoc]

end

/-! ## Edits of scripts -/

section
variable {text : List Char} {program : Program} {analysis : Analysis}

/-- A statement that starts with a token can be cut out. -/
theorem cuts_of_startsAtToken {statement : Node} (h : statement.StartsAtToken text) (index : Nat) :
    (Deletion.mk index statement.span).Cuts text := by
  obtain ⟨here, next, hhere, hnext, hspan, hlt, htoken⟩ := h
  obtain ⟨before, htext, hstart⟩ := Source.leads_iff.mp hhere
  obtain ⟨own, hown, hstop⟩ := Source.leads_iff.mp hnext
  change text = before ++ here.rest at htext
  change here.offset = 0 + size before at hstart
  rw [Nat.zero_add] at hstart
  rw [hown] at htext
  rw [hspan]
  refine ⟨hlt, ⟨before, _, htext, hstart⟩, ⟨before ++ own, next.rest, ?_, ?_⟩, ?_⟩
  · rw [htext, List.append_assoc]
  · dsimp only
    rw [hstop, hstart, size_append]
  · dsimp only
    rw [hstop, hstart, htext, slice_append]
    have hplain := htoken.isLineEnd_eq_false
    rintro (⟨rest, rfl⟩ | ⟨rest, rfl⟩)
    all_goals
      have hwrong := hplain _ (by rw [hown]; rfl)
      cases hwrong

/-- The edit of a script that has deletions is well-formed. -/
theorem isWellFormed_ofAnalysis (horderly : program.IsOrderly text)
    (hdeletes : (Edit.ofAnalysis analysis program).deletions ≠ []) :
    (Edit.ofAnalysis analysis program).IsWellFormed text := by
  have hsublist : (Edit.ofAnalysis analysis program).deletions.Sublist
      (program.statements.zipIdx.map fun entry => ⟨entry.2, entry.1.span⟩) :=
    List.filter_sublist
  refine ⟨hdeletes, fun deletion hdeletion => ?_, ?_, ?_, rfl⟩
  · obtain ⟨⟨statement, index⟩, hmem, rfl⟩ := List.mem_map.mp (hsublist.subset hdeletion)
    exact cuts_of_startsAtToken (horderly.starts _ (List.fst_mem_of_mem_zipIdx hmem)) index
  · refine List.Pairwise.sublist hsublist (List.pairwise_map.mpr ?_)
    have hindices : (program.statements.zipIdx.map Prod.snd).Pairwise (· < ·) := by
      rw [List.zipIdx_map_snd]
      exact List.pairwise_lt_range'
    exact List.pairwise_map.mp hindices
  · refine List.Pairwise.sublist hsublist (List.pairwise_map.mpr ?_)
    have hstatements : (program.statements.zipIdx.map Prod.fst).Pairwise
        fun first second => first.span.stop ≤ second.span.start := by
      rw [List.zipIdx_map_fst]
      exact horderly.ordered
    exact List.pairwise_map.mp hstatements

end

theorem isOrderly_of_readScript? {path source : String} {program : Program}
    (h : readScript? path source = some program) : program.IsOrderly source.toList := by
  obtain ⟨language, -, hread⟩ := Option.bind_eq_some_iff.mp h
  have hsource : String.ofList source.toList = source := String.ofList_toList
  rw [← hsource] at hread
  exact Program.isOrderly_of_read? hread

/-- **Edits are exact.**  A well-formed edit gives its result, and what the result keeps is what
the text consists of besides the deletions.  The edit of a script whose statements start with
tokens, one behind the other, is well-formed if it deletes a statement, and every script that is
read is such a script. -/
theorem edits_are_exact :
    (∀ (edit : Edit) (text : List Char), edit.IsWellFormed text →
      edit.apply text = edit.result text ∧
      weave (keptSegments text 0 edit.deletions)
        (edit.deletions.map fun deletion => slice text deletion.span.start deletion.span.stop) =
          text) ∧
    (∀ (analysis : Analysis) (program : Program) (text : List Char), program.IsOrderly text →
      (Edit.ofAnalysis analysis program).deletions ≠ [] →
      (Edit.ofAnalysis analysis program).IsWellFormed text) ∧
    ∀ (path source : String) (program : Program), readScript? path source = some program →
      program.IsOrderly source.toList := by
  refine ⟨fun edit text h => ⟨apply_eq_result h, ?_⟩, fun analysis program text horderly hdeletes =>
    isWellFormed_ofAnalysis horderly hdeletes, fun path source program h =>
      isOrderly_of_readScript? h⟩
  have htext : text = [] ++ text := rfl
  exact weave_keptSegments h.cuts h.ordered htext fun deletion _ =>
    Nat.zero_le deletion.span.start

/-- A script with other line ends, whose first and second statement are to be replaced. -/
def returningSource : String :=
  "import \x7b A \x7d from \"next/font/google\";\r\n// é\r\nconst a = A();\r\nlog(a)"

/-- What is to be replaced in it. -/
def returningAnalysis : Analysis :=
  ⟨[0, 46], [], Table.empty, [⟨"a", "a.css"⟩], ["a"]⟩

/-- The line end behind the first statement stays, the one behind the second goes. -/
theorem returningSource_is_edited :
    ∃ program, readScript? "a.js" returningSource = some program ∧
      (Edit.ofAnalysis returningAnalysis program).deletions ≠ [] ∧
      (Edit.ofAnalysis returningAnalysis program).apply returningSource.toList =
        "import a from \"a.css\";\r\n// é\r\nlog(a)\nexport \x7b a \x7d;\n".toList := by
  obtain ⟨happly, hwellFormed, horderly⟩ := edits_are_exact
  obtain ⟨program, hread, hdeletes, hresult⟩ :
      ∃ program ∈ readScript? "a.js" returningSource,
        (Edit.ofAnalysis returningAnalysis program).deletions ≠ [] ∧
        (Edit.ofAnalysis returningAnalysis program).result returningSource.toList =
          "import a from \"a.css\";\r\n// é\r\nlog(a)\nexport \x7b a \x7d;\n".toList := by
    -- The kernel is slow to take a text apart, so it is given the characters.
    have hcharacters : returningSource.toList = _ := String.toList_ofList
    unfold readScript? Program.read?
    rw [hcharacters]
    decide +kernel
  refine ⟨program, hread, hdeletes, ?_⟩
  rw [← hresult]
  exact (happly _ _ (hwellFormed _ _ _ (horderly _ _ _ hread) hdeletes)).1

end FontHosting.FontCall
