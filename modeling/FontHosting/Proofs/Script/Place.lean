import FontHosting.Proofs.Text.Utf8
import FontHosting.Script.Lexer

/-!
# Places and blanks

A place that is reached from another is told apart by the text between them
(`Source.leads_iff`), and by its offset alone (`Source.Leads.eq_of_offset`).

`IsBlank gap` says that the reader of blanks passes `gap` whatever follows it, so such
texts may be put together, and a line end may be taken off their beginning.
-/

namespace FontHosting.Script

open Text.Utf8 (size size_append size_cons append_inj_of_size)

/-! ## Places -/

theorem Source.skip_append (passed rest : List Char) (offset : Nat) :
    (Source.mk (passed ++ rest) offset).skip passed.length = ⟨rest, offset + size passed⟩ := by
  induction passed generalizing offset with
  | nil => rfl
  | cons c passed ih =>
      rw [size_cons, ← Nat.add_assoc]
      exact ih (offset + width c)

theorem Source.leads_iff {source later : Source} :
    source.Leads later ↔
      ∃ passed, source.rest = passed ++ later.rest ∧
        later.offset = source.offset + size passed := by
  constructor
  · rintro ⟨count, rfl⟩
    induction count generalizing source with
    | zero => exact ⟨[], rfl, rfl⟩
    | succ count ih =>
        obtain ⟨_ | ⟨c, rest⟩, offset⟩ := source
        · exact @ih ⟨[], offset⟩
        · obtain ⟨passed, hrest, hoffset⟩ := @ih ⟨rest, offset + width c⟩
          refine ⟨c :: passed, congrArg (c :: ·) hrest, ?_⟩
          rw [size_cons, ← Nat.add_assoc]
          exact hoffset
  · rintro ⟨passed, hrest, hoffset⟩
    obtain ⟨rest, offset⟩ := source
    obtain ⟨after, place⟩ := later
    obtain rfl : rest = passed ++ after := hrest
    obtain rfl : place = offset + size passed := hoffset
    exact ⟨passed.length, (skip_append passed after offset).symm⟩

theorem Source.Leads.offset_le {source later : Source} (h : source.Leads later) :
    source.offset ≤ later.offset := by
  obtain ⟨passed, -, hoffset⟩ := Source.leads_iff.mp h
  omega

/-- Of the places that one place leads to, each has its own offset. -/
theorem Source.Leads.eq_of_offset {source first second : Source} (hfirst : source.Leads first)
    (hsecond : source.Leads second) (hoffset : first.offset = second.offset) : first = second := by
  obtain ⟨passed, hrest, hplace⟩ := leads_iff.mp hfirst
  obtain ⟨others, hrest', hplace'⟩ := leads_iff.mp hsecond
  obtain ⟨-, hsame⟩ := append_inj_of_size (hrest.symm.trans hrest') (by omega)
  obtain ⟨rest, offset⟩ := first
  cases hsame
  cases hoffset
  rfl

theorem Source.moveTo_append (passed rest : List Char) (offset : Nat) :
    (Source.mk (passed ++ rest) offset).moveTo rest = ⟨rest, offset + size passed⟩ := by
  have hlength : (passed ++ rest).length - rest.length = passed.length := by simp
  unfold moveTo
  rw [hlength]
  exact skip_append passed rest offset

/-! ## Blanks -/

/-- What is left behind blanks and comments, if every comment is closed. -/
def behindBlanks (mode : Trivia) (text : List Char) : Option (List Char) :=
  (skipTrivia mode false text).map Prod.fst

/-- What the reader of blanks is inside behind a character, given the one that follows;
nothing if the character starts a token. -/
def Trivia.step (mode : Trivia) (c : Char) (following : Option Char) : Option Trivia :=
  match mode with
  | .line => if isLineEnd c then some .blank else some .line
  | .opening => some .block
  | .block => if c = '*' ∧ following = some '/' then some .closing else some .block
  | .closing => some .blank
  | .blank =>
      if isLineEnd c ∨ isSpacing c then some .blank
      else if c = '/' ∧ following = some '/' then some .line
      else if c = '/' ∧ following = some '*' then some .opening
      else none

/-- Whether a line ended before does not matter for what is left. -/
theorem map_fst_skipTrivia (mode : Trivia) (ended : Bool) (text : List Char) :
    (skipTrivia mode ended text).map Prod.fst = behindBlanks mode text := by
  unfold behindBlanks
  generalize false = other
  induction text generalizing mode ended other with
  | nil => cases mode <;> rfl
  | cons c rest ih =>
      cases mode with
      | opening => exact ih .block ended other
      | closing => exact ih .blank ended other
      | blank | line | block =>
          simp only [skipTrivia]
          split_ifs <;> first | rfl | apply ih

theorem behindBlanks_cons (mode : Trivia) (c : Char) (rest : List Char) :
    behindBlanks mode (c :: rest) =
      match mode.step c rest.head? with
      | some next => behindBlanks next rest
      | none => some (c :: rest) := by
  rw [behindBlanks]
  cases mode with
  | opening | closing => rfl
  | line | block =>
      simp only [skipTrivia, Trivia.step]
      split_ifs <;> apply map_fst_skipTrivia
  | blank =>
      by_cases hend : isLineEnd c
      · simpa [skipTrivia, Trivia.step, hend] using map_fst_skipTrivia .blank true rest
      · simp only [skipTrivia, Trivia.step, hend, Bool.false_eq_true, false_or, if_false]
        split_ifs <;> rfl

/-- A character that starts a token ends no line and stands outside comments. -/
theorem Trivia.step_eq_none {mode : Trivia} {c : Char} {following : Option Char}
    (h : mode.step c following = none) : mode = .blank ∧ isLineEnd c = false := by
  cases mode <;> grind [step]

/-- Only what opens or closes a comment looks at the character that follows. -/
theorem Trivia.step_eq_blank {mode : Trivia} {c : Char} {following : Option Char}
    (h : mode.step c following = some .blank) (other : Option Char) :
    mode.step c other = some .blank := by
  cases mode <;> grind [step]

theorem Trivia.step_newline (mode : Trivia) (c : Char) :
    mode.step c (some '\n') = mode.step c none := by
  cases mode <;> simp [step]

/-- Whether the reader of blanks passes a text, whatever follows it. -/
def IsBlank (mode : Trivia) (gap : List Char) : Prop :=
  ∀ rest, behindBlanks mode (gap ++ rest) = behindBlanks .blank rest

theorem isBlank_nil : IsBlank .blank [] := fun _ => rfl

theorem IsBlank.append {mode : Trivia} {first second : List Char} (hfirst : IsBlank mode first)
    (hsecond : IsBlank .blank second) : IsBlank mode (first ++ second) := by
  intro rest
  rw [List.append_assoc, hfirst, hsecond]

/-- Inside a comment the end of it is still to be read. -/
theorem IsBlank.eq_blank {mode : Trivia} (h : IsBlank mode []) : mode = .blank := by
  cases mode with
  | blank => rfl
  | line => cases h ['a']
  | opening | block | closing => cases h []

theorem IsBlank.cons {mode next : Trivia} {c : Char} {gap : List Char} (rest : List Char)
    (hstep : mode.step c (gap ++ rest).head? = some next) (hgap : IsBlank next gap) :
    IsBlank mode (c :: gap) := by
  intro others
  have hstep : mode.step c (gap ++ others).head? = some next := by
    cases gap with
    | nil =>
        obtain rfl := hgap.eq_blank
        exact Trivia.step_eq_blank hstep _
    | cons _ _ => exact hstep
  rw [List.cons_append, behindBlanks_cons, hstep]
  exact hgap others

theorem isBlank_lineEnd {c : Char} (hc : isLineEnd c) : IsBlank .blank [c] :=
  isBlank_nil.cons [] (by simp [Trivia.step, hc])

/-- What stands before a token is blank, and the token does not start with a line end. -/
theorem exists_isBlank {mode : Trivia} {text rest : List Char} {c : Char}
    (h : behindBlanks mode text = some (c :: rest)) :
    isLineEnd c = false ∧ ∃ gap, text = gap ++ c :: rest ∧ IsBlank mode gap := by
  induction text generalizing mode with
  | nil => cases mode <;> cases h
  | cons d text ih =>
      rw [behindBlanks_cons] at h
      cases hstep : mode.step d text.head? with
      | none =>
          rw [hstep] at h
          cases h
          obtain ⟨rfl, hend⟩ := Trivia.step_eq_none hstep
          exact ⟨hend, [], rfl, isBlank_nil⟩
      | some next =>
          rw [hstep] at h
          obtain ⟨hend, gap, rfl, hgap⟩ := ih h
          exact ⟨hend, d :: gap, rfl, hgap.cons _ hstep⟩

/-! ## The end of a text -/

/-- Whether nothing but blanks is left, the last of which may be a comment that only the end
of the text closes. -/
def IsTrailing (mode : Trivia) (text : List Char) : Prop :=
  behindBlanks mode text = some []

theorem IsBlank.trailing {mode : Trivia} {gap text : List Char} (hgap : IsBlank mode gap)
    (htext : IsTrailing .blank text) : IsTrailing mode (gap ++ text) :=
  (hgap text).trans htext

theorem isTrailing_nil : IsTrailing .blank [] := rfl

/-- A line end closes every comment that the end of the text closes. -/
theorem IsTrailing.isBlank_newline {mode : Trivia} {text : List Char} (h : IsTrailing mode text) :
    IsBlank mode (text ++ ['\n']) := by
  induction text generalizing mode with
  | nil =>
      have hstep : mode.step '\n' none = some .blank := by
        cases mode <;> first | rfl | cases h
      exact isBlank_nil.cons [] hstep
  | cons c text ih =>
      rw [IsTrailing, behindBlanks_cons] at h
      cases hstep : mode.step c text.head? with
      | none => rw [hstep] at h; cases h
      | some next =>
          rw [hstep] at h
          refine (ih h).cons [] ?_
          cases text with
          | nil => exact (Trivia.step_newline mode c).trans hstep
          | cons _ _ => exact hstep

theorem IsTrailing.isBlank_of_newline {mode : Trivia} {text : List Char}
    (h : IsTrailing mode (text ++ ['\n'])) : IsBlank mode (text ++ ['\n']) := by
  induction text generalizing mode with
  | nil =>
      have hstep : mode.step '\n' none = some .blank := by
        cases mode <;> first | rfl | cases h
      exact isBlank_nil.cons [] hstep
  | cons c text ih =>
      rw [IsTrailing, List.cons_append, behindBlanks_cons] at h
      cases hstep : mode.step c (text ++ ['\n']).head? with
      | none => rw [hstep] at h; cases h
      | some next =>
          rw [hstep] at h
          refine (ih h).cons [] ?_
          rwa [List.append_nil]

/-! ## The next token -/

theorem Source.next_eq_invalid {source : Source}
    (h : skipTrivia .blank false source.rest = none) :
    source.next = ⟨source, source.special .invalid [] nofun, .refl source⟩ := by
  simp only [next, h]

theorem Source.next_eq_tokenHere {source : Source} {left : List Char} {ended : Bool}
    (h : skipTrivia .blank false source.rest = some (left, ended)) :
    source.next = ⟨source.moveTo left, Source.tokenHere _ ended, source.leads_moveTo left⟩ := by
  simp only [next, h]

/-- The next token behind blanks. -/
theorem Source.next_blank {gap rest : List Char} {c : Char} (offset : Nat)
    (hgap : IsBlank .blank gap) (hc : Trivia.step .blank c rest.head? = none) :
    ∃ ended hleads, (Source.mk (gap ++ c :: rest) offset).next =
      ⟨⟨c :: rest, offset + size gap⟩, Source.tokenHere _ ended, hleads⟩ := by
  have hbehind : behindBlanks .blank (gap ++ c :: rest) = some (c :: rest) := by
    rw [hgap, behindBlanks_cons, hc]
  obtain ⟨⟨left, ended⟩, hskip, hleft⟩ := Option.map_eq_some_iff.mp hbehind
  obtain rfl : left = c :: rest := hleft
  have hleads := leads_moveTo (Source.mk (gap ++ c :: rest) offset) (c :: rest)
  have hnext : (Source.mk (gap ++ c :: rest) offset).next =
      ⟨_, Source.tokenHere _ ended, hleads⟩ := next_eq_tokenHere hskip
  revert hleads
  rw [moveTo_append gap (c :: rest) offset]
  exact fun hleads hnext => ⟨ended, hleads, hnext⟩

/-- What stands before the next token or, if there is none, before the end. -/
theorem Source.next_cases {source : Source} (h : source.next.reading.token.kind ≠ .invalid) :
    (source.next.reading.token.kind = .finish ∧ source.next.here.rest = [] ∧
        IsTrailing .blank source.rest) ∨
      source.next.reading.token.kind ≠ .finish ∧
        ∃ gap c rest, source.next.here.rest = c :: rest ∧ source.rest = gap ++ c :: rest ∧
          source.next.here.offset = source.offset + size gap ∧ IsBlank .blank gap ∧
          isLineEnd c = false := by
  obtain ⟨text, offset⟩ := source
  cases hskip : skipTrivia .blank false text with
  | none =>
      rw [@next_eq_invalid ⟨text, offset⟩ hskip] at h
      exact absurd rfl h
  | some found =>
      obtain ⟨left, ended⟩ := found
      have hbehind : behindBlanks .blank text = some left := by rw [behindBlanks, hskip]; rfl
      rw [@next_eq_tokenHere ⟨text, offset⟩ left ended hskip]
      simp only [tokenHere]
      cases left with
      | nil =>
          have hmove := moveTo_append text [] offset
          rw [List.append_nil] at hmove
          rw [hmove]
          exact .inl ⟨rfl, rfl, hbehind⟩
      | cons c rest =>
          obtain ⟨hend, gap, rfl, hgap⟩ := exists_isBlank hbehind
          rw [moveTo_append gap (c :: rest) offset]
          exact .inr ⟨(readKind_cons c rest).1, gap, c, rest, rfl, rfl, rfl, hgap, hend⟩

theorem Source.next_trailing {source : Source} (h : IsTrailing .blank source.rest) :
    source.next.reading.token.kind = .finish := by
  obtain ⟨⟨left, ended⟩, hskip, hleft⟩ := Option.map_eq_some_iff.mp h
  obtain rfl : left = [] := hleft
  obtain ⟨text, offset⟩ := source
  have hmove := moveTo_append text [] offset
  rw [List.append_nil] at hmove
  rw [next_eq_tokenHere hskip]
  simp only [tokenHere, hmove]
  rfl

end FontHosting.Script
