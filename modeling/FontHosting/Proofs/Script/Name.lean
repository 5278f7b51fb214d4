import FontHosting.Proofs.Script.Place
import FontHosting.Script.Parser

/-!
# Names as they are written

The name of a word stands in the text as it is, unless it is escaped (`exists_raw`).  So a
place tells the name that is written there, whether it was read as a word or as a name in
markup: `Reading.writes_word` and `Reading.writes_markupName`.
-/

namespace FontHosting.Script

open Text.Utf8 (size size_append size_cons)

/-! ## Escapes -/

theorem exists_hexDigits? {count value code : Nat} {text rest : List Char}
    (h : hexDigits? count value text = some (code, rest)) : ∃ passed, text = passed ++ rest := by
  induction count generalizing value text with
  | zero =>
      cases h
      exact ⟨[], rfl⟩
  | succ count ih =>
      cases text with
      | nil => cases h
      | cons c text =>
          obtain ⟨digit, -, h⟩ := Option.bind_eq_some_iff.mp h
          obtain ⟨passed, rfl⟩ := ih h
          exact ⟨c :: passed, rfl⟩

theorem exists_codePoint? {code : Nat} {text rest : List Char}
    (h : codePoint? text = some (code, rest)) : ∃ passed, text = passed ++ rest := by
  unfold codePoint? at h
  split at h
  · rename_i inner
    dsimp only at h
    split at h
    · rename_i after hafter
      split at h
      · cases h
      · cases h
        generalize (inner.takeWhile fun c => (Text.Hex.value? c).isSome).length = count at hafter
        refine ⟨'\x7b' :: inner.take count ++ ['\x7d'], ?_⟩
        rw [List.cons_append, List.cons_append, List.append_assoc, List.singleton_append, ← hafter,
          List.take_append_drop]
    · cases h
  · exact exists_hexDigits? h

/-! ## Words -/

/-- Whether nothing at the start of a text continues a name. -/
def EndsName (text : List Char) : Prop :=
  ∀ c ∈ text.head?, isNameContinue c = false ∧ c ≠ '\\'

/-- What is read of a name stands in the text, unless an escape does. -/
theorem raw_readName {fuel : Nat} {done text name rest : List Char} {escaped marked : Bool}
    (hdone : done ≠ []) (hread : readName fuel done escaped text = some (name, marked, rest)) :
    ∃ raw, text = raw ++ rest ∧ EndsName rest ∧
      (marked = escaped ∧ name = done.reverse ++ raw ∨ '\\' ∈ raw) := by
  induction fuel generalizing done escaped text with
  | zero => cases hread
  | succ fuel ih =>
      have hempty : done.isEmpty = false := by simpa using hdone
      unfold readName at hread
      split at hread
      · obtain ⟨⟨code, after⟩, hcode, hrest⟩ := Option.bind_eq_some_iff.mp hread
        obtain ⟨passed, hpassed⟩ := exists_codePoint? hcode
        simp only [hempty, Bool.false_eq_true, if_false] at hrest
        split at hrest
        · obtain ⟨raw, rfl, hends, -⟩ := ih (List.cons_ne_nil _ _) hrest
          exact ⟨'\\' :: 'u' :: passed ++ raw, by simp [hpassed], hends, .inr (by simp)⟩
        · cases hrest
      · cases hread
      · rename_i c after hescape hbackslash
        simp only [hempty, Bool.false_eq_true, if_false] at hread
        split at hread
        · obtain ⟨raw, rfl, hends, hraw⟩ := ih (List.cons_ne_nil _ _) hread
          refine ⟨c :: raw, rfl, hends, hraw.imp (fun h => ⟨h.1, ?_⟩) (List.mem_cons_of_mem _)⟩
          rw [h.2, List.reverse_cons, List.append_assoc]
          rfl
        · rename_i hends
          cases hread
          refine ⟨[], rfl, ?_, .inl ⟨rfl, (List.append_nil _).symm⟩⟩
          rintro _ ⟨⟩
          exact ⟨Bool.eq_false_iff.mpr hends, hbackslash⟩
      · cases hread
        exact ⟨[], rfl, nofun, .inl ⟨rfl, (List.append_nil _).symm⟩⟩

/-- A word stands in the text as it is, unless an escape does. -/
theorem raw_of_readName {fuel : Nat} {c : Char} {text name rest : List Char} {marked : Bool}
    (hc : isNameStart c ∨ c = '\\')
    (hread : readName fuel [] false (c :: text) = some (name, marked, rest)) :
    ∃ raw, c :: text = raw ++ rest ∧ raw ≠ [] ∧ EndsName rest ∧
      (marked = false ∧ name = raw ∨ '\\' ∈ raw) := by
  cases fuel with
  | zero => cases hread
  | succ fuel =>
      unfold readName at hread
      split at hread
      · rename_i after heq
        cases heq
        obtain ⟨⟨code, after⟩, hcode, hrest⟩ := Option.bind_eq_some_iff.mp hread
        obtain ⟨passed, hpassed⟩ := exists_codePoint? hcode
        simp only [List.isEmpty_nil, if_true] at hrest
        split at hrest
        · obtain ⟨raw, rfl, hends, -⟩ := raw_readName (List.cons_ne_nil _ _) hrest
          exact ⟨'\\' :: 'u' :: passed ++ raw, by simp [hpassed], by simp, hends, .inr (by simp)⟩
        · cases hrest
      · cases hread
      · rename_i d after hescape hbackslash heq
        cases heq
        simp only [List.isEmpty_nil, if_true] at hread
        split at hread
        · obtain ⟨raw, rfl, hends, hraw⟩ := raw_readName (List.cons_ne_nil _ _) hread
          refine ⟨c :: raw, rfl, List.cons_ne_nil _ _, hends, hraw.imp ?_ (List.mem_cons_of_mem _)⟩
          rintro ⟨rfl, rfl⟩
          exact ⟨rfl, rfl⟩
        · rcases hc with hc | rfl
          · contradiction
          · exact (hbackslash rfl).elim
      · contradiction

theorem raw_of_readKind {text rest : List Char} {word : String} {escaped : Bool}
    (h : readKind text = (.word word, escaped, rest)) :
    ∃ raw, text = raw ++ rest ∧ raw ≠ [] ∧ EndsName rest ∧
      (escaped = false ∧ word.toList = raw ∨ '\\' ∈ raw) := by
  cases text with
  | nil => cases h
  | cons c text =>
      dsimp only [readKind] at h
      split at h
      · cases hunits : readUnits c ((c :: text).length + 1) [] text <;> rw [hunits] at h <;> cases h
      split at h
      · cases hpiece : readTemplate ((c :: text).length + 1) (some []) text <;>
          rw [hpiece] at h <;> cases h
      split at h
      · rcases hnumber : readNumber? (c :: text) with _ | ⟨_ | _, _⟩ <;> rw [hnumber] at h <;> cases h
      split at h
      · rename_i hc
        cases hname : readName ((c :: text).length + 1) [] false (c :: text) with
        | none => rw [hname] at h; cases h
        | some found =>
            obtain ⟨name, marked, after⟩ := found
            rw [hname] at h
            cases h
            rw [String.toList_ofList]
            exact raw_of_readName hc hname
      split at h
      · cases hname : readName ((c :: text).length + 1) [] false text with
        | none => rw [hname] at h; cases h
        | some found =>
            rw [hname] at h
            dsimp only [bind, Option.bind] at h
            split at h <;> cases h
      · cases hpunctuator : readPunctuator? (c :: text) <;> rw [hpunctuator] at h <;> cases h

/-! ## Names at places -/

/-- Whether a name is written at a place, if it is one that can be bound. -/
def Source.Writes (place : Source) (name : String) : Prop :=
  isName name.toList → ∃ escaped rest, readKind place.rest = (.word name, escaped, rest)

/-- **A place tells the name that is written there.** -/
theorem Source.Writes.unique {place : Source} {first second : String} (hfirst : place.Writes first)
    (hsecond : place.Writes second) (hname : isName first.toList) (hother : isName second.toList) :
    first = second := by
  obtain ⟨escaped, rest, hread⟩ := hfirst hname
  obtain ⟨marked, after, hread'⟩ := hsecond hother
  rw [hread] at hread'
  cases hread'
  rfl

theorem Reading.writes_word {here : Source} (reading : Reading here) {word : String}
    (hword : reading.token.word? = some word) : here.Writes word := by
  obtain ⟨rest, hread, -⟩ := reading.spelled word hword
  exact fun _ => ⟨_, _, hread⟩

/-- A word passes a character. -/
theorem Reading.passes_word {here : Source} (reading : Reading here) {word : String}
    (hword : reading.token.word? = some word) : here.offset < reading.after.offset := by
  obtain ⟨rest, hread, hafter⟩ := reading.spelled word hword
  obtain ⟨raw, hraw, hne, -⟩ := raw_of_readKind hread
  have hhere : here = ⟨raw ++ rest, here.offset⟩ := by rw [← hraw]
  obtain ⟨c, raw, rfl⟩ := List.exists_cons_of_ne_nil hne
  rw [hafter, hhere, Source.moveTo_append, size_cons]
  have hwidth := Text.Utf8.length_encodeChar_pos c
  dsimp only
  omega

/-- The name in markup that starts with a word. -/
theorem Reading.markupName_eq {here : Source} (reading : Reading here) {word : String}
    (hword : reading.token.word? = some word) :
    ∃ raw more rest, here.rest = raw ++ more ++ rest ∧ reading.markupName = raw ++ more ∧
      raw ≠ [] ∧ (isName (raw ++ more) → more = [] ∧ word.toList = raw) := by
  obtain ⟨rest, hread, hafter⟩ := reading.spelled word hword
  obtain ⟨raw, hraw, hne, hends, hword⟩ := raw_of_readKind hread
  have hrest : reading.after.rest = rest := by
    have hhere : here = ⟨raw ++ rest, here.offset⟩ := by rw [← hraw]
    rw [hafter, hhere, Source.moveTo_append]
  refine ⟨raw, rest.takeWhile fun c => isNameContinue c || c == '-',
    rest.dropWhile fun c => isNameContinue c || c == '-', ?_, ?_, hne, fun hname => ?_⟩
  · rw [List.append_assoc, List.takeWhile_append_dropWhile, hraw]
  · rw [Reading.markupName, hrest, hraw]
    simp
  · -- a name that can be bound has neither an escape nor a `-` in it
    have hall : ∀ c ∈ raw ++ rest.takeWhile fun c => isNameContinue c || c == '-',
        isNameStart c ∨ isNameContinue c := by
      intro c hc
      cases happend : raw ++ rest.takeWhile fun c => isNameContinue c || c == '-' with
      | nil => rw [happend] at hc; cases hc
      | cons d others =>
          rw [happend] at hname hc
          simp only [isName, Bool.and_eq_true, List.all_eq_true] at hname
          rcases List.mem_cons.mp hc with rfl | hc
          · exact .inl hname.1
          · exact .inr (hname.2 c hc)
    refine ⟨?_, hword.elim And.right fun hescape => ?_⟩
    · cases rest with
      | nil => rfl
      | cons c rest =>
          rw [List.takeWhile_cons, if_neg]
          intro hc
          rw [(hends c rfl).1, Bool.false_or, beq_iff_eq] at hc
          subst hc
          exact absurd (hall '-' (by simp)) (by decide +kernel)
    · exact absurd (hall '\\' (List.mem_append_left _ hescape)) (by decide +kernel)

theorem Token.exists_word {token : Token} (h : token.isWord = true) :
    ∃ word, token.word? = some word := by
  obtain ⟨kind, start, stop, afterLineEnd, escaped⟩ := token
  cases kind <;> first | exact ⟨_, rfl⟩ | cases h

theorem Reading.writes_markupName {here : Source} (reading : Reading here)
    (hword : reading.token.isWord = true) : here.Writes (String.ofList reading.markupName) := by
  obtain ⟨word, hword⟩ := Token.exists_word hword
  obtain ⟨raw, more, rest, -, hmarkup, -, hplain⟩ := reading.markupName_eq hword
  intro hname
  rw [String.toList_ofList, hmarkup] at hname
  obtain ⟨hmore, hsame⟩ := hplain hname
  rw [hmarkup, hmore, List.append_nil, ← hsame, String.ofList_toList]
  obtain ⟨after, hread, -⟩ := reading.spelled word hword
  exact ⟨_, _, hread⟩

/-- A name in markup passes a character. -/
theorem Reading.passes_markupName {here : Source} (reading : Reading here)
    (hword : reading.token.isWord = true) :
    here.offset < (here.skip reading.markupName.length).offset := by
  obtain ⟨word, hword⟩ := Token.exists_word hword
  obtain ⟨raw, more, rest, hrest, hmarkup, hne, -⟩ := reading.markupName_eq hword
  obtain ⟨c, raw, rfl⟩ := List.exists_cons_of_ne_nil hne
  have hhere : here = ⟨c :: raw ++ more ++ rest, here.offset⟩ := by rw [← hrest]
  rw [hmarkup, hhere, Source.skip_append, List.cons_append, size_cons]
  have hwidth := Text.Utf8.length_encodeChar_pos c
  dsimp only
  omega

end FontHosting.Script
