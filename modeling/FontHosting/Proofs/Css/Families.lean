import FontHosting.Css.Families
import FontHosting.Proofs.Text.Blank
import FontHosting.Proofs.Text.Search

/-!
# Renaming families keeps addresses

Renaming cuts a stylesheet into segments and changes those that are the values of families.
An address between brackets is not cut: a value ends in front of a semicolon or of the brace
that closes its rule, and it stands behind a colon whose property has no bracket.  So an
address is in one segment as a whole (`exists_segment_of_infix`), and it is still there when
the families have other names (`infix_renameFamilies`), unless it is part of a family.
-/

namespace FontHosting

namespace Css

/-! ## Cutting -/

/-- A text between brackets. -/
def bracketed (text : List Char) : List Char := '(' :: (text ++ [')'])

theorem mem_bracketed {text : List Char} {c : Char} :
    c ∈ bracketed text ↔ c = '(' ∨ c ∈ text ∨ c = ')' := by
  simp [bracketed]

/-- Where the first part of a text ends, the next character is none that may be in it. -/
theorem eq_of_span {p : Char → Bool} {text first : List Char} {c : Char} {rest : List Char}
    (h : text.span p = (first, c :: rest)) : text = first ++ c :: rest ∧ p c = false := by
  rw [List.span_eq_takeWhile_dropWhile] at h
  obtain ⟨rfl, hrest⟩ := Prod.mk.inj h
  constructor
  · rw [← hrest, List.takeWhile_append_dropWhile]
  · have hne : text.dropWhile p ≠ [] := by
      rw [hrest]
      exact List.cons_ne_nil _ _
    have hhead := List.head_dropWhile_not p hne
    simpa only [hrest, List.head_cons] using hhead

/-- What is behind a cut outside of quotes is empty or starts with the mark. -/
theorem splitUnquoted_rest (mark : Char) (quote : Option Char) (text : List Char) :
    (splitUnquoted mark quote text).2 = [] ∨
      ∃ rest, (splitUnquoted mark quote text).2 = mark :: rest := by
  induction text generalizing quote with
  | nil => exact Or.inl rfl
  | cons c rest ih =>
      simp only [splitUnquoted]
      split
      · rename_i hmark
        exact Or.inr ⟨rest, by rw [hmark.2]⟩
      · exact ih (quoteAfter quote c)

/-- A declaration of a family has no bracket in front of the value, and none behind it. -/
theorem familyIn?_eq_some {declaration before value after : List Char}
    (h : familyIn? declaration = some (before, value, after)) :
    declaration = before ++ (value ++ after) ∧ '(' ∉ before ∧ ')' ∉ after := by
  unfold familyIn? at h
  dsimp only at h
  split at h
  · cases h
  · rename_i colon rest hrest
    obtain ⟨hdeclaration, hcolon⟩ := eq_of_span
      (show declaration.span (· != ':') = ((declaration.span (· != ':')).1, colon :: rest) from
        Prod.ext rfl hrest)
    obtain ⟨hstart, hblanks⟩ := Text.exists_blanks_trimStart rest
    obtain ⟨hend, hspaces⟩ := Text.exists_blanks_trimEnd (Text.trimStart rest)
    split at h
    · rename_i hproperty
      split at h
      · cases h
      · obtain ⟨rfl, hrest⟩ := Prod.mk.inj (Option.some_inj.mp h)
        obtain ⟨rfl, rfl⟩ := Prod.mk.inj hrest
        refine ⟨?_, ?_, fun hbracket => ?_⟩
        · rw [hend, List.append_assoc, List.cons_append, hstart]
          exact hdeclaration
        · intro hbracket
          rcases List.mem_append.mp hbracket with hin | hin
          · have htrimmed := Text.mem_trim_of_not_isBlank hin (by decide)
            rw [hproperty] at htrimmed
            revert htrimmed
            decide
          · rcases List.mem_cons.mp hin with rfl | hin
            · cases hcolon
            · exact absurd (hblanks _ hin) (by decide)
        · exact absurd (hspaces _ hbracket) (by decide)
    · cases h

/-- What stands before the first family of a body: declarations, each with its semicolon, and
then no bracket.  Behind it there is no bracket up to the next semicolon. -/
structure IsCut (body before value after : List Char) : Prop where
  text : body = before ++ (value ++ after)
  front : ∃ passed property, before = passed ++ property ∧ '(' ∉ property ∧
    (passed = [] ∨ ∃ declarations, passed = declarations ++ [';'])
  back : ∃ blanks rest, after = blanks ++ rest ∧ ')' ∉ blanks ∧
    (rest = [] ∨ ∃ declarations, rest = ';' :: declarations)

theorem splitBody_eq_some {passed body before value after : List Char} {fuel : Nat}
    (hpassed : passed = [] ∨ ∃ declarations, passed = declarations ++ [';'])
    (h : splitBody passed fuel body = some (before, value, after)) :
    IsCut (passed ++ body) before value after := by
  induction fuel generalizing passed body with
  | zero => cases h
  | succ fuel ih =>
      have hbody := splitUnquoted_append ';' none body
      have hrest := splitUnquoted_rest ';' none body
      rw [splitBody] at h
      generalize splitUnquoted ';' none body = parts at h hbody hrest
      obtain ⟨declaration, rest⟩ := parts
      dsimp only at h hbody hrest
      cases hfamily : familyIn? declaration with
      | some found =>
          obtain ⟨front, found, back⟩ := found
          rw [hfamily] at h
          obtain ⟨rfl, htail⟩ := Prod.mk.inj (Option.some_inj.mp h)
          obtain ⟨rfl, rfl⟩ := Prod.mk.inj htail
          obtain ⟨hdeclaration, hfront, hback⟩ := familyIn?_eq_some hfamily
          refine ⟨?_, ⟨passed, front, rfl, hfront, hpassed⟩, ⟨back, rest, rfl, hback, hrest⟩⟩
          rw [← hbody, hdeclaration]
          simp only [List.append_assoc]
      | none =>
          rw [hfamily] at h
          dsimp only at h
          rcases hrest with rfl | ⟨others, rfl⟩
          · cases h
          · have hcut := ih (Or.inr ⟨passed ++ declaration, rfl⟩) h
            rw [← hbody]
            simpa only [List.append_assoc, List.singleton_append] using hcut

/-! ## An address is in one segment -/

variable {address : List Char}

/-- An address between brackets is not cut by the value of a family. -/
theorem IsCut.infix_cases {body before value after : List Char}
    (h : IsCut body before value after) (haddress : ';' ∉ address)
    (hwithin : bracketed address <:+: body) :
    bracketed address <:+: before ∨ bracketed address <:+: value ∨
      bracketed address <:+: after := by
  have hmark : ';' ∉ bracketed address := by
    rw [mem_bracketed]
    simp [haddress]
  obtain ⟨passed, property, rfl, hproperty, hpassed⟩ := h.front
  obtain ⟨blanks, rest, rfl, hblanks, hrest⟩ := h.back
  rw [h.text] at hwithin
  -- In front of the value the address could only start at a bracket.
  have hfront : bracketed address <:+: passed ++ property ∨
      bracketed address <:+: value ++ (blanks ++ rest) := by
    rcases hpassed with rfl | ⟨declarations, rfl⟩
    · exact Or.inr (Text.infix_of_append_right hproperty hwithin)
    · simp only [List.append_assoc, List.singleton_append] at hwithin ⊢
      rcases Text.infix_append_cons hmark hwithin with hbefore | hbehind
      · exact Or.inl (hbefore.trans (List.prefix_append _ _).isInfix)
      · exact Or.inr (Text.infix_of_append_right hproperty hbehind)
  -- Behind the value it could only end at one.
  rcases hfront with hbefore | hbehind
  · exact Or.inl hbefore
  · have hends : bracketed address <:+: value ++ blanks → bracketed address <:+: value := by
      intro hinside
      have hclosed : ('(' :: address) ++ [')'] <:+: value :=
        Text.infix_of_append_left hblanks hinside
      exact hclosed
    rcases hrest with rfl | ⟨declarations, rfl⟩
    · rw [List.append_nil] at hbehind
      exact Or.inr (Or.inl (hends hbehind))
    · rw [← List.append_assoc] at hbehind
      rcases Text.infix_append_cons hmark hbehind with hinside | hlater
      · exact Or.inr (Or.inl (hends hinside))
      · refine Or.inr (Or.inr (hlater.trans ?_))
        exact (List.suffix_cons _ _ |>.trans (List.suffix_append _ _)).isInfix

theorem exists_segment_of_infix_body {body : List Char} (haddress : ';' ∉ address)
    (hwithin : bracketed address <:+: body) :
    ∃ segment ∈ bodySegments body, bracketed address <:+: segment.text := by
  unfold bodySegments
  cases hsplit : splitBody [] (body.length + 1) body with
  | none => exact ⟨.plain body, List.mem_singleton_self _, hwithin⟩
  | some parts =>
      obtain ⟨before, value, after⟩ := parts
      have hcut := splitBody_eq_some (Or.inl rfl) hsplit
      rcases hcut.infix_cases haddress hwithin with hbefore | hvalue | hafter
      · exact ⟨.plain before, by simp, hbefore⟩
      · exact ⟨.family value, by simp, hvalue⟩
      · exact ⟨.plain after, by simp, hafter⟩

/-- The parts of a stylesheet up to the end of its next rule. -/
theorem nextFace?_eq_some {css before body after : List Char}
    (h : nextFace? css = some (before, body, after)) :
    css = before ++ (body ++ after) ∧ (∃ opening, before = opening ++ ['\x7b']) ∧
      (after = [] ∨ ∃ rest, after = '\x7d' :: rest) := by
  unfold nextFace? at h
  obtain ⟨start, -, h⟩ := Option.bind_eq_some_iff.mp h
  dsimp only at h
  split at h
  · cases h
  · rename_i brace rest hrest
    obtain ⟨hopening, hbrace⟩ := eq_of_span
      (show (css.drop start).span (· != '\x7b') =
        (((css.drop start).span (· != '\x7b')).1, brace :: rest) from Prod.ext rfl hrest)
    obtain rfl : brace = '\x7b' := by simpa using hbrace
    obtain ⟨rfl, htail⟩ := Prod.mk.inj (Option.some_inj.mp h)
    obtain ⟨rfl, rfl⟩ := Prod.mk.inj htail
    refine ⟨?_, ⟨_, rfl⟩, splitUnquoted_rest _ _ _⟩
    rw [splitUnquoted_append, List.append_assoc, List.singleton_append, List.append_assoc,
      ← hopening, List.take_append_drop]

/-- **An address between brackets is in one segment**, if it has neither a semicolon nor a
brace. -/
theorem exists_segment_of_infix (hsemicolon : ';' ∉ address) (hopen : '\x7b' ∉ address)
    (hclose : '\x7d' ∉ address) {css : List Char} (hwithin : bracketed address <:+: css) :
    ∃ segment ∈ segments css, bracketed address <:+: segment.text := by
  have hopen' : '\x7b' ∉ bracketed address := by
    rw [mem_bracketed]
    simp [hopen]
  have hclose' : '\x7d' ∉ bracketed address := by
    rw [mem_bracketed]
    simp [hclose]
  unfold segments
  generalize css.length + 1 = fuel
  induction fuel generalizing css with
  | zero => exact ⟨.plain css, List.mem_singleton_self _, hwithin⟩
  | succ fuel ih =>
      rw [segmentsFrom]
      cases hface : nextFace? css with
      | none => exact ⟨.plain css, List.mem_singleton_self _, hwithin⟩
      | some parts =>
          obtain ⟨before, body, after⟩ := parts
          obtain ⟨rfl, ⟨opening, rfl⟩, hafter⟩ := nextFace?_eq_some hface
          dsimp only
          rw [List.append_assoc, List.singleton_append] at hwithin
          -- The braces cut the rule from the others, so the address is on one side of each.
          rcases Text.infix_append_cons hopen' hwithin with hbefore | hrule
          · refine ⟨_, List.mem_append_left _ List.mem_cons_self, ?_⟩
            exact hbefore.trans (List.prefix_append _ _).isInfix
          · have hbody : bracketed address <:+: body ∨ bracketed address <:+: after.drop 1 := by
              rcases hafter with rfl | ⟨rest, rfl⟩
              · rw [List.append_nil] at hrule
                exact Or.inl hrule
              · exact Text.infix_append_cons hclose' hrule
            rcases hbody with hbody | hrest
            · obtain ⟨segment, hsegment, hin⟩ := exists_segment_of_infix_body hsemicolon hbody
              exact ⟨segment, List.mem_append_left _ (List.mem_cons_of_mem _ hsegment), hin⟩
            · obtain ⟨segment, hsegment, hin⟩ := ih hrest
              exact ⟨segment, List.mem_append_right _ (List.mem_cons_of_mem _ hsegment), hin⟩

/-- **Renaming families keeps an address**, unless it is part of a family. -/
theorem infix_renameFamilies {rename : List Char → List Char} {css rules family : List Char}
    (h : renameFamilies rename css = some (rules, family)) (hsemicolon : ';' ∉ address)
    (hopen : '\x7b' ∉ address) (hclose : '\x7d' ∉ address)
    (hfamily : ∀ value, .family value ∈ segments css → ¬ bracketed address <:+: value)
    (hwithin : bracketed address <:+: css) : bracketed address <:+: rules := by
  unfold renameFamilies at h
  obtain ⟨first, -, h⟩ := Option.bind_eq_some_iff.mp h
  obtain ⟨rfl, -⟩ := Prod.mk.inj (Option.some_inj.mp h)
  obtain ⟨segment, hsegment, hin⟩ := exists_segment_of_infix hsemicolon hopen hclose hwithin
  cases segment with
  | family value => exact absurd hin (hfamily value hsegment)
  | plain text =>
      refine hin.trans ?_
      obtain ⟨before, after, hsplit⟩ := List.append_of_mem hsegment
      rw [hsplit, List.flatMap_append, List.flatMap_cons]
      exact ⟨_, _, List.append_assoc _ _ _⟩

end Css

end FontHosting
