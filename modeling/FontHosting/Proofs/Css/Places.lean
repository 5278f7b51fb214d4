import FontHosting.Css.Places
import FontHosting.Proofs.Asset
import FontHosting.Proofs.Css.Rescanning
import FontHosting.Proofs.Except
import FontHosting.Proofs.Text.Utf8
import FontHosting.Stylesheet.Module
import Mathlib.Data.List.Forall2

/-!
# Families are found by place

The search for families adds up places from one search after the other and slices the text at
them.  No slice is ever bad, and what stands at the places is what cutting the stylesheet gives.

The search is followed with texts in place of numbers.  `HasAt` says that a text is made of three
parts, and that a place counts the bytes in front of the middle one and those up to its end.  Such
a place is inside of the text and splits no character, and it is at these places and at no others
that a slice is taken (`slice_eq_ok_iff`).  So every step of the search is compared with the cut
that leaves the same part:

* the next body is that of the next rule, and the search goes on behind its brace
  (`nextBody?_eq`);
* the declarations of a body are cut at its semicolons (`declarationPlaces_eq`), and a family
  stands in the first one that names it (`familyOf_eq`, `familyValue_eq`);
* all together are the families of the segments (`exists_findsFrom`), the induction being over
  the rules with a growing text in front of the search.

Hence renaming by place is renaming the segments (`renameByPlace_eq`).  With what is known about
cutting a renamed stylesheet, the search finds the names that were put in, which
`families_are_found_safely_and_again` says together with the rest.
-/

namespace FontHosting.Css

open Text.Utf8 (encodeChar size size_nil size_cons size_append size_pos splitAtByte
  splitAtByte_append splitAtByte_size)

/-! ## Slices -/

/-- A text has another one at a place. -/
def HasAt (text : List Char) (place : Place) (part : List Char) : Prop :=
  ∃ before behind, text = before ++ (part ++ behind) ∧ place.start = size before ∧
    place.stop = size before + size part

/-- **A slice is what stands at its place**, and there is none where nothing stands. -/
theorem slice_eq_ok_iff {text part : List Char} {place : Place} :
    slice text place = .ok part ↔ HasAt text place part := by
  constructor
  · intro h
    unfold slice at h
    dsimp only at h
    split at h
    · rename_i hsize
      obtain ⟨hstop, hstart⟩ := hsize
      cases h
      have houter := splitAtByte_append place.stop text
      have hinner := splitAtByte_append place.start (splitAtByte place.stop text).1
      refine ⟨_, (splitAtByte place.stop text).2, ?_, hstart.symm, ?_⟩
      · rw [← List.append_assoc, hinner, houter]
      · rw [← size_append, hinner, hstop]
    · cases h
  · rintro ⟨before, behind, rfl, hstart, hstop⟩
    have houter := splitAtByte_size (before ++ part) behind
    rw [size_append, List.append_assoc] at houter
    unfold slice
    rw [hstop, houter, hstart]
    dsimp only
    rw [splitAtByte_size, if_pos ⟨size_append _ _, rfl⟩]

theorem slice_append (before part behind : List Char) :
    slice (before ++ (part ++ behind)) ⟨size before, size before + size part⟩ = .ok part :=
  slice_eq_ok_iff.mpr ⟨before, behind, rfl, rfl, rfl⟩

theorem sliceFrom_append (before behind : List Char) :
    sliceFrom (before ++ behind) (size before) = .ok behind := by
  have hslice := slice_append before behind []
  rw [List.append_nil] at hslice
  rw [sliceFrom, size_append, hslice]

theorem HasAt.stop_eq {text part : List Char} {place : Place} (h : HasAt text place part) :
    place.stop = place.start + size part := by
  obtain ⟨before, behind, -, hstart, hstop⟩ := h
  rw [hstart, hstop]

/-- A part of a part. -/
theorem HasAt.trans {text part inner : List Char} {place other : Place}
    (h : HasAt text place part) (hinner : HasAt part other inner) :
    HasAt text ⟨place.start + other.start, place.start + other.stop⟩ inner := by
  obtain ⟨before, behind, rfl, hstart, hstop⟩ := h
  obtain ⟨front, back, rfl, hfront, hback⟩ := hinner
  refine ⟨before ++ front, back ++ behind, by simp only [List.append_assoc], ?_, ?_⟩
  · rw [hstart, hfront, size_append]
  · rw [hstart, hback, size_append, Nat.add_assoc]

/-! ## Searches -/

/-- A character is found where the text before it ends. -/
theorem findByte?_singleton {c : Char} {text front rest : List Char}
    (h : text.span (· != c) = (front, rest)) :
    findByte? [c] text = if rest = [] then none else some (size front) := by
  have hfront : c ∉ front := by
    rw [List.span_eq_takeWhile_dropWhile] at h
    rw [← (Prod.mk.inj h).1]
    intro hmem
    simpa using List.mem_takeWhile_imp hmem
  unfold findByte?
  cases rest with
  | nil =>
      have htext : text = front := by
        rw [List.span_eq_takeWhile_dropWhile] at h
        obtain ⟨htake, hdrop⟩ := Prod.mk.inj h
        calc text = text.takeWhile (· != c) ++ text.dropWhile (· != c) :=
              List.takeWhile_append_dropWhile.symm
          _ = front := by rw [htake, hdrop, List.append_nil]
      cases hfind : Text.find? [c] text with
      | none => rfl
      | some place =>
          have hmem := (Text.prefix_of_find? hfind).subset (List.mem_singleton_self c)
          exact absurd (List.mem_of_mem_drop hmem) (htext ▸ hfront)
  | cons d others =>
      obtain ⟨rfl, hd⟩ := eq_of_span h
      obtain rfl : d = c := by simpa using hd
      have hfind := Text.find?_behind hfront [] others
      rw [List.singleton_append] at hfind
      rw [hfind, if_neg (List.cons_ne_nil _ _), Option.map_some, List.take_left]

/-- The closing brace stands behind the body that it cuts off. -/
theorem closingBrace?_eq {quote : Option Char} {offset : Nat} {text body after : List Char}
    (h : splitUnquoted '\x7d' quote text = (body, after)) :
    closingBrace? quote offset text = if after = [] then none else some (offset + size body) := by
  induction text generalizing quote offset body with
  | nil =>
      cases h
      rfl
  | cons c rest ih =>
      rw [splitUnquoted] at h
      rw [closingBrace?]
      split at h
      · rename_i hstop
        cases h
        rw [if_pos hstop, if_neg (List.cons_ne_nil _ _), size_nil, Nat.add_zero]
      · rename_i hstop
        cases h
        rw [if_neg hstop, ih rfl, size_cons, Nat.add_assoc]

/-! ## Bodies -/

/-- A body ends at its brace.  Without one it ends with the stylesheet, and then nothing is left
to be searched. -/
theorem closingBrace?_ends {lead rest body after : List Char}
    (h : splitUnquoted '\x7d' none rest = (body, after)) :
    (closingBrace? none (size lead) rest).getD (size (lead ++ rest)) = size lead + size body ∧
      min (size lead + size body + 1) (size (lead ++ rest)) =
        size (lead ++ (body ++ after.take 1)) := by
  obtain ⟨rfl, -, hend⟩ := splitUnquoted_eq_iff.mp h
  rw [closingBrace?_eq h]
  simp only [size_append]
  rcases hend with rfl | ⟨-, others, rfl⟩
  · simp only [if_true, Option.getD_none, size_nil, List.take_nil]
    omega
  · have hbrace : (encodeChar '\x7d').length = 1 := by decide
    rw [if_neg (List.cons_ne_nil _ _), Option.getD_some, List.take_succ_cons, List.take_zero]
    refine ⟨rfl, ?_⟩
    simp only [size_cons, size_nil, hbrace]
    omega

/-- **The next body stands where the next rule has it**, and the search goes on behind its
brace. -/
theorem nextBody?_eq (passed text : List Char) :
    nextBody? (passed ++ text) (size passed) =
      .ok ((nextFace? text).map fun (before, body, after) =>
        (⟨size (passed ++ before), size (passed ++ before) + size body⟩,
          size (passed ++ before ++ (body ++ after.take 1)))) := by
  unfold nextBody? nextFace?
  rw [ok_bind (sliceFrom_append passed text)]
  cases hkeyword : Text.find? faceKeyword text with
  | none =>
      rw [findByte?, hkeyword]
      rfl
  | some keyword =>
      have hface : findByte? faceKeyword text = some (size (text.take keyword)) := by
        rw [findByte?, hkeyword]
        rfl
      have hrule : sliceFrom (passed ++ text) (size passed + size (text.take keyword)) =
          .ok (text.drop keyword) := by
        have hfrom := sliceFrom_append (passed ++ text.take keyword) (text.drop keyword)
        rwa [List.append_assoc, List.take_append_drop, size_append] at hfrom
      rw [hface, Option.bind_eq_bind, Option.bind_some]
      dsimp only
      rw [ok_bind hrule]
      generalize hspan : (text.drop keyword).span (· != '\x7b') = parts
      obtain ⟨opening, rest⟩ := parts
      rw [findByte?_singleton hspan]
      cases rest with
      | nil => rfl
      | cons brace rest =>
          obtain ⟨hdrop, hbrace⟩ := eq_of_span hspan
          obtain rfl : brace = '\x7b' := by simpa using hbrace
          -- From here on all that counts is how much stands in front of the body.
          generalize hlead : passed ++ (text.take keyword ++ opening ++ ['\x7b']) = lead
          have htext : passed ++ text = lead ++ rest := by
            calc passed ++ text = passed ++ (text.take keyword ++ text.drop keyword) := by
                  rw [List.take_append_drop]
              _ = lead ++ rest := by
                  rw [hdrop, ← hlead]
                  simp only [List.append_assoc, List.singleton_append]
          have hstart : size passed + size (text.take keyword) + size opening + 1 = size lead := by
            have hopened : (encodeChar '\x7b').length = 1 := by decide
            simp only [← hlead, size_append, size_cons, size_nil, hopened]
            omega
          have hbehind : sliceFrom (passed ++ text) (size lead) = .ok rest := by
            rw [htext]
            exact sliceFrom_append lead rest
          rw [if_neg (List.cons_ne_nil _ _)]
          dsimp only
          rw [hstart, ok_bind hbehind, htext]
          generalize hbody : splitUnquoted '\x7d' none rest = parts
          obtain ⟨body, after⟩ := parts
          obtain ⟨hstop, hnext⟩ := @closingBrace?_ends lead rest body after hbody
          rw [hstop, hnext, Option.pure_def, Option.map_some]
          dsimp only
          rw [hlead]
          rfl

theorem bodiesFrom_of_none {css : List Char} {search : Nat} (h : nextBody? css search = .ok none) :
    bodiesFrom css search = .ok [] := by
  rw [bodiesFrom]
  split <;> simp_all

theorem bodiesFrom_of_some {css : List Char} {search next : Nat} {body : Place}
    (h : nextBody? css search = .ok (some (body, next))) :
    bodiesFrom css search = (bodiesFrom css next).map (body :: ·) := by
  rw [bodiesFrom]
  split <;> simp_all

/-! ## Families -/

/-- Declarations are told apart at the semicolons that cut the body, and the last one ends with
it. -/
theorem declarationPlaces_eq {stop start offset : Nat} {quote : Option Char}
    {text declaration rest : List Char} (h : splitUnquoted ';' quote text = (declaration, rest))
    (hstop : rest = [] → stop = offset + size declaration) :
    declarationPlaces stop quote start offset text =
      ⟨start, offset + size declaration⟩ ::
        if rest = [] then []
        else declarationPlaces stop none (offset + size declaration + 1)
          (offset + size declaration + 1) rest.tail := by
  induction text generalizing quote offset declaration with
  | nil =>
      cases h
      rw [declarationPlaces, hstop rfl, if_pos rfl]
  | cons c tail ih =>
      rw [splitUnquoted] at h
      rw [declarationPlaces]
      split at h
      · rename_i hmark
        cases h
        have hchar : (encodeChar ';').length = 1 := by decide
        rw [if_pos hmark, if_neg (List.cons_ne_nil _ _), hmark.2, hchar]
        simp only [size_nil, Nat.add_zero, List.tail_cons]
      · rename_i hmark
        cases h
        rw [size_cons, ← Nat.add_assoc] at hstop ⊢
        rw [if_neg hmark, ih rfl hstop]

/-- The two ends of a text without the blanks around it are counted from both of its ends.  They
are in order unless nothing is left: then the front blanks reach to the end of the text, and the
back ones to its start. -/
theorem place_of_trim (offset : Nat) (text : List Char) :
    (if offset + (size text - size (Text.trimStart text)) < offset + size (Text.trimEnd text) then
        some (⟨offset + (size text - size (Text.trimStart text)),
          offset + size (Text.trimEnd text)⟩ : Place)
      else none) =
    if (Text.trim text).isEmpty then none
    else
      let front := offset + size (text.take (text.length - (Text.trimStart text).length))
      some ⟨front, front + size (Text.trim text)⟩ := by
  obtain ⟨hsplit, -⟩ := Text.exists_blanks_trimStart text
  have hleading := congrArg size hsplit
  rw [size_append] at hleading
  by_cases hvalue : Text.trim text = []
  · obtain ⟨hstart, hend⟩ := Text.trim_eq_nil_iff.mp hvalue
    rw [hstart, hend, hvalue, size_nil, if_neg (by omega)]
    rfl
  · have hfilled : ¬ (Text.trim text).isEmpty = true := mt List.isEmpty_iff.mp hvalue
    have hpositive : 0 < size (Text.trim text) := size_pos hvalue
    have hstop := congrArg size (Text.trimEnd_eq_append hvalue)
    rw [size_append] at hstop
    rw [if_neg hfilled, if_pos (by omega), hstop, ← hleading, Nat.add_sub_cancel, ← Nat.add_assoc]

/-- **The value of a declaration stands where the declaration is cut.** -/
theorem familyOf_eq {css declaration : List Char} {place : Place}
    (h : HasAt css place declaration) :
    familyOf css place = .ok ((familyIn? declaration).map fun (before, value, _) =>
      ⟨place.start + size before, place.start + size before + size value⟩) := by
  unfold familyOf familyIn?
  rw [ok_bind (slice_eq_ok_iff.mpr h)]
  generalize hspan : declaration.span (· != ':') = parts
  obtain ⟨property, rest⟩ := parts
  rw [findByte?_singleton hspan]
  cases rest with
  | nil => rfl
  | cons colon rest =>
      obtain ⟨rfl, hcolon⟩ := eq_of_span hspan
      obtain rfl : colon = ':' := by simpa using hcolon
      have hchar : (encodeChar ':').length = 1 := by decide
      have hproperty : slice (property ++ ':' :: rest) ⟨0, size property⟩ = .ok property := by
        simpa using slice_append [] property (':' :: rest)
      have hrest : sliceFrom (property ++ ':' :: rest) (size property + 1) = .ok rest := by
        have hfrom := sliceFrom_append (property ++ [':']) rest
        rwa [List.append_assoc, List.singleton_append, size_append, size_cons, hchar] at hfrom
      rw [if_neg (List.cons_ne_nil _ _)]
      dsimp only
      rw [ok_bind hproperty]
      split
      · rw [ok_bind hrest, place_of_trim, ← Text.trim]
        by_cases hvalue : (Text.trim rest).isEmpty = true
        · rw [if_pos hvalue, if_pos hvalue]
          rfl
        · rw [if_neg hvalue, if_neg hvalue, Option.map_some]
          simp only [size_append, size_cons, hchar, Nat.add_assoc]
          rfl
      · rfl

/-- The first family among the declarations that are left of a body.  The induction is over the
cut, and what was passed in the body grows with each declaration. -/
theorem findSomeM?_declarationPlaces (front behind passed : List Char) {body : List Char}
    {fuel : Nat} (hfuel : body.length < fuel) :
    (declarationPlaces (size (front ++ (passed ++ body))) none (size (front ++ passed))
        (size (front ++ passed)) body).findSomeM?
      (familyOf (front ++ (passed ++ (body ++ behind)))) =
    .ok ((splitBody passed fuel body).map fun (before, value, _) =>
      ⟨size front + size before, size front + size before + size value⟩) := by
  induction fuel generalizing passed body with
  | zero => cases hfuel
  | succ fuel ih =>
      rw [splitBody]
      generalize hcut : splitUnquoted ';' none body = parts
      obtain ⟨declaration, rest⟩ := parts
      obtain ⟨rfl, -, hend⟩ := splitUnquoted_eq_iff.mp hcut
      have hat : HasAt (front ++ (passed ++ (declaration ++ rest ++ behind)))
          ⟨size (front ++ passed), size (front ++ passed) + size declaration⟩ declaration :=
        ⟨front ++ passed, rest ++ behind, by simp only [List.append_assoc], rfl, rfl⟩
      have hstop : rest = [] → size (front ++ (passed ++ (declaration ++ rest))) =
          size (front ++ passed) + size declaration := by
        rintro rfl
        simp only [List.append_nil, size_append, Nat.add_assoc]
      rw [declarationPlaces_eq hcut hstop, List.findSomeM?_cons, ok_bind (familyOf_eq hat)]
      dsimp only
      cases familyIn? declaration with
      | some found =>
          obtain ⟨before, value, after⟩ := found
          simp only [Option.map_some, size_append, Nat.add_assoc]
          rfl
      | none =>
          rcases hend with rfl | ⟨-, others, rfl⟩
          · rw [if_pos rfl]
            rfl
          · have hshort : others.length < fuel := by
              rw [List.length_append, List.length_cons] at hfuel
              omega
            have hagain := ih (passed ++ declaration ++ [';']) hshort
            have hnext : size (front ++ passed) + size declaration + 1 =
                size (front ++ (passed ++ declaration ++ [';'])) := by
              have hchar : size [';'] = 1 := by decide
              simp only [size_append, hchar, Nat.add_assoc]
            rw [if_neg (List.cons_ne_nil _ _), List.tail_cons, hnext]
            simp only [List.append_assoc, List.cons_append] at hagain ⊢
            exact hagain

/-- **The family of a body stands where the body is cut.** -/
theorem familyValue_eq {css body : List Char} {place : Place} (h : HasAt css place body) :
    familyValue css place =
      .ok ((splitBody [] (body.length + 1) body).map fun (before, value, _) =>
        ⟨place.start + size before, place.start + size before + size value⟩) := by
  obtain ⟨front, behind, rfl, hstart, hstop⟩ := h
  have hslice : slice (front ++ (body ++ behind)) place = .ok body :=
    slice_eq_ok_iff.mpr ⟨front, behind, rfl, hstart, hstop⟩
  have hfound := findSomeM?_declarationPlaces front behind [] (Nat.lt_succ_self body.length)
  rw [List.nil_append, List.nil_append, List.append_nil, size_append] at hfound
  unfold familyValue
  rw [ok_bind hslice, hstop, hstart]
  exact hfound

/-- **The value of a family is a solid part of its body.** -/
theorem familyValue_isInside {css body before value after : List Char} {place : Place}
    {fuel : Nat} (h : HasAt css place body)
    (hsplit : splitBody [] fuel body = some (before, value, after)) :
    place.start ≤ place.start + size before ∧
      place.start + size before + size value ≤ place.stop ∧
      ∃ family, HasAt css ⟨place.start + size before, place.start + size before + size value⟩
        family ∧ Text.IsSolid family := by
  have hbody := (splitBody_eq_some (Or.inl rfl) hsplit).text
  rw [List.nil_append] at hbody
  have hsize := congrArg size hbody
  rw [size_append, size_append] at hsize
  have hstop := h.stop_eq
  refine ⟨by omega, by omega, value, ?_, isSolid_of_splitBody hsplit⟩
  have hvalue : HasAt body ⟨size before, size before + size value⟩ value :=
    ⟨before, after, hbody, rfl, rfl⟩
  have hinner := h.trans hvalue
  rwa [← Nat.add_assoc] at hinner

/-! ## Segments -/

/-- The places of the families among segments that start at a byte. -/
def placesFrom : Nat → List Segment → List Place
  | _, [] => []
  | offset, .plain text :: rest => placesFrom (offset + size text) rest
  | offset, .family value :: rest =>
      ⟨offset, offset + size value⟩ :: placesFrom (offset + size value) rest

theorem placesFrom_append (offset : Nat) (first second : List Segment) :
    placesFrom offset (first ++ second) =
      placesFrom offset first ++
        placesFrom (offset + size (first.flatMap Segment.text)) second := by
  induction first generalizing offset with
  | nil => simp [placesFrom]
  | cons part rest ih =>
      cases part <;> simp [placesFrom, ih, Segment.text, Nat.add_assoc]

theorem placesFrom_bodySegments (offset : Nat) (body : List Char) :
    placesFrom offset (bodySegments body) =
      ((splitBody [] (body.length + 1) body).map fun (before, value, _) =>
        (⟨offset + size before, offset + size before + size value⟩ : Place)).toList := by
  unfold bodySegments
  cases splitBody [] (body.length + 1) body with
  | none => rfl
  | some parts => rfl

/-- **The values are found one by one at their places.** -/
theorem forall₂_placesFrom (before behind : List Char) {css : List Char} {parts : List Segment}
    (h : css = before ++ (parts.flatMap Segment.text ++ behind)) :
    List.Forall₂ (HasAt css) (placesFrom (size before) parts)
      (parts.filterMap Segment.family?) := by
  induction parts generalizing before with
  | nil => exact List.Forall₂.nil
  | cons part rest ih =>
      rw [List.flatMap_cons, List.append_assoc, ← List.append_assoc] at h
      have hrest := ih _ h
      rw [size_append] at hrest
      cases part with
      | plain text => exact hrest
      | family value =>
          refine List.Forall₂.cons ?_ hrest
          exact ⟨before, _, by rw [h, List.append_assoc]; rfl, rfl, rfl⟩

/-! ## Stylesheets -/

/-- What the search finds from a byte on: bodies that stand behind each other, and the values of
families in them. -/
structure FindsFrom (css : List Char) (search : Nat) (bodies values : List Place) : Prop where
  bodies_eq : bodiesFrom css search = .ok bodies
  behind : ∀ body ∈ bodies, search < body.start
  parts : ∀ body ∈ bodies, ∃ text, HasAt css body text
  ordered : bodies.Pairwise fun first second => first.stop < second.start
  values_eq : bodies.filterMapM (familyValue css) = .ok values

section
variable {css : List Char} {search next : Nat} {body : Place} {bodies values : List Place}

theorem findsFrom_nil (h : nextBody? css search = .ok none) : FindsFrom css search [] [] :=
  ⟨bodiesFrom_of_none h, by simp, by simp, List.Pairwise.nil, rfl⟩

/-- **One body more** stands in front of the others, and so does its family. -/
theorem FindsFrom.cons (h : FindsFrom css next bodies values)
    (hnext : nextBody? css search = .ok (some (body, next))) (hstart : search < body.start)
    (hstop : body.stop ≤ next) (hpart : ∃ text, HasAt css body text) {value : Option Place}
    (hvalue : familyValue css body = .ok value) :
    FindsFrom css search (body :: bodies) (value.toList ++ values) := by
  have hmoved := lt_of_nextBody? hnext
  refine ⟨?_, ?_, ?_, ?_, ?_⟩
  · rw [bodiesFrom_of_some hnext, h.bodies_eq]
    rfl
  · rintro other (_ | ⟨_, hother⟩)
    · exact hstart
    · have hlater := h.behind other hother
      omega
  · rintro other (_ | ⟨_, hother⟩)
    · exact hpart
    · exact h.parts other hother
  · refine List.Pairwise.cons (fun other hother => ?_) h.ordered
    have hlater := h.behind other hother
    omega
  · rw [List.filterMapM_cons, ok_bind hvalue, h.values_eq]
    cases value with
    | none => rfl
    | some found => rfl

end

/-- The search finds the families of the segments.  The induction is over the rules, and the text
in front of the search grows with each of them. -/
theorem exists_findsFrom {fuel : Nat} (passed : List Char) {text : List Char}
    (hfuel : text.length < fuel) :
    ∃ bodies, FindsFrom (passed ++ text) (size passed) bodies
      (placesFrom (size passed) (segmentsFrom fuel text)) := by
  induction fuel generalizing passed text with
  | zero => cases hfuel
  | succ fuel ih =>
      have hnext := nextBody?_eq passed text
      cases hface : nextFace? text with
      | none =>
          rw [hface] at hnext
          rw [segmentsFrom_of_none hface]
          exact ⟨[], findsFrom_nil hnext⟩
      | some found =>
          obtain ⟨before, body, after⟩ := found
          obtain ⟨rfl, ⟨opening, hopening⟩, -⟩ := nextFace?_eq_some hface
          rw [hface, Option.map_some] at hnext
          have hshort : (after.drop 1).length < fuel := by
            have hbefore : 0 < before.length := by simp [hopening]
            simp only [List.length_append, List.length_drop] at hfuel ⊢
            omega
          obtain ⟨bodies, hfound⟩ := ih (passed ++ before ++ (body ++ after.take 1)) hshort
          have hcss : passed ++ before ++ (body ++ after.take 1) ++ after.drop 1 =
              passed ++ (before ++ (body ++ after)) := by
            simp only [List.append_assoc, List.take_append_drop]
          rw [hcss] at hfound
          have hat : HasAt (passed ++ (before ++ (body ++ after)))
              ⟨size (passed ++ before), size (passed ++ before) + size body⟩ body :=
            ⟨passed ++ before, after, (List.append_assoc _ _ _).symm, rfl, rfl⟩
          have hplaces : placesFrom (size passed)
                (segmentsFrom (fuel + 1) (before ++ (body ++ after))) =
              placesFrom (size (passed ++ before)) (bodySegments body) ++
                placesFrom (size (passed ++ before ++ (body ++ after.take 1)))
                  (segmentsFrom fuel (after.drop 1)) := by
            rw [segmentsFrom_of_some hface, List.cons_append, placesFrom, placesFrom_append,
              flatMap_bodySegments, placesFrom]
            simp only [size_append, Nat.add_assoc]
          rw [hplaces, placesFrom_bodySegments]
          refine ⟨_, hfound.cons hnext ?_ ?_ ⟨body, hat⟩ (familyValue_eq hat)⟩
          · have hfront : 0 < size before := size_pos (by simp [hopening])
            simp only [size_append]
            omega
          · simp only [size_append]
            omega

theorem exists_findsFrom_start (css : List Char) :
    ∃ bodies, FindsFrom css 0 bodies (placesFrom 0 (segments css)) :=
  exists_findsFrom [] (Nat.lt_succ_self css.length)

/-- **The bodies of a stylesheet are parts of it**, one behind the other. -/
theorem exists_faceBodies (css : List Char) :
    ∃ bodies, faceBodies css = .ok bodies ∧ (∀ body ∈ bodies, ∃ text, HasAt css body text) ∧
      bodies.Pairwise fun first second => first.stop < second.start := by
  obtain ⟨bodies, hfound⟩ := exists_findsFrom_start css
  exact ⟨bodies, hfound.bodies_eq, hfound.parts, hfound.ordered⟩

/-- **The families of a stylesheet stand where it is cut.** -/
theorem familyPlaces_eq (css : List Char) :
    familyPlaces css = .ok (placesFrom 0 (segments css)) := by
  obtain ⟨bodies, hfound⟩ := exists_findsFrom_start css
  rw [familyPlaces, faceBodies, ok_bind hfound.bodies_eq]
  exact hfound.values_eq

theorem forall₂_segments (css : List Char) :
    List.Forall₂ (HasAt css) (placesFrom 0 (segments css))
      ((segments css).filterMap Segment.family?) := by
  refine forall₂_placesFrom [] [] ?_
  rw [flatMap_segments, List.nil_append, List.append_nil]

/-! ## Renaming -/

/-- **Replacing by place renames the segments.** -/
theorem replaceFrom_placesFrom (name passed kept : List Char) {css : List Char}
    {parts : List Segment} (h : css = passed ++ (kept ++ parts.flatMap Segment.text)) :
    replaceFrom name css (size passed) (placesFrom (size passed + size kept) parts) =
      .ok (kept ++ parts.flatMap (Segment.renamed name)) := by
  induction parts generalizing passed kept with
  | nil =>
      rw [List.flatMap_nil, List.append_nil] at h
      rw [placesFrom, replaceFrom, h, sliceFrom_append, List.flatMap_nil, List.append_nil]
  | cons part rest ih =>
      rw [List.flatMap_cons] at h
      cases part with
      | plain text =>
          have htext : css = passed ++ (kept ++ text ++ rest.flatMap Segment.text) := by
            rw [h, List.append_assoc]
            rfl
          have hrest := ih passed (kept ++ text) htext
          rw [size_append, ← Nat.add_assoc] at hrest
          rw [placesFrom, List.flatMap_cons, ← List.append_assoc]
          exact hrest
      | family value =>
          have hkept : slice css ⟨size passed, size passed + size kept⟩ = .ok kept := by
            rw [h]
            exact slice_append _ _ _
          have htext : css = passed ++ kept ++ value ++ ([] ++ rest.flatMap Segment.text) := by
            rw [h]
            simp only [Segment.text, List.append_assoc, List.nil_append]
          have hrest := ih (passed ++ kept ++ value) [] htext
          rw [size_nil, Nat.add_zero, List.nil_append, size_append, size_append] at hrest
          rw [placesFrom, replaceFrom, ok_bind hkept, hrest, List.flatMap_cons, ← List.append_assoc]
          rfl

/-- **Renaming by place is renaming.** -/
theorem renameByPlace_eq (rename : List Char → List Char) (css : List Char) :
    renameByPlace rename css = .ok (renameFamilies rename css) := by
  have hvalues := forall₂_segments css
  have hreplaced : ∀ name, replaceFrom name css 0 (placesFrom 0 (segments css)) =
      .ok ((segments css).flatMap (Segment.renamed name)) := fun name =>
    replaceFrom_placesFrom name [] [] (flatMap_segments css).symm
  rw [renameByPlace, ok_bind (familyPlaces_eq css), renameFamilies]
  generalize placesFrom 0 (segments css) = values at hvalues hreplaced
  generalize (segments css).filterMap Segment.family? = families at hvalues
  cases hvalues with
  | nil => rfl
  | cons hfirst hrest =>
      dsimp only
      rw [ok_bind (slice_eq_ok_iff.mpr hfirst), ok_bind (hreplaced _)]
      rfl

/-- One text is another one with a name in place of what stands at some places, and has the name
at others. -/
def IsReplaced (css rules name : List Char) (values found : List Place) : Prop :=
  ∃ parts : List Segment,
    parts.flatMap Segment.text = css ∧ placesFrom 0 parts = values ∧
    parts.flatMap (Segment.renamed name) = rules ∧
    placesFrom 0 (parts.map (Segment.named name)) = found

section
variable {scope : List Char}

/-- A family under a name of its own is a quotation, since its quotes are left out and a hash has
none. -/
theorem isQuotation_scopedFamily (hscope : ∀ c ∈ scope, (Text.Hex.value? c).isSome)
    (value : List Char) : IsQuotation (Stylesheet.scopedFamily scope (unquoted value)) := by
  refine ⟨"__".toList ++ Text.replaceChar ' ' '_' (unquoted value) ++ '_' :: scope, ?_, ?_⟩
  · intro hquote
    rcases List.mem_append.mp hquote with hquote | hquote
    · rcases List.mem_append.mp hquote with hquote | hquote
      · revert hquote
        decide
      · obtain ⟨c, hc, hreplaced⟩ := List.mem_map.mp hquote
        have hplain := (List.mem_filter.mp hc).2
        split at hreplaced
        · revert hreplaced
          decide
        · subst hreplaced
          revert hplain
          decide
    · rcases List.mem_cons.mp hquote with hquote | hquote
      · revert hquote
        decide
      · have hdigit := hscope _ hquote
        revert hdigit
        decide
  · simp [Stylesheet.scopedFamily]

/-- The segments of a renamed stylesheet have the one name as often as there were families. -/
theorem filterMap_family?_named (name : List Char) (parts : List Segment) :
    (parts.map (Segment.named name)).filterMap Segment.family? =
      (parts.filterMap Segment.family?).map fun _ => name := by
  rw [List.filterMap_map, List.map_filterMap]
  congr 1
  funext part
  cases part <;> rfl

/-- **Renamed families are found again.** -/
theorem exists_found (hscope : ∀ c ∈ scope, (Text.Hex.value? c).isSome)
    {css rules family : List Char}
    (h : renameFamilies (Stylesheet.scopedFamily scope) css = some (rules, family)) :
    ∃ first values found,
      familyPlaces css = .ok (first :: values) ∧
      (∃ value, HasAt css first value ∧ family = unquoted value) ∧
      IsReplaced css rules (Stylesheet.scopedFamily scope family) (first :: values) found ∧
      familyPlaces rules = .ok found ∧ found.length = (first :: values).length ∧
      ∀ place ∈ found, HasAt rules place (Stylesheet.scopedFamily scope family) := by
  unfold renameFamilies at h
  obtain ⟨value, hvalue, h⟩ := Option.bind_eq_some_iff.mp h
  obtain ⟨rfl, rfl⟩ := Prod.mk.inj (Option.some_inj.mp h)
  have hname := isQuotation_scopedFamily hscope value
  generalize Stylesheet.scopedFamily scope (unquoted value) = name at hname ⊢
  have hagain := segments_renamed hname css
  have hold := forall₂_segments css
  have hnew := forall₂_segments ((segments css).flatMap (Segment.renamed name))
  have hfound := familyPlaces_eq ((segments css).flatMap (Segment.renamed name))
  rw [hagain, filterMap_family?_named] at hnew
  rw [hagain] at hfound
  -- Both cuts have a place for every family, and those of the second are all the name.
  have hlength : (placesFrom 0 ((segments css).map (Segment.named name))).length =
      (placesFrom 0 (segments css)).length := by
    rw [hnew.length_eq, List.length_map, hold.length_eq]
  have hnames : ∀ place ∈ placesFrom 0 ((segments css).map (Segment.named name)),
      HasAt ((segments css).flatMap (Segment.renamed name)) place name := by
    have hall := (List.forall₂_map_right_iff.mp hnew).imp fun _ _ hat => And.intro hat trivial
    exact ((List.forall₂_and_left (R := fun _ _ => True) _ _).mp hall).1
  obtain ⟨first, values, hvalues, hfirst⟩ : ∃ first values,
      placesFrom 0 (segments css) = first :: values ∧ HasAt css first value := by
    generalize placesFrom 0 (segments css) = values at hold
    generalize (segments css).filterMap Segment.family? = families at hold hvalue
    cases hold with
    | nil => cases hvalue
    | cons hat _ =>
        cases hvalue
        exact ⟨_, _, rfl, hat⟩
  refine ⟨first, values, _, ?_, ⟨value, hfirst, rfl⟩, ?_, hfound, ?_, hnames⟩
  · rw [familyPlaces_eq, hvalues]
  · exact ⟨segments css, flatMap_segments css, hvalues, rfl, rfl⟩
  · rw [hlength, hvalues]

end

/-- **Looking for families is safe on every stylesheet, and finds them again.**  Whatever the text
is, no search runs in place and no slice is bad: the bodies are parts of it that stand behind each
other, and the value that is found in a body, if one is, is a part of that body which starts and
ends with no blank.  Under the names that are made of a hash, the renamed stylesheet is the first
one with the name in place of every value, and there the search finds as many values, each of
them the name. -/
theorem families_are_found_safely_and_again (css : List Char) :
    (∃ bodies, faceBodies css = .ok bodies ∧ (∀ body ∈ bodies, ∃ text, HasAt css body text) ∧
      bodies.Pairwise fun first second => first.stop < second.start) ∧
    (∀ search body next, nextBody? css search = .ok (some (body, next)) →
      search < next ∧ next ≤ size css) ∧
    (∀ body text, HasAt css body text → ∃ found, familyValue css body = .ok found ∧
      ∀ value, found = some value → body.start ≤ value.start ∧ value.stop ≤ body.stop ∧
        ∃ family, HasAt css value family ∧ Text.IsSolid family) ∧
    (∀ rename, renameByPlace rename css = .ok (renameFamilies rename css)) ∧
    ∀ scope, (∀ c ∈ scope, (Text.Hex.value? c).isSome) → ∀ rules family,
      renameFamilies (Stylesheet.scopedFamily scope) css = some (rules, family) →
      ∃ first values found,
        familyPlaces css = .ok (first :: values) ∧
        (∃ value, HasAt css first value ∧ family = unquoted value) ∧
        IsReplaced css rules (Stylesheet.scopedFamily scope family) (first :: values) found ∧
        familyPlaces rules = .ok found ∧ found.length = (first :: values).length ∧
        ∀ place ∈ found, HasAt rules place (Stylesheet.scopedFamily scope family) := by
  refine ⟨exists_faceBodies css, fun search body next => lt_of_nextBody?, ?_,
    fun rename => renameByPlace_eq rename css, fun scope hscope rules family => exists_found hscope⟩
  intro body text hat
  refine ⟨_, familyValue_eq hat, fun value hvalue => ?_⟩
  obtain ⟨⟨before, family, after⟩, hsplit, rfl⟩ := Option.map_eq_some_iff.mp hvalue
  exact familyValue_isInside hat hsplit

/-- A stylesheet with marks between quotes, letters of two bytes, and a quote and a brace that
nothing closes. -/
def brokenCss : String :=
  "é@font-face\x7bsrc:'\x7d';font-family: 'A;é' b\x7d@font-face\x7bfont-family:\"Bé ;"

/-- The hash in the name of a family has hexadecimal digits. -/
theorem isSome_value?_of_mem_scopeOf {css : String} {c : Char}
    (h : c ∈ Stylesheet.scopeOf css) : (Text.Hex.value? c).isSome := by
  obtain ⟨value, hvalue, rfl⟩ := Asset.mem_hexDigest (List.mem_of_mem_take h)
  have hdigits : ∀ value < 16, (Text.Hex.value? (Text.Hex.lowerDigit value)).isSome := by decide
  exact hdigits value hvalue

/-- The broken stylesheet has two families, and both are found again under the name that is made
of its own hash. -/
theorem brokenCss_families_are_found_again :
    (∀ c ∈ Stylesheet.scopeOf brokenCss, (Text.Hex.value? c).isSome) ∧
    ∃ rules found,
      renameFamilies (Stylesheet.scopedFamily (Stylesheet.scopeOf brokenCss)) brokenCss.toList =
        some (rules, "A;é b".toList) ∧
      familyPlaces rules = .ok found ∧ found.length = 2 ∧
      ∀ place ∈ found, HasAt rules place
        (Stylesheet.scopedFamily (Stylesheet.scopeOf brokenCss) "A;é b".toList) := by
  have hscope : ∀ c ∈ Stylesheet.scopeOf brokenCss, (Text.Hex.value? c).isSome := fun _ =>
    isSome_value?_of_mem_scopeOf
  have hfamily : (renameFamilies (Stylesheet.scopedFamily (Stylesheet.scopeOf brokenCss))
      brokenCss.toList).map Prod.snd = some "A;é b".toList := by
    decide +kernel
  obtain ⟨⟨rules, family⟩, hrename, hname⟩ := Option.map_eq_some_iff.mp hfamily
  dsimp only at hname
  subst hname
  obtain ⟨first, values, found, hvalues, -, -, hfound, hlength, hnames⟩ :=
    (families_are_found_safely_and_again brokenCss.toList).2.2.2.2 _ hscope _ _ hrename
  have hcount : (placesFrom 0 (segments brokenCss.toList)).length = 2 := by decide +kernel
  rw [familyPlaces_eq] at hvalues
  rw [Except.ok.inj hvalues] at hcount
  exact ⟨hscope, rules, found, hrename, hfound, hlength.trans hcount, hnames⟩

end FontHosting.Css
