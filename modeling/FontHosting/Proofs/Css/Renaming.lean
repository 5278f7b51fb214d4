import FontHosting.LocalFont.Loader
import FontHosting.Proofs.Css.Families

/-!
# Families of rendered rules

The rules of font files are rendered from declarations, and renaming reads the text again: it
looks for the keyword of a rule, for the brace that closes it, for the semicolon behind each
declaration and for the colon in it.  All of them may stand in a value as well, as long as they
are between quotes.  So what carries the proofs is which texts the reader passes as a whole
(`Passes`): a text in which quotes come in pairs and the marks stand between them only, and
hence every declaration and every body (`IsWellFormed.passes`, `passes_bodyText`).

Then every layer reads what was rendered: a declaration is cut at its semicolon
(`splitBody_other`, `splitBody_family`), a rule at its braces (`nextFace?_rule`), and a stylesheet
behind each of its rules (`segments_renderFaces`).  Renaming a rendered stylesheet is rendering the
renamed rules (`rendered_families_are_renamed`).
-/

namespace FontHosting

namespace Text

theorem span_append_cons {p : Char → Bool} (text : List Char) {c : Char}
    (htext : ∀ d ∈ text, p d = true) (hc : p c = false) (rest : List Char) :
    (text ++ c :: rest).span p = (text, c :: rest) := by
  rw [List.span_eq_takeWhile_dropWhile, List.takeWhile_append_of_pos htext,
    List.dropWhile_append_of_pos htext, List.takeWhile_cons_of_neg (by simp [hc]),
    List.dropWhile_cons_of_neg (by simp [hc]), List.append_nil]

end Text

namespace Css

open LocalFont (Declaration renderFace)

/-! ## Rules that can be read back -/

/-- A text in which quotes come in pairs, with semicolons and closing braces between them
only. -/
inductive IsSealed : List Char → Prop
  | nil : IsSealed []
  | plain {c : Char} {rest : List Char} (hquote : isQuote c = false) (hsemicolon : c ≠ ';')
      (hbrace : c ≠ '\x7d') (hrest : IsSealed rest) : IsSealed (c :: rest)
  | quotation {rest : List Char} (mark : Char) (text : List Char) (hmark : isQuote mark = true)
      (htext : mark ∉ text) (hrest : IsSealed rest) : IsSealed (mark :: (text ++ mark :: rest))

/-- A declaration with a plain name and a value that stays a value. -/
structure IsWellFormed (declaration : Declaration) : Prop where
  name : ∀ c ∈ declaration.property.toList,
    Text.isBlank c = false ∧ isQuote c = false ∧ c ≠ ':' ∧ c ≠ ';' ∧ c ≠ '\x7d'
  value : IsSealed declaration.value.toList
  trimmed : Text.trim declaration.value.toList = declaration.value.toList
  nonempty : declaration.value.toList ≠ []

/-- Whether a declaration names the family. -/
def namesFamily (declaration : Declaration) : Bool := declaration.property == "font-family"

/-- A rule of well-formed declarations, of which at most one names the family. -/
structure IsWellFormedRule (rule : List Declaration) : Prop where
  declarations : ∀ declaration ∈ rule, IsWellFormed declaration
  single : rule.countP namesFamily ≤ 1

/-- The family that a stylesheet names first. -/
def firstFamily? (rules : List (List Declaration)) : Option String :=
  (rules.flatten.find? namesFamily).map Declaration.value

/-- A declaration with another family, if it names one. -/
def withFamily (family : String) (declaration : Declaration) : Declaration :=
  if namesFamily declaration then { declaration with value := family } else declaration

/-- The rules as one text. -/
def renderFaces (rules : List (List Declaration)) : String :=
  "\n".intercalate (rules.map renderFace)

/-! ## What the reader passes -/

/-- The search for a mark outside of quotes goes past a text. -/
def Passes (mark : Char) (text : List Char) : Prop :=
  ∀ rest, splitUnquoted mark none (text ++ rest) =
    (text ++ (splitUnquoted mark none rest).1, (splitUnquoted mark none rest).2)

variable {mark : Char} {text : List Char}

theorem passes_nil (mark : Char) : Passes mark [] := fun _ => rfl

theorem Passes.append {other : List Char} (h : Passes mark text) (hother : Passes mark other) :
    Passes mark (text ++ other) := by
  intro rest
  rw [List.append_assoc, h, hother, List.append_assoc]

theorem Passes.cons {c : Char} (h : Passes mark text) (hquote : isQuote c = false)
    (hc : c ≠ mark) : Passes mark (c :: text) := by
  intro rest
  have hstep : ¬ ((none : Option Char) = none ∧ c = mark) := fun hstop => hc hstop.2
  have hquiet : quoteAfter none c = none := by simp [quoteAfter, hquote]
  rw [List.cons_append, splitUnquoted, if_neg hstep, hquiet, h]
  rfl

/-- Between quotes every mark is passed. -/
theorem splitUnquoted_quotation {quote : Char} {text : List Char} (h : quote ∉ text)
    (rest : List Char) :
    splitUnquoted mark (some quote) (text ++ quote :: rest) =
      (text ++ quote :: (splitUnquoted mark none rest).1, (splitUnquoted mark none rest).2) := by
  induction text with
  | nil => simp [splitUnquoted, quoteAfter]
  | cons c others ih =>
      have hne : c ≠ quote := fun hc => h (hc ▸ List.mem_cons_self)
      have hopen : quoteAfter (some quote) c = some quote := by simp [quoteAfter, hne]
      have hstep : ¬ (some quote = none ∧ c = mark) := fun hstop => Option.some_ne_none _ hstop.1
      rw [List.cons_append, splitUnquoted, if_neg hstep, hopen,
        ih fun hmem => h (List.mem_cons_of_mem _ hmem)]
      rfl

theorem IsSealed.passes (h : IsSealed text) (hmark : mark = ';' ∨ mark = '\x7d') :
    Passes mark text := by
  have hplain : isQuote mark = false := by
    rcases hmark with rfl | rfl <;> decide
  induction h with
  | nil => exact passes_nil mark
  | plain hquote hsemicolon hbrace hrest ih =>
      refine ih.cons hquote ?_
      rcases hmark with rfl | rfl
      · exact hsemicolon
      · exact hbrace
  | @quotation others quote inner hquote hinner hrest ih =>
      intro rest
      have hne : quote ≠ mark := by
        rintro rfl
        rw [hquote] at hplain
        cases hplain
      have hstep : ¬ ((none : Option Char) = none ∧ quote = mark) := fun hstop => hne hstop.2
      have hopen : quoteAfter none quote = some quote := by simp [quoteAfter, hquote]
      rw [List.cons_append, List.append_assoc, List.cons_append, splitUnquoted, if_neg hstep,
        hopen, splitUnquoted_quotation hinner, ih rest]
      simp

/-! ## Declarations -/

/-- A declaration up to its semicolon. -/
def declarationText (declaration : Declaration) : List Char :=
  declaration.property.toList ++ (':' :: ' ' :: declaration.value.toList)

variable {declaration : Declaration}

theorem passes_of_forall (h : ∀ c ∈ text, isQuote c = false ∧ c ≠ mark) : Passes mark text := by
  induction text with
  | nil => exact passes_nil mark
  | cons c rest ih =>
      obtain ⟨hquote, hc⟩ := h c List.mem_cons_self
      exact (ih fun d hd => h d (List.mem_cons_of_mem _ hd)).cons hquote hc

/-- A declaration is passed as a whole. -/
theorem IsWellFormed.passes (h : IsWellFormed declaration) (hmark : mark = ';' ∨ mark = '\x7d') :
    Passes mark (declarationText declaration) := by
  have hname : Passes mark declaration.property.toList := by
    refine passes_of_forall fun c hc => ?_
    obtain ⟨-, hquote, -, hsemicolon, hbrace⟩ := h.name c hc
    rcases hmark with rfl | rfl
    · exact ⟨hquote, hsemicolon⟩
    · exact ⟨hquote, hbrace⟩
  have hseparator : Passes mark (':' :: ' ' :: declaration.value.toList) := by
    refine ((h.value.passes hmark).cons (by decide) ?_).cons (by decide) ?_ <;>
      rcases hmark with rfl | rfl <;> decide
  exact hname.append hseparator

theorem trim_cons_blank {c : Char} (hc : Text.isBlank c = true) (text : List Char) :
    Text.trim (c :: text) = Text.trim text := by
  unfold Text.trim Text.trimStart
  rw [List.dropWhile_cons_of_pos hc]

theorem trim_eq_self (h : ∀ c ∈ text, Text.isBlank c = false) : Text.trim text = text := by
  have hstart : ∀ {text : List Char}, (∀ c ∈ text, Text.isBlank c = false) →
      text.dropWhile Text.isBlank = text := by
    intro text h
    cases text with
    | nil => rfl
    | cons c rest => exact List.dropWhile_cons_of_neg (by simp [h c List.mem_cons_self])
  unfold Text.trim Text.trimEnd Text.dropEndWhile Text.trimStart
  rw [hstart h, hstart fun c hc => h c (List.mem_reverse.mp hc), List.reverse_reverse]

/-- A text that loses nothing on both sides does not start with a blank. -/
theorem trimStart_of_trim (h : Text.trim text = text) : Text.trimStart text = text := by
  have hlength := congrArg List.length h
  have hend : (Text.trim text).length ≤ (Text.trimStart text).length := by
    have hsplit := congrArg List.length (Text.exists_blanks_trimEnd (Text.trimStart text)).1
    rw [List.length_append] at hsplit
    unfold Text.trim
    omega
  exact (List.dropWhile_suffix _).eq_of_length_le (by unfold Text.trimStart at hend; omega)

/-- The reader finds the property of a declaration in front of the first colon. -/
theorem familyIn?_declaration (h : IsWellFormed declaration) :
    familyIn? ('\n' :: declarationText declaration) =
      if namesFamily declaration then
        some ("\nfont-family: ".toList, declaration.value.toList, [])
      else none := by
  have hspan : ('\n' :: declarationText declaration).span (· != ':') =
      ('\n' :: declaration.property.toList, ':' :: ' ' :: declaration.value.toList) := by
    refine Text.span_append_cons ('\n' :: declaration.property.toList) ?_ (by decide) _
    intro c hc
    rcases List.mem_cons.mp hc with rfl | hc
    · decide
    · obtain ⟨-, -, hcolon, -⟩ := h.name c hc
      simpa using hcolon
  have hproperty : Text.trim ('\n' :: declaration.property.toList) =
      declaration.property.toList := by
    rw [trim_cons_blank (by decide), trim_eq_self fun c hc => (h.name c hc).1]
  have hstart : Text.trimStart (' ' :: declaration.value.toList) = declaration.value.toList := by
    have hblank : Text.trimStart (' ' :: declaration.value.toList) =
        Text.trimStart declaration.value.toList := List.dropWhile_cons_of_pos (by decide)
    rw [hblank, trimStart_of_trim h.trimmed]
  have hend : Text.trimEnd declaration.value.toList = declaration.value.toList := by
    have htrimmed := h.trimmed
    rwa [Text.trim, trimStart_of_trim h.trimmed] at htrimmed
  unfold familyIn?
  rw [hspan]
  dsimp only
  rw [hproperty, hstart, hend]
  by_cases hfamily : namesFamily declaration = true
  · have hname : declaration.property = "font-family" := beq_iff_eq.mp hfamily
    have hfilled : declaration.value.toList.isEmpty = false := by
      rw [← Bool.not_eq_true, List.isEmpty_iff]
      exact h.nonempty
    rw [if_pos (congrArg String.toList hname), if_pos hfamily, hfilled, hname]
    simp
  · have hname : declaration.property.toList ≠ "font-family".toList := fun heq =>
      hfamily (beq_iff_eq.mpr (String.toList_inj.mp heq))
    rw [if_neg hname, if_neg hfamily]

/-! ## Bodies -/

/-- Declarations, each on a line of its own. -/
def linesText (rule : List Declaration) : List Char :=
  rule.flatMap fun declaration => '\n' :: (declarationText declaration ++ [';'])

/-- What stands between the braces of a rule.  A rule without declarations has an empty line. -/
def bodyText : List Declaration → List Char
  | [] => ['\n', '\n']
  | rule => linesText rule ++ ['\n']

theorem splitUnquoted_declaration (h : IsWellFormed declaration) (rest : List Char) :
    splitUnquoted ';' none ('\n' :: (declarationText declaration ++ ';' :: rest)) =
      ('\n' :: declarationText declaration, ';' :: rest) := by
  have hpasses : Passes ';' ('\n' :: declarationText declaration) :=
    (h.passes (Or.inl rfl)).cons (by decide) (by decide)
  have hstop : splitUnquoted ';' none (';' :: rest) = ([], ';' :: rest) := by
    simp [splitUnquoted]
  rw [← List.cons_append, hpasses, hstop, List.append_nil]

section
variable {rule : List Declaration} {passed : List Char} {fuel : Nat}

/-- A declaration of another property is passed. -/
theorem splitBody_other (h : IsWellFormed declaration) (hother : namesFamily declaration = false)
    (rest : List Char) :
    splitBody passed (fuel + 1) ('\n' :: (declarationText declaration ++ ';' :: rest)) =
      splitBody (passed ++ '\n' :: (declarationText declaration ++ [';'])) fuel rest := by
  rw [splitBody, splitUnquoted_declaration h]
  dsimp only
  rw [familyIn?_declaration h, hother]
  simp

/-- A declaration of the family is where a body is cut. -/
theorem splitBody_family (h : IsWellFormed declaration) (hfamily : namesFamily declaration = true)
    (rest : List Char) :
    splitBody passed (fuel + 1) ('\n' :: (declarationText declaration ++ ';' :: rest)) =
      some (passed ++ "\nfont-family: ".toList, declaration.value.toList, ';' :: rest) := by
  rw [splitBody, splitUnquoted_declaration h]
  dsimp only
  rw [familyIn?_declaration h, hfamily]
  rfl

theorem splitBody_end : splitBody passed fuel ['\n'] = none := by
  cases fuel with
  | zero => rfl
  | succ fuel =>
      have hsplit : splitUnquoted ';' none ['\n'] = (['\n'], []) := by decide
      have hfamily : familyIn? ['\n'] = none := by decide
      rw [splitBody, hsplit]
      dsimp only
      rw [hfamily]

theorem linesText_cons (declaration : Declaration) (rest : List Declaration) (text : List Char) :
    linesText (declaration :: rest) ++ text =
      '\n' :: (declarationText declaration ++ ';' :: (linesText rest ++ text)) := by
  simp [linesText]

theorem splitBody_lines (hrule : ∀ declaration ∈ rule, IsWellFormed declaration)
    (hnone : ∀ declaration ∈ rule, namesFamily declaration = false) :
    splitBody passed fuel (linesText rule ++ ['\n']) = none := by
  induction rule generalizing passed fuel with
  | nil => exact splitBody_end
  | cons first rest ih =>
      cases fuel with
      | zero => rfl
      | succ fuel =>
          rw [linesText_cons, splitBody_other (hrule first List.mem_cons_self)
            (hnone first List.mem_cons_self)]
          exact ih (fun other hother => hrule other (List.mem_cons_of_mem _ hother))
            fun other hother => hnone other (List.mem_cons_of_mem _ hother)

/-- A body is cut at the value of the first declaration that names the family. -/
theorem splitBody_append (passed text : List Char) {earlier : List Declaration}
    (hearlier : ∀ declaration ∈ earlier, IsWellFormed declaration)
    (hnone : ∀ declaration ∈ earlier, namesFamily declaration = false)
    (h : IsWellFormed declaration) (hfamily : namesFamily declaration = true)
    (hfuel : earlier.length < fuel) :
    splitBody passed fuel
        (linesText earlier ++ '\n' :: (declarationText declaration ++ ';' :: text)) =
      some (passed ++ linesText earlier ++ "\nfont-family: ".toList, declaration.value.toList,
        ';' :: text) := by
  induction earlier generalizing passed fuel with
  | nil =>
      obtain ⟨fuel, rfl⟩ := Nat.exists_eq_succ_of_ne_zero (Nat.ne_of_gt hfuel)
      rw [linesText, List.flatMap_nil, List.append_nil]
      exact splitBody_family h hfamily text
  | cons first rest ih =>
      obtain ⟨fuel, rfl⟩ := Nat.exists_eq_succ_of_ne_zero (Nat.ne_of_gt (Nat.zero_lt_of_lt hfuel))
      rw [List.length_cons] at hfuel
      rw [linesText_cons, splitBody_other (hearlier first List.mem_cons_self)
        (hnone first List.mem_cons_self),
        ih _ (fun other hother => hearlier other (List.mem_cons_of_mem _ hother))
          (fun other hother => hnone other (List.mem_cons_of_mem _ hother)) (by omega)]
      simp [linesText]

end

/-! ## Renaming a body -/

theorem filter_namesFamily {rule : List Declaration}
    (h : ∀ declaration ∈ rule, namesFamily declaration = false) : rule.filter namesFamily = [] :=
  List.filter_eq_nil_iff.mpr fun declaration hmem => by simp [h declaration hmem]

theorem map_withFamily_eq_self {family : String} {rule : List Declaration}
    (hnone : ∀ declaration ∈ rule, namesFamily declaration = false) :
    rule.map (withFamily family) = rule := by
  refine (List.map_congr_left fun declaration hmem => ?_).trans (List.map_id rule)
  rw [withFamily, hnone declaration hmem]
  rfl

/-- A rule names no family, or it names one between declarations that do not. -/
theorem IsWellFormedRule.cases {rule : List Declaration} (h : IsWellFormedRule rule) :
    (∀ declaration ∈ rule, namesFamily declaration = false) ∨
      ∃ earlier declaration later, rule = earlier ++ declaration :: later ∧
        namesFamily declaration = true ∧
        (∀ other ∈ earlier, namesFamily other = false) ∧
        ∀ other ∈ later, namesFamily other = false := by
  by_cases hnone : ∀ declaration ∈ rule, namesFamily declaration = false
  · exact Or.inl hnone
  · simp only [not_forall, Bool.not_eq_false] at hnone
    obtain ⟨declaration, hmem, hfamily⟩ := hnone
    obtain ⟨earlier, later, rfl⟩ := List.append_of_mem hmem
    have hcount := h.single
    rw [List.countP_append, List.countP_cons_of_pos hfamily] at hcount
    have hearlier : earlier.countP namesFamily = 0 := by omega
    have hlater : later.countP namesFamily = 0 := by omega
    refine Or.inr ⟨earlier, declaration, later, rfl, hfamily, ?_, ?_⟩
    · intro other hother
      simpa using List.countP_eq_zero.mp hearlier other hother
    · intro other hother
      simpa using List.countP_eq_zero.mp hlater other hother

theorem length_le_linesText (rule : List Declaration) : rule.length ≤ (linesText rule).length := by
  induction rule with
  | nil => exact Nat.zero_le _
  | cons first rest ih =>
      have hcons := congrArg List.length (linesText_cons first rest [])
      simp only [List.append_nil, List.length_cons, List.length_append] at hcons ⊢
      omega

/-- The family in a rule. -/
def familiesOf (rule : List Declaration) : List (List Char) :=
  (rule.filter namesFamily).map fun declaration => declaration.value.toList

theorem bodyText_of_ne_nil {rule : List Declaration} (h : rule ≠ []) :
    bodyText rule = linesText rule ++ ['\n'] := by
  cases rule with
  | nil => exact absurd rfl h
  | cons first rest => rfl

theorem bodyText_append (earlier : List Declaration) (declaration : Declaration)
    (later : List Declaration) :
    bodyText (earlier ++ declaration :: later) =
      linesText earlier ++
        '\n' :: (declarationText declaration ++ ';' :: (linesText later ++ ['\n'])) := by
  rw [bodyText_of_ne_nil (by simp), linesText, List.flatMap_append, List.append_assoc]
  exact congrArg (linesText earlier ++ ·) (linesText_cons declaration later ['\n'])

/-- A declaration of the family with another one. -/
theorem declarationText_withFamily {name : List Char} (hfamily : namesFamily declaration = true) :
    declarationText (withFamily (String.ofList name) declaration) =
      "font-family: ".toList ++ name := by
  have hproperty : declaration.property = "font-family" := beq_iff_eq.mp hfamily
  simp [withFamily, hfamily, declarationText, hproperty]

/-- **Renaming the segments of a body is rendering the renamed declarations.** -/
theorem bodySegments_bodyText {rule : List Declaration} (h : IsWellFormedRule rule)
    (name : List Char) :
    (bodySegments (bodyText rule)).flatMap (Segment.renamed name) =
        bodyText (rule.map (withFamily (String.ofList name))) ∧
      (bodySegments (bodyText rule)).filterMap Segment.family? = familiesOf rule := by
  rcases h.cases with hnone | ⟨earlier, declaration, later, rfl, hfamily, hearlier, hlater⟩
  · have hsplit : splitBody [] ((bodyText rule).length + 1) (bodyText rule) = none := by
      by_cases hempty : rule = []
      · rw [hempty]
        decide
      · rw [bodyText_of_ne_nil hempty]
        exact splitBody_lines h.declarations hnone
    have hplain : bodySegments (bodyText rule) = [.plain (bodyText rule)] := by
      rw [bodySegments, hsplit]
    rw [hplain, map_withFamily_eq_self hnone, familiesOf, filter_namesFamily hnone]
    simp [Segment.renamed, Segment.family?]
  · have hwell : IsWellFormed declaration :=
      h.declarations declaration (List.mem_append_right _ List.mem_cons_self)
    have hfuel : earlier.length < (bodyText (earlier ++ declaration :: later)).length + 1 := by
      have hlength := length_le_linesText earlier
      rw [bodyText_append, List.length_append]
      omega
    have hsplit := splitBody_append [] (linesText later ++ ['\n'])
      (fun other hother => h.declarations other (List.mem_append_left _ hother)) hearlier hwell
      hfamily hfuel
    rw [← bodyText_append, List.nil_append] at hsplit
    have hcut : bodySegments (bodyText (earlier ++ declaration :: later)) =
        [.plain (linesText earlier ++ "\nfont-family: ".toList),
          .family declaration.value.toList, .plain (';' :: (linesText later ++ ['\n']))] := by
      rw [bodySegments, hsplit]
    constructor
    · rw [hcut, List.map_append, List.map_cons, map_withFamily_eq_self hearlier,
        map_withFamily_eq_self hlater, bodyText_append, declarationText_withFamily hfamily]
      simp [Segment.renamed]
    · rw [hcut, familiesOf, List.filter_append, List.filter_cons_of_pos hfamily,
        filter_namesFamily hearlier, filter_namesFamily hlater]
      rfl

/-! ## Rules -/

/-- A list of pieces starts with the first one, and every other piece follows a separator. -/
theorem intercalate_eq_flatMap (separator first : List Char) (rest : List (List Char)) :
    separator.intercalate (first :: rest) = first ++ rest.flatMap (separator ++ ·) := by
  induction rest generalizing first with
  | nil => simp
  | cons second others ih =>
      rw [List.intercalate_cons_cons, ih second, List.flatMap_cons]
      simp only [List.append_assoc]

/-- A rule as it is rendered. -/
theorem toList_renderFace (rule : List Declaration) :
    (renderFace rule).toList =
      "@font-face \x7b".toList ++ (bodyText rule ++ '\x7d' :: ['\n']) := by
  unfold renderFace
  dsimp only
  rw [String.toList_append, String.toList_append, String.toList_intercalate]
  cases rule with
  | nil => decide
  | cons first rest =>
      rw [bodyText_of_ne_nil (List.cons_ne_nil _ _), List.map_cons, List.map_cons,
        intercalate_eq_flatMap]
      simp [linesText, declarationText, List.flatMap_map]

theorem passes_bodyText {rule : List Declaration} (h : IsWellFormedRule rule) :
    Passes '\x7d' (bodyText rule) := by
  have hend : Passes '\x7d' ['\n'] := (passes_nil _).cons (by decide) (by decide)
  have hlines : ∀ {rule : List Declaration}, (∀ declaration ∈ rule, IsWellFormed declaration) →
      Passes '\x7d' (linesText rule) := by
    intro rule hrule
    induction rule with
    | nil => exact passes_nil _
    | cons first rest ih =>
        have hfirst : Passes '\x7d' ('\n' :: (declarationText first ++ [';'])) := by
          refine Passes.cons ?_ (by decide) (by decide)
          refine ((hrule first List.mem_cons_self).passes (Or.inr rfl)).append ?_
          exact (passes_nil _).cons (by decide) (by decide)
        exact hfirst.append (ih fun other hother => hrule other (List.mem_cons_of_mem _ hother))
  by_cases hempty : rule = []
  · rw [hempty]
    exact hend.cons (by decide) (by decide)
  · rw [bodyText_of_ne_nil hempty]
    exact (hlines h.declarations).append hend

/-- The next rule is the one behind a text without the first character of the keyword. -/
theorem nextFace?_rule {rule : List Declaration} (h : IsWellFormedRule rule) {lead : List Char}
    (hlead : '@' ∉ lead) (rest : List Char) :
    nextFace? (lead ++ ((renderFace rule).toList ++ rest)) =
      some (lead ++ "@font-face \x7b".toList, bodyText rule, '\x7d' :: '\n' :: rest) := by
  have hopening : "@font-face \x7b".toList = faceKeyword ++ [' ', '\x7b'] := by decide
  have hkeyword : (renderFace rule).toList ++ rest =
      faceKeyword ++ (' ' :: '\x7b' :: (bodyText rule ++ '\x7d' :: '\n' :: rest)) := by
    rw [toList_renderFace, hopening]
    simp only [List.append_assoc, List.cons_append, List.nil_append]
  have hfind : Text.find? faceKeyword (lead ++ ((renderFace rule).toList ++ rest)) =
      some lead.length := by
    have hcons : faceKeyword = '@' :: "font-face".toList := by decide
    rw [hkeyword, hcons]
    exact Text.find?_behind hlead _ _
  have hspan : ((renderFace rule).toList ++ rest).span (· != '\x7b') =
      (faceKeyword ++ [' '], '\x7b' :: (bodyText rule ++ '\x7d' :: '\n' :: rest)) := by
    have hplain : ∀ c ∈ faceKeyword ++ [' '], (c != '\x7b') = true :=
      List.forall_iff_forall_mem.mp (by decide)
    rw [hkeyword, ← Text.span_append_cons _ hplain (by decide), List.append_assoc]
    rfl
  have hbody : splitUnquoted '\x7d' none (bodyText rule ++ '\x7d' :: '\n' :: rest) =
      (bodyText rule, '\x7d' :: '\n' :: rest) := by
    have hstop : splitUnquoted '\x7d' none ('\x7d' :: '\n' :: rest) =
        ([], '\x7d' :: '\n' :: rest) := by simp [splitUnquoted]
    rw [passes_bodyText h, hstop, List.append_nil]
  unfold nextFace?
  rw [hfind, Option.bind_eq_bind, Option.bind_some, List.drop_left, hspan]
  dsimp only
  rw [hbody, List.take_left, hopening]
  simp only [List.append_assoc, List.cons_append, List.nil_append, Option.pure_def]

/-- Rules behind others. -/
def rulesText (rules : List (List Declaration)) : List Char :=
  rules.flatMap fun rule => '\n' :: (renderFace rule).toList

/-- A rule is cut into its opening, the segments of its body, and its closing brace. -/
theorem segmentsFrom_rule {rule : List Declaration} (h : IsWellFormedRule rule)
    {lead : List Char} (hlead : '@' ∉ lead) (fuel : Nat) (rest : List Char) :
    segmentsFrom (fuel + 1) (lead ++ ((renderFace rule).toList ++ rest)) =
      .plain (lead ++ "@font-face \x7b".toList) :: bodySegments (bodyText rule) ++
        .plain ['\x7d'] :: segmentsFrom fuel ('\n' :: rest) := by
  rw [segmentsFrom, nextFace?_rule h hlead]
  rfl

theorem segmentsFrom_end (fuel : Nat) : segmentsFrom fuel ['\n'] = [.plain ['\n']] := by
  cases fuel with
  | zero => rfl
  | succ fuel =>
      have hnone : nextFace? ['\n'] = none := by decide
      rw [segmentsFrom, hnone]

/-- **Renaming the segments of rendered rules is rendering the renamed rules.** -/
theorem segmentsFrom_rules {rule : List Declaration} {rules : List (List Declaration)}
    (hrules : ∀ one ∈ rule :: rules, IsWellFormedRule one) (lead : List Char)
    (hlead : '@' ∉ lead) (name : List Char) {fuel : Nat} (hfuel : rules.length < fuel) :
    (segmentsFrom fuel (lead ++ ((renderFace rule).toList ++ rulesText rules))).flatMap
          (Segment.renamed name) =
        lead ++ ((renderFace (rule.map (withFamily (String.ofList name)))).toList ++
          rulesText (rules.map (List.map (withFamily (String.ofList name))))) ∧
      (segmentsFrom fuel (lead ++ ((renderFace rule).toList ++ rulesText rules))).filterMap
          Segment.family? = (rule :: rules).flatMap familiesOf := by
  induction rules generalizing rule lead fuel with
  | nil =>
      obtain ⟨fuel, rfl⟩ := Nat.exists_eq_succ_of_ne_zero (Nat.ne_of_gt hfuel)
      have hrule := hrules rule List.mem_cons_self
      obtain ⟨hrenamed, hfamilies⟩ := bodySegments_bodyText hrule name
      rw [segmentsFrom_rule hrule hlead, rulesText, List.flatMap_nil, segmentsFrom_end]
      constructor
      · simp [hrenamed, toList_renderFace, rulesText, Segment.renamed]
      · simp [hfamilies, List.filterMap_cons, Segment.family?]
  | cons second others ih =>
      obtain ⟨fuel, rfl⟩ := Nat.exists_eq_succ_of_ne_zero (Nat.ne_of_gt (Nat.zero_lt_of_lt hfuel))
      rw [List.length_cons] at hfuel
      have hrule := hrules rule List.mem_cons_self
      have hblank : '\n' :: rulesText (second :: others) =
          ['\n', '\n'] ++ ((renderFace second).toList ++ rulesText others) := by
        simp [rulesText]
      obtain ⟨hrenamed, hfamilies⟩ := bodySegments_bodyText hrule name
      obtain ⟨hlater, hothers⟩ := ih (fun one hone => hrules one (List.mem_cons_of_mem _ hone))
        ['\n', '\n'] (by decide) (Nat.lt_of_succ_lt_succ hfuel)
      rw [← hblank] at hlater hothers
      rw [segmentsFrom_rule hrule hlead]
      constructor
      · rw [List.flatMap_append, List.flatMap_cons, List.flatMap_cons, hrenamed, hlater]
        simp [toList_renderFace, rulesText, Segment.renamed]
      · rw [List.filterMap_append, List.filterMap_cons, List.filterMap_cons, hothers]
        simp [hfamilies, Segment.family?]

/-! ## Stylesheets -/

theorem toList_renderFaces (rule : List Declaration) (rules : List (List Declaration)) :
    (renderFaces (rule :: rules)).toList = (renderFace rule).toList ++ rulesText rules := by
  unfold renderFaces
  rw [String.toList_intercalate, List.map_cons, List.map_cons, intercalate_eq_flatMap]
  simp [rulesText, List.flatMap_map]

theorem length_le_rulesText (rules : List (List Declaration)) :
    rules.length ≤ (rulesText rules).length := by
  induction rules with
  | nil => exact Nat.zero_le _
  | cons first rest ih =>
      rw [rulesText, List.flatMap_cons, List.length_append, List.length_cons, List.length_cons]
      change rest.length + 1 ≤ _ + (rulesText rest).length
      omega

/-- The segments of rendered rules. -/
theorem segments_renderFaces {rules : List (List Declaration)}
    (hrules : ∀ rule ∈ rules, IsWellFormedRule rule) (name : List Char) :
    (segments (renderFaces rules).toList).flatMap (Segment.renamed name) =
        (renderFaces (rules.map (List.map (withFamily (String.ofList name))))).toList ∧
      (segments (renderFaces rules).toList).filterMap Segment.family? =
        rules.flatMap familiesOf := by
  cases rules with
  | nil => exact ⟨rfl, rfl⟩
  | cons rule rules =>
      have hfuel : rules.length < (renderFaces (rule :: rules)).toList.length + 1 := by
        have hlength := length_le_rulesText rules
        rw [toList_renderFaces, List.length_append]
        omega
      have hall := segmentsFrom_rules hrules [] List.not_mem_nil name hfuel
      rw [List.nil_append, ← toList_renderFaces, List.nil_append, ← toList_renderFaces] at hall
      exact hall

/-- The family that rules name first. -/
theorem head?_familiesOf (rules : List (List Declaration)) :
    (rules.flatMap familiesOf).head? = (firstFamily? rules).map String.toList := by
  have hfamilies : rules.flatMap familiesOf = familiesOf rules.flatten := by
    simp only [familiesOf, List.flatMap, List.filter_flatten, List.map_flatten, List.map_map]
    rfl
  rw [hfamilies, familiesOf, List.head?_map, List.head?_filter, firstFamily?, Option.map_map]
  rfl

/-- **Renaming rendered rules is rendering renamed ones.**  It fails exactly if no rule names a
family; otherwise every family is replaced by the name that is made of the first one without its
quotes, and all else stays as it is. -/
theorem rendered_families_are_renamed (rename : List Char → List Char)
    {rules : List (List Declaration)} (hrules : ∀ rule ∈ rules, IsWellFormedRule rule) :
    (renameFamilies rename (renderFaces rules).toList = none ↔
        ∀ rule ∈ rules, ∀ declaration ∈ rule, declaration.property ≠ "font-family") ∧
      ∀ family, firstFamily? rules = some family →
        renameFamilies rename (renderFaces rules).toList =
          some ((renderFaces (rules.map (List.map
            (withFamily (String.ofList (rename (unquoted family.toList))))))).toList,
              unquoted family.toList) := by
  have hhead : ((segments (renderFaces rules).toList).filterMap Segment.family?).head? =
      (firstFamily? rules).map String.toList := by
    rw [(segments_renderFaces hrules []).2, head?_familiesOf]
  constructor
  · have hnone : firstFamily? rules = none ↔
        ∀ rule ∈ rules, ∀ declaration ∈ rule, declaration.property ≠ "font-family" := by
      rw [firstFamily?, Option.map_eq_none_iff, List.find?_eq_none]
      simp only [namesFamily, beq_iff_eq, List.mem_flatten]
      constructor
      · intro h rule hrule declaration hmem
        exact h declaration ⟨rule, hrule, hmem⟩
      · rintro h declaration ⟨rule, hrule, hmem⟩
        exact h rule hrule declaration hmem
    rw [renameFamilies, hhead, ← hnone]
    cases firstFamily? rules <;> simp
  · intro family hfamily
    rw [renameFamilies, hhead, hfamily, ← (segments_renderFaces hrules _).1]
    rfl

/-- A rule with quotes of both kinds, marks between them, and a name that is not spelled in plain
letters. -/
def quotedRule : List Declaration :=
  [⟨"src", "';\x7d'"⟩, ⟨"font-family", "\"é: @font-face\""⟩]

theorem isSealed_of_forall (h : ∀ c ∈ text, isQuote c = false ∧ c ≠ ';' ∧ c ≠ '\x7d') :
    IsSealed text := by
  induction text with
  | nil => exact .nil
  | cons c rest ih =>
      obtain ⟨hquote, hsemicolon, hbrace⟩ := h c List.mem_cons_self
      exact .plain hquote hsemicolon hbrace (ih fun d hd => h d (List.mem_cons_of_mem _ hd))

theorem isWellFormedRule_quotedRule : IsWellFormedRule quotedRule := by
  refine ⟨fun declaration hmem => ?_, by decide⟩
  rcases List.mem_pair.mp hmem with rfl | rfl
  · refine ⟨List.forall_iff_forall_mem.mp (by decide), ?_, by decide, by decide⟩
    exact IsSealed.quotation '\'' [';', '\x7d'] (by decide) (by decide) .nil
  · refine ⟨List.forall_iff_forall_mem.mp (by decide), ?_, by decide, by decide⟩
    exact IsSealed.quotation '"' "é: @font-face".toList (by decide) (by decide) .nil

/-- The family of the quoted rule is replaced in it and in another one. -/
theorem quotedRule_is_renamed :
    (∀ rule ∈ [quotedRule, [⟨"font-family", "B"⟩]], IsWellFormedRule rule) ∧
      renameFamilies (fun family => '_' :: family)
          (renderFaces [quotedRule, [⟨"font-family", "B"⟩]]).toList =
        some ((renderFaces [[⟨"src", "';\x7d'"⟩, ⟨"font-family", "_é: @font-face"⟩],
          [⟨"font-family", "_é: @font-face"⟩]]).toList, "é: @font-face".toList) := by
  have hrules : ∀ rule ∈ [quotedRule, [⟨"font-family", "B"⟩]], IsWellFormedRule rule := by
    intro rule hrule
    rcases List.mem_pair.mp hrule with rfl | rfl
    · exact isWellFormedRule_quotedRule
    · refine ⟨fun declaration hmem => ?_, by decide⟩
      rw [List.mem_singleton.mp hmem]
      exact ⟨List.forall_iff_forall_mem.mp (by decide),
        isSealed_of_forall (List.forall_iff_forall_mem.mp (by decide)), by decide, by decide⟩
  refine ⟨hrules, ?_⟩
  exact (rendered_families_are_renamed (fun family => '_' :: family) hrules).2
    "\"é: @font-face\"" (by decide)

end Css

end FontHosting
