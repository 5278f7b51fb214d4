import FontHosting.Proofs.Css.Renaming

/-!
# Renamed stylesheets are cut in the same places

A family is replaced by a name of another length, with other quotes, and the stylesheet is cut
again.  The name is a quotation (`IsQuotation`), while the value that it replaces may be
anything: quoted, with quotes in the middle of it, or with a quote that nothing closes.  Three
obstacles have to be removed.

* **Quotes.**  What is cut behind the value depends on the quotation that is open there.  A name
  leaves none open, and neither does a value with something behind it, since only the end of the
  stylesheet ends a declaration between quotes.  So the search goes on behind the name as it
  did behind the value, or there are nothing but blanks left (`IsFamilyCut`).
* **Marks.**  Semicolons, braces and keywords in a name are between its quotes, so none of them
  cuts, and those in front of a value are where they were: a cut depends on what is in front of
  it alone (`splitUnquoted_eq_iff`, `nextFace?_eq`).
* **Fuel.**  A renamed stylesheet has another length, and so the recursions start with other
  fuel.  The inductions go over the fuel of the first cut and leave the other free, as long as
  it is more than there are characters.

With them cutting a renamed stylesheet gives the renamed segments (`segments_renamed`).
-/

namespace FontHosting

namespace Css

/-! ## Quotations -/

/-- The quotation that is open behind a text. -/
def quoteBehind (quote : Option Char) (text : List Char) : Option Char :=
  text.foldl quoteAfter quote

@[simp] theorem quoteBehind_nil (quote : Option Char) : quoteBehind quote [] = quote := rfl

@[simp] theorem quoteBehind_cons (quote : Option Char) (c : Char) (text : List Char) :
    quoteBehind quote (c :: text) = quoteBehind (quoteAfter quote c) text := rfl

@[simp] theorem quoteBehind_append (quote : Option Char) (first second : List Char) :
    quoteBehind quote (first ++ second) = quoteBehind (quoteBehind quote first) second :=
  List.foldl_append

/-- A text without quotes opens and closes nothing. -/
theorem quoteBehind_of_forall {quote : Option Char} (hquote : ∀ mark ∈ quote, isQuote mark = true)
    {text : List Char} (h : ∀ c ∈ text, isQuote c = false) : quoteBehind quote text = quote := by
  induction text with
  | nil => rfl
  | cons c rest ih =>
      have hc := h c List.mem_cons_self
      have hkept : quoteAfter quote c = quote := by
        cases quote with
        | none => simp [quoteAfter, hc]
        | some mark =>
            have hne : c ≠ mark := by
              rintro rfl
              rw [hquote c rfl] at hc
              cases hc
            simp [quoteAfter, hne]
      rw [quoteBehind_cons, hkept, ih fun d hd => h d (List.mem_cons_of_mem _ hd)]

/-- What is open behind a text was opened by a quote. -/
theorem isQuote_of_quoteBehind {quote : Option Char} (hquote : ∀ mark ∈ quote, isQuote mark = true)
    (text : List Char) : ∀ mark ∈ quoteBehind quote text, isQuote mark = true := by
  induction text generalizing quote with
  | nil => exact hquote
  | cons c rest ih =>
      refine ih ?_
      unfold quoteAfter
      grind

/-! ## Going past a text -/

/-- The search for a mark outside of quotes goes past a text. -/
def GoesPast (mark : Char) : Option Char → List Char → Prop
  | _, [] => True
  | quote, c :: rest => ¬ (quote = none ∧ c = mark) ∧ GoesPast mark (quoteAfter quote c) rest

theorem goesPast_append {mark : Char} {quote : Option Char} {first second : List Char} :
    GoesPast mark quote (first ++ second) ↔
      GoesPast mark quote first ∧ GoesPast mark (quoteBehind quote first) second := by
  induction first generalizing quote with
  | nil => simp [GoesPast]
  | cons c rest ih => simp only [List.cons_append, GoesPast, ih, quoteBehind_cons, and_assoc]

theorem goesPast_of_notMem {mark : Char} {quote : Option Char} {text : List Char}
    (h : mark ∉ text) : GoesPast mark quote text := by
  induction text generalizing quote with
  | nil => trivial
  | cons c rest ih =>
      refine ⟨fun hstop => h (hstop.2 ▸ List.mem_cons_self), ih fun hmem => ?_⟩
      exact h (List.mem_cons_of_mem _ hmem)

/-- **A cut depends on what is in front of it alone.** -/
theorem splitUnquoted_eq_iff {mark : Char} {quote : Option Char} {text before after : List Char} :
    splitUnquoted mark quote text = (before, after) ↔
      text = before ++ after ∧ GoesPast mark quote before ∧
        (after = [] ∨ quoteBehind quote before = none ∧ ∃ rest, after = mark :: rest) := by
  induction text generalizing quote before with
  | nil =>
      rw [splitUnquoted, Prod.mk.injEq]
      constructor
      · rintro ⟨rfl, rfl⟩
        exact ⟨rfl, trivial, Or.inl rfl⟩
      · rintro ⟨hnil, -, -⟩
        obtain ⟨rfl, rfl⟩ := List.append_eq_nil_iff.mp hnil.symm
        exact ⟨rfl, rfl⟩
  | cons c rest ih =>
      rw [splitUnquoted]
      by_cases hstop : quote = none ∧ c = mark
      · rw [if_pos hstop, Prod.mk.injEq]
        constructor
        · rintro ⟨rfl, rfl⟩
          exact ⟨rfl, trivial, Or.inr ⟨hstop.1, rest, by rw [hstop.2]⟩⟩
        · rintro ⟨htext, hpast, -⟩
          cases before with
          | nil => exact ⟨rfl, htext⟩
          | cons d others =>
              obtain ⟨rfl, -⟩ := List.cons.inj htext
              exact absurd hstop hpast.1
      · rw [if_neg hstop]
        cases before with
        | nil =>
            constructor
            · intro h
              cases (Prod.mk.inj h).1
            · rintro ⟨rfl, -, hcons | ⟨hquote, others, hcons⟩⟩
              · cases hcons
              · exact absurd ⟨hquote, (List.cons.inj hcons).1⟩ hstop
        | cons d others =>
            have hrest := @ih (quoteAfter quote c) others
            simp only [Prod.ext_iff, List.cons.injEq, List.cons_append, GoesPast,
              quoteBehind_cons] at hrest ⊢
            constructor
            · rintro ⟨⟨rfl, hothers⟩, hafter⟩
              obtain ⟨htext, hpast, hend⟩ := hrest.mp ⟨hothers, hafter⟩
              exact ⟨⟨rfl, htext⟩, ⟨hstop, hpast⟩, hend⟩
            · rintro ⟨⟨rfl, htext⟩, ⟨-, hpast⟩, hend⟩
              obtain ⟨hothers, hafter⟩ := hrest.mpr ⟨htext, hpast, hend⟩
              exact ⟨⟨rfl, hothers⟩, hafter⟩

/-! ## Names and values -/

/-- A text between single quotes. -/
def IsQuotation (name : List Char) : Prop :=
  ∃ inner, '\'' ∉ inner ∧ name = '\'' :: (inner ++ ['\''])

section
variable {name : List Char}

theorem IsQuotation.isSolid (h : IsQuotation name) : Text.IsSolid name := by
  obtain ⟨inner, -, rfl⟩ := h
  exact ⟨⟨'\'', inner ++ ['\''], rfl, by decide⟩, ⟨'\'' :: inner, '\'', rfl, by decide⟩⟩

/-- Every mark but the quote is passed in a quotation, which leaves nothing open. -/
theorem IsQuotation.goesPast (h : IsQuotation name) (mark : Char) (hmark : mark ≠ '\'') :
    GoesPast mark none name ∧ quoteBehind none name = none := by
  obtain ⟨inner, hinner, rfl⟩ := h
  have hsplit : splitUnquoted mark none ('\'' :: (inner ++ ['\''])) =
      ('\'' :: (inner ++ ['\'']), []) := by
    rw [splitUnquoted, if_neg (fun hstop => hmark hstop.2.symm)]
    simp [quoteAfter, isQuote, splitUnquoted_quotation hinner [], splitUnquoted]
  refine ⟨(splitUnquoted_eq_iff.mp hsplit).2.1, ?_⟩
  have hopen : quoteBehind (some '\'') inner = some '\'' := by
    clear hsplit
    induction inner with
    | nil => rfl
    | cons c rest ih =>
        have hne : c ≠ '\'' := fun hc => hinner (hc ▸ List.mem_cons_self)
        have hkept : quoteAfter (some '\'') c = some '\'' := by simp [quoteAfter, hne]
        rw [quoteBehind_cons, hkept, ih fun hmem => hinner (List.mem_cons_of_mem _ hmem)]
  have hstart : quoteAfter none '\'' = some '\'' := by decide
  rw [quoteBehind_cons, hstart, quoteBehind_append, hopen]
  decide

end

/-- A character that neither quotes nor cuts. -/
def IsQuiet (c : Char) : Prop := isQuote c = false ∧ c ≠ ';' ∧ c ≠ '\x7d'

instance (c : Char) : Decidable (IsQuiet c) :=
  inferInstanceAs (Decidable (isQuote c = false ∧ c ≠ ';' ∧ c ≠ '\x7d'))

theorem isQuiet_of_isBlank {c : Char} (h : Text.isBlank c = true) : IsQuiet c := by
  refine ⟨?_, ?_, ?_⟩
  · rw [← Bool.not_eq_true]
    intro hquote
    rw [isQuote, Bool.or_eq_true, beq_iff_eq, beq_iff_eq] at hquote
    rcases hquote with rfl | rfl <;> exact absurd h (by decide)
  · rintro rfl
    exact absurd h (by decide)
  · rintro rfl
    exact absurd h (by decide)

/-- The parts of a declaration of a family.  What stands in front of the value is the property,
a colon and blanks, and behind it there are blanks. -/
structure IsFamilyDeclaration (declaration before value after : List Char) : Prop where
  text : declaration = before ++ (value ++ after)
  front : ∃ property blanks, before = property ++ ':' :: blanks ∧ ':' ∉ property ∧
    Text.trim property = "font-family".toList ∧ ∀ c ∈ blanks, Text.isBlank c = true
  solid : Text.IsSolid value
  back : ∀ c ∈ after, Text.isBlank c = true

theorem familyIn?_eq_some_iff {declaration before value after : List Char} :
    familyIn? declaration = some (before, value, after) ↔
      IsFamilyDeclaration declaration before value after := by
  constructor
  · intro h
    unfold familyIn? at h
    dsimp only at h
    split at h
    · cases h
    rename_i colon rest hrest
    obtain ⟨hdeclaration, hcolon⟩ := eq_of_span
      (show declaration.span (· != ':') = ((declaration.span (· != ':')).1, colon :: rest) from
        Prod.ext rfl hrest)
    obtain rfl : colon = ':' := by simpa using hcolon
    split at h
    · rename_i hproperty
      obtain ⟨hstart, hblanks⟩ := Text.exists_blanks_trimStart rest
      obtain ⟨hend, hspaces⟩ := Text.exists_blanks_trimEnd (Text.trimStart rest)
      split at h
      · cases h
      rename_i hfilled
      obtain ⟨rfl, htail⟩ := Prod.mk.inj (Option.some_inj.mp h)
      obtain ⟨rfl, rfl⟩ := Prod.mk.inj htail
      refine ⟨?_, ⟨_, _, rfl, ?_, hproperty, hblanks⟩, ?_, hspaces⟩
      · rw [hend, List.append_assoc, List.cons_append, hstart]
        exact hdeclaration
      · rw [List.span_eq_takeWhile_dropWhile]
        intro hmem
        exact absurd (List.mem_takeWhile_imp hmem) (by decide)
      · exact Text.isSolid_trim (mt List.isEmpty_iff.mpr hfilled)
    · cases h
  · rintro ⟨rfl, ⟨property, blanks, rfl, hcolon, hproperty, hblanks⟩, hsolid, hback⟩
    have hspan : (property ++ ':' :: blanks ++ (value ++ after)).span (· != ':') =
        (property, ':' :: (blanks ++ (value ++ after))) := by
      rw [List.append_assoc, List.cons_append]
      refine Text.span_append_cons property (fun c hc => ?_) (by decide) _
      exact bne_iff_ne.mpr fun heq => hcolon (heq ▸ hc)
    have hstart := Text.trimStart_append hblanks (hsolid.starts_append after)
    have hend := Text.trimEnd_append hsolid.ends hback
    have hfilled : value.isEmpty = false := by
      rw [← Bool.not_eq_true, List.isEmpty_iff]
      exact hsolid.ne_nil
    unfold familyIn?
    rw [hspan]
    simp [hproperty, hstart, hend, hfilled]

section
variable {declaration before value after : List Char}

/-- Nothing in front of a value quotes or cuts. -/
theorem IsFamilyDeclaration.isQuiet (h : IsFamilyDeclaration declaration before value after) :
    ∀ c ∈ before, IsQuiet c := by
  obtain ⟨property, blanks, rfl, -, hproperty, hblanks⟩ := h.front
  intro c hc
  rcases List.mem_append.mp hc with hmem | hmem
  · by_cases hblank : Text.isBlank c = true
    · exact isQuiet_of_isBlank hblank
    · have hname := Text.mem_trim_of_not_isBlank hmem (by simpa using hblank)
      have hquiet : ∀ c ∈ "font-family".toList, IsQuiet c :=
        List.forall_iff_forall_mem.mp (by decide)
      rw [hproperty] at hname
      exact hquiet c hname
  · rcases List.mem_cons.mp hmem with rfl | hblank
    · decide
    · exact isQuiet_of_isBlank (hblanks c hblank)

/-- A family may be replaced by whatever is solid. -/
theorem IsFamilyDeclaration.renamed (h : IsFamilyDeclaration declaration before value after)
    {name : List Char} (hname : Text.IsSolid name) :
    IsFamilyDeclaration (before ++ (name ++ after)) before name after :=
  ⟨rfl, h.front, hname, h.back⟩

end

/-- Neither the end of a declaration nor that of a body is in a quiet text. -/
theorem goesPast_of_forall {text : List Char} (h : ∀ c ∈ text, IsQuiet c) {mark : Char}
    (hmark : mark = ';' ∨ mark = '\x7d') (quote : Option Char) : GoesPast mark quote text := by
  refine goesPast_of_notMem fun hmem => ?_
  obtain ⟨-, hsemicolon, hbrace⟩ := h mark hmem
  rcases hmark with rfl | rfl
  · exact hsemicolon rfl
  · exact hbrace rfl

/-! ## Bodies -/

/-- How quotes stand around a value in a body.  Nothing is open in front of it; behind it nothing
is open either, unless there are only blanks left. -/
structure IsFamilyCut (before value after : List Char) : Prop where
  front : quoteBehind none before = none
  back : quoteBehind none value = none ∨ ∀ c ∈ after, Text.isBlank c = true

/-- A text that ends a declaration: nothing, or a semicolon outside of quotes. -/
def EndsDeclaration (declaration rest : List Char) : Prop :=
  rest = [] ∨ quoteBehind none declaration = none ∧ ∃ others, rest = ';' :: others

section
variable {name declaration before value after rest : List Char}

theorem IsFamilyDeclaration.quoteBehind_front
    (h : IsFamilyDeclaration declaration before value after) : quoteBehind none before = none :=
  quoteBehind_of_forall (by simp) fun c hc => (h.isQuiet c hc).1

/-- The blanks behind a value leave open what is open there. -/
theorem IsFamilyDeclaration.quoteBehind_back
    (h : IsFamilyDeclaration declaration before value after) (text : List Char) :
    quoteBehind none (text ++ after) = quoteBehind none text := by
  rw [quoteBehind_append]
  exact quoteBehind_of_forall (isQuote_of_quoteBehind (by simp) text) fun c hc =>
    (isQuiet_of_isBlank (h.back c hc)).1

theorem IsFamilyDeclaration.isFamilyCut (h : IsFamilyDeclaration declaration before value after)
    (hend : EndsDeclaration declaration rest) : IsFamilyCut before value (after ++ rest) := by
  refine ⟨h.quoteBehind_front, ?_⟩
  rcases hend with rfl | ⟨hclosed, -⟩
  · rw [List.append_nil]
    exact Or.inr h.back
  · rw [h.text, ← List.append_assoc, h.quoteBehind_back, quoteBehind_append,
      h.quoteBehind_front] at hclosed
    exact Or.inl hclosed

/-- A declaration with another name ends where it ended before. -/
theorem IsFamilyDeclaration.splitUnquoted_renamed
    (h : IsFamilyDeclaration declaration before value after)
    (hend : EndsDeclaration declaration rest) (hname : IsQuotation name) :
    splitUnquoted ';' none (before ++ (name ++ (after ++ rest))) =
      (before ++ (name ++ after), rest) := by
  obtain ⟨hpassed, hquoted⟩ := hname.goesPast ';' (by decide)
  have hafter : ∀ c ∈ after, IsQuiet c := fun c hc => isQuiet_of_isBlank (h.back c hc)
  refine splitUnquoted_eq_iff.mpr ⟨by simp only [List.append_assoc], ?_, ?_⟩
  · refine goesPast_append.mpr ⟨goesPast_of_forall h.isQuiet (Or.inl rfl) _, ?_⟩
    rw [h.quoteBehind_front]
    exact goesPast_append.mpr ⟨hpassed, goesPast_of_forall hafter (Or.inl rfl) _⟩
  · refine hend.imp_right fun ⟨_, hrest⟩ => ⟨?_, hrest⟩
    rw [← List.append_assoc, h.quoteBehind_back, quoteBehind_append, h.quoteBehind_front, hquoted]

/-- **A body with another name is cut around the name**, in the same places in front of it and
behind it.  The induction is over the fuel of the first cut, and declarations without a family are
passed in both. -/
theorem splitBody_renamed (hname : IsQuotation name) {passed body : List Char} {fuel : Nat}
    (h : splitBody passed fuel body = some (before, value, after)) :
    ∃ front, before = passed ++ front ∧ body = front ++ (value ++ after) ∧
      IsFamilyCut front value after ∧
      ∀ other, (front ++ (name ++ after)).length < other →
        splitBody passed other (front ++ (name ++ after)) = some (before, name, after) := by
  induction fuel generalizing passed body with
  | zero => cases h
  | succ fuel ih =>
      rw [splitBody] at h
      generalize hcut : splitUnquoted ';' none body = parts at h
      obtain ⟨declaration, rest⟩ := parts
      obtain ⟨rfl, hpast, hend⟩ := splitUnquoted_eq_iff.mp hcut
      dsimp only at h
      cases hfamily : familyIn? declaration with
      | some found =>
          obtain ⟨front, found, back⟩ := found
          rw [hfamily] at h
          obtain ⟨rfl, htail⟩ := Prod.mk.inj (Option.some_inj.mp h)
          obtain ⟨rfl, rfl⟩ := Prod.mk.inj htail
          have hparts := familyIn?_eq_some_iff.mp hfamily
          refine ⟨front, rfl, ?_, hparts.isFamilyCut hend, fun other hfuel => ?_⟩
          · rw [hparts.text]
            simp only [List.append_assoc]
          · obtain ⟨other, rfl⟩ :=
              Nat.exists_eq_succ_of_ne_zero (Nat.ne_of_gt (Nat.zero_lt_of_lt hfuel))
            rw [splitBody, hparts.splitUnquoted_renamed hend hname]
            dsimp only
            rw [familyIn?_eq_some_iff.mpr (hparts.renamed hname.isSolid)]
      | none =>
          rw [hfamily] at h
          dsimp only at h
          rcases hend with rfl | ⟨hclosed, rest, rfl⟩
          · cases h
          · obtain ⟨front, rfl, rfl, hquotes, hrenamed⟩ := ih h
            refine ⟨declaration ++ ';' :: front, ?_, ?_, ⟨?_, hquotes.back⟩, fun other hfuel => ?_⟩
            · simp only [List.append_assoc, List.cons_append, List.nil_append]
            · simp only [List.append_assoc, List.cons_append]
            · have hsemicolon : quoteAfter none ';' = none := by decide
              rw [quoteBehind_append, hclosed, quoteBehind_cons, hsemicolon, hquotes.front]
            · obtain ⟨other, rfl⟩ :=
                Nat.exists_eq_succ_of_ne_zero (Nat.ne_of_gt (Nat.zero_lt_of_lt hfuel))
              -- The declaration in front is cut off as before, and is still not the family's.
              have hnew : splitUnquoted ';' none
                  (declaration ++ ';' :: (front ++ (name ++ after))) =
                    (declaration, ';' :: (front ++ (name ++ after))) :=
                splitUnquoted_eq_iff.mpr ⟨rfl, hpast, Or.inr ⟨hclosed, _, rfl⟩⟩
              rw [List.append_assoc, List.cons_append] at hfuel ⊢
              rw [splitBody, hnew]
              dsimp only
              rw [hfamily]
              refine hrenamed other ?_
              simp only [List.length_append, List.length_cons] at hfuel ⊢
              omega

/-- The value of a family is solid. -/
theorem isSolid_of_splitBody {passed body : List Char} {fuel : Nat}
    (h : splitBody passed fuel body = some (before, value, after)) : Text.IsSolid value := by
  induction fuel generalizing passed body with
  | zero => cases h
  | succ fuel ih =>
      rw [splitBody] at h
      generalize splitUnquoted ';' none body = parts at h
      obtain ⟨declaration, rest⟩ := parts
      dsimp only at h
      cases hfamily : familyIn? declaration with
      | some found =>
          obtain ⟨front, found, back⟩ := found
          rw [hfamily] at h
          obtain ⟨-, htail⟩ := Prod.mk.inj (Option.some_inj.mp h)
          obtain ⟨rfl, -⟩ := Prod.mk.inj htail
          exact (familyIn?_eq_some_iff.mp hfamily).solid
      | none =>
          rw [hfamily] at h
          cases rest with
          | nil => cases h
          | cons mark others => exact ih h

/-- A segment with another family in place of its own. -/
def Segment.named (name : List Char) : Segment → Segment
  | .plain text => .plain text
  | .family _ => .family name

/-- A body with another name in place of its family. -/
def renamedBody (name body : List Char) : List Char :=
  (bodySegments body).flatMap (Segment.renamed name)

/-- **Cutting a renamed body gives its renamed segments.** -/
theorem bodySegments_renamedBody (hname : IsQuotation name) (body : List Char) :
    bodySegments (renamedBody name body) = (bodySegments body).map (Segment.named name) := by
  unfold renamedBody
  cases hsplit : splitBody [] (body.length + 1) body with
  | none =>
      have hplain : bodySegments body = [.plain body] := by rw [bodySegments, hsplit]
      simp [hplain, Segment.renamed, Segment.named]
  | some parts =>
      obtain ⟨before, value, after⟩ := parts
      obtain ⟨_, rfl, rfl, -, hrenamed⟩ := splitBody_renamed hname hsplit
      have hcut : bodySegments (before ++ (value ++ after)) =
          [.plain before, .family value, .plain after] := by
        rw [bodySegments, hsplit]
      have hagain := hrenamed _ (Nat.lt_succ_self _)
      rw [hcut]
      simp only [List.flatMap_cons, List.flatMap_nil, List.append_nil, Segment.renamed,
        List.map_cons, List.map_nil, Segment.named]
      rw [bodySegments, hagain]

/-- **A body is left with another name as it was left before**: no brace closes it earlier, and
no quotation is open behind it that was not. -/
theorem goesPast_renamedBody (hname : IsQuotation name) {body : List Char}
    (h : GoesPast '\x7d' none body) :
    GoesPast '\x7d' none (renamedBody name body) ∧
      (quoteBehind none body = none → quoteBehind none (renamedBody name body) = none) := by
  unfold renamedBody bodySegments
  cases hsplit : splitBody [] (body.length + 1) body with
  | none => simpa [Segment.renamed] using h
  | some parts =>
      obtain ⟨before, value, after⟩ := parts
      obtain ⟨_, rfl, rfl, hquotes, -⟩ := splitBody_renamed hname hsplit
      obtain ⟨hpassed, hquoted⟩ := hname.goesPast '\x7d' (by decide)
      obtain ⟨hfront, hrest⟩ := goesPast_append.mp h
      rw [hquotes.front] at hrest
      obtain ⟨-, hafter⟩ := goesPast_append.mp hrest
      simp only [List.flatMap_cons, List.flatMap_nil, List.append_nil, Segment.renamed,
        goesPast_append, quoteBehind_append, hquotes.front, hquoted]
      rcases hquotes.back with hclosed | hblanks
      · rw [hclosed] at hafter ⊢
        exact ⟨⟨hfront, hpassed, hafter⟩, id⟩
      · have hquiet : ∀ c ∈ after, IsQuiet c := fun c hc => isQuiet_of_isBlank (hblanks c hc)
        refine ⟨⟨hfront, hpassed, goesPast_of_forall hquiet (Or.inr rfl) _⟩, fun _ => ?_⟩
        exact quoteBehind_of_forall (by simp) fun c hc => (hquiet c hc).1

end

/-! ## Rules -/

/-- **What stands in front of a body is found whatever stands behind it.** -/
theorem nextFace?_eq {css before body after : List Char}
    (h : nextFace? css = some (before, body, after)) :
    css = before ++ (body ++ after) ∧ splitUnquoted '\x7d' none (body ++ after) = (body, after) ∧
      ∀ text, nextFace? (before ++ text) =
        some (before, splitUnquoted '\x7d' none text) := by
  unfold nextFace? at h
  obtain ⟨start, hstart, h⟩ := Option.bind_eq_some_iff.mp h
  dsimp only at h
  split at h
  · cases h
  rename_i brace rest hrest
  obtain ⟨rfl, htail⟩ := Prod.mk.inj (Option.some_inj.mp h)
  obtain ⟨rfl, rfl⟩ := Prod.mk.inj htail
  generalize hopening : ((css.drop start).span (· != '\x7b')).1 = opening at *
  have hspan : (css.drop start).span (· != '\x7b') = (opening, brace :: rest) :=
    Prod.ext hopening hrest
  obtain ⟨hdrop, hbrace⟩ := eq_of_span hspan
  obtain rfl : brace = '\x7b' := by simpa using hbrace
  have hplain : ∀ c ∈ opening, (c != '\x7b') = true := by
    rw [← hopening, List.span_eq_takeWhile_dropWhile]
    intro c hc
    exact List.mem_takeWhile_imp (p := (· != '\x7b')) hc
  have hsplit := splitUnquoted_append '\x7d' none rest
  have htext : css = css.take start ++ (opening ++ '\x7b' :: rest) := by
    rw [← hdrop, List.take_append_drop]
  refine ⟨?_, by rw [hsplit], fun text => ?_⟩
  · rw [hsplit]
    simpa only [List.append_assoc, List.singleton_append] using htext
  · have hfits := Text.add_length_le_of_find? hstart
    have hlead : (css.take start).length = start := by
      rw [List.length_take]
      omega
    -- The keyword has no brace, so it ends in front of the one that opens the body.
    have hkeyword : faceKeyword <+: opening := by
      have hprefix := Text.prefix_of_find? hstart
      rw [hdrop] at hprefix
      exact (Text.prefix_append_cons (by decide)).mp hprefix
    have hfound : Text.find? faceKeyword (css.take start ++ opening) = some start := by
      rw [htext, ← List.append_assoc] at hstart
      refine Text.find?_of_append hstart ?_
      have hlength := hkeyword.length_le
      rw [List.length_append]
      omega
    have hagain := Text.find?_append hfound ('\x7b' :: text)
    rw [List.append_assoc] at hagain
    have hnew : css.take start ++ opening ++ ['\x7b'] ++ text =
        css.take start ++ (opening ++ '\x7b' :: text) := by
      simp only [List.append_assoc, List.singleton_append]
    unfold nextFace?
    rw [hnew, hagain, Option.bind_eq_bind, Option.bind_some, List.drop_left' hlead,
      List.take_left' hlead, Text.span_append_cons opening hplain (by decide)]
    rfl

/-! ## Stylesheets -/

/-- Putting the segments together again gives the stylesheet back. -/
theorem flatMap_bodySegments (body : List Char) :
    (bodySegments body).flatMap Segment.text = body := by
  unfold bodySegments
  cases hsplit : splitBody [] (body.length + 1) body with
  | none => simp [Segment.text]
  | some parts =>
      obtain ⟨before, value, after⟩ := parts
      have hcut := (splitBody_eq_some (Or.inl rfl) hsplit).text
      simp only [List.flatMap_cons, List.flatMap_nil, List.append_nil, Segment.text]
      exact hcut.symm

theorem segmentsFrom_of_none {css : List Char} (h : nextFace? css = none) (fuel : Nat) :
    segmentsFrom fuel css = [.plain css] := by
  cases fuel with
  | zero => rfl
  | succ fuel => rw [segmentsFrom, h]

theorem segmentsFrom_of_some {css before body after : List Char}
    (h : nextFace? css = some (before, body, after)) (fuel : Nat) :
    segmentsFrom (fuel + 1) css =
      .plain before :: bodySegments body ++
        .plain (after.take 1) :: segmentsFrom fuel (after.drop 1) := by
  rw [segmentsFrom, h]

theorem flatMap_segmentsFrom (fuel : Nat) (css : List Char) :
    (segmentsFrom fuel css).flatMap Segment.text = css := by
  induction fuel generalizing css with
  | zero => simp [segmentsFrom, Segment.text]
  | succ fuel ih =>
      cases hface : nextFace? css with
      | none => simp [segmentsFrom_of_none hface, Segment.text]
      | some parts =>
          obtain ⟨before, body, after⟩ := parts
          rw [segmentsFrom_of_some hface]
          simp only [List.flatMap_append, List.flatMap_cons, flatMap_bodySegments, ih,
            Segment.text, List.append_assoc, List.take_append_drop]
          exact (nextFace?_eq hface).1.symm

theorem flatMap_segments (css : List Char) : (segments css).flatMap Segment.text = css :=
  flatMap_segmentsFrom _ css

section
variable {name : List Char}

/-- The segments with another name are those of which a renamed stylesheet is put together. -/
theorem flatMap_map_named (parts : List Segment) :
    (parts.map (Segment.named name)).flatMap Segment.text =
      parts.flatMap (Segment.renamed name) := by
  rw [List.flatMap_map]
  refine List.flatMap_congr fun part _ => ?_
  cases part <;> rfl

/-- A rule with another name is found like the rule before, with the brace behind its body if it
had one. -/
theorem nextFace?_renamed (hname : IsQuotation name) {css before body after : List Char}
    (h : nextFace? css = some (before, body, after)) {rest : List Char}
    (hrest : after = [] → rest = []) :
    nextFace? (before ++ (renamedBody name body ++ (after.take 1 ++ rest))) =
        some (before, renamedBody name body, after.take 1 ++ rest) ∧
      (after.take 1 ++ rest).take 1 = after.take 1 ∧ (after.take 1 ++ rest).drop 1 = rest := by
  obtain ⟨-, hsplit, hagain⟩ := nextFace?_eq h
  obtain ⟨-, hpast, hend⟩ := splitUnquoted_eq_iff.mp hsplit
  obtain ⟨hpassed, hclosed⟩ := goesPast_renamedBody hname hpast
  rw [hagain]
  rcases hend with rfl | ⟨hquote, others, rfl⟩
  · have hnew : splitUnquoted '\x7d' none (renamedBody name body ++ []) =
        (renamedBody name body, []) := splitUnquoted_eq_iff.mpr ⟨rfl, hpassed, Or.inl rfl⟩
    rw [hrest rfl, List.take_nil, List.append_nil, hnew]
    exact ⟨rfl, rfl, rfl⟩
  · have hnew : splitUnquoted '\x7d' none (renamedBody name body ++ '\x7d' :: rest) =
        (renamedBody name body, '\x7d' :: rest) :=
      splitUnquoted_eq_iff.mpr ⟨rfl, hpassed, Or.inr ⟨hclosed hquote, rest, rfl⟩⟩
    rw [List.take_succ_cons, List.take_zero, List.singleton_append, hnew]
    exact ⟨rfl, rfl, rfl⟩

/-- The induction is over the fuel of the first cut, which takes off one rule after the other, and
the second cut takes off the same ones. -/
theorem segmentsFrom_renamed (hname : IsQuotation name) {fuel other : Nat} {css : List Char}
    (hfuel : css.length < fuel)
    (hother : ((segmentsFrom fuel css).flatMap (Segment.renamed name)).length < other) :
    segmentsFrom other ((segmentsFrom fuel css).flatMap (Segment.renamed name)) =
      (segmentsFrom fuel css).map (Segment.named name) := by
  induction fuel generalizing css other with
  | zero => cases hfuel
  | succ fuel ih =>
      cases hface : nextFace? css with
      | none =>
          have hplain : (segmentsFrom (fuel + 1) css).flatMap (Segment.renamed name) = css := by
            simp [segmentsFrom_of_none hface, Segment.renamed]
          rw [hplain, segmentsFrom_of_none hface, segmentsFrom_of_none hface]
          rfl
      | some parts =>
          obtain ⟨before, body, after⟩ := parts
          obtain ⟨other, rfl⟩ :=
            Nat.exists_eq_succ_of_ne_zero (Nat.ne_of_gt (Nat.zero_lt_of_lt hother))
          obtain ⟨hcss, ⟨opening, hopening⟩, -⟩ := nextFace?_eq_some hface
          have hbefore : 0 < before.length := by simp [hopening]
          generalize hrest : (segmentsFrom fuel (after.drop 1)).flatMap (Segment.renamed name) =
            rest
          have htext : (segmentsFrom (fuel + 1) css).flatMap (Segment.renamed name) =
              before ++ (renamedBody name body ++ (after.take 1 ++ rest)) := by
            rw [segmentsFrom_of_some hface, ← hrest]
            simp [renamedBody, Segment.renamed]
          -- The rest is shorter in both stylesheets, as a rule has characters in front of its body.
          have hagain : segmentsFrom other rest =
              (segmentsFrom fuel (after.drop 1)).map (Segment.named name) := by
            rw [← hrest]
            refine ih ?_ ?_
            · simp only [hcss, List.length_append, List.length_drop] at hfuel ⊢
              omega
            · simp only [htext, List.length_append] at hother
              rw [hrest]
              omega
          have hnothing : after = [] → rest = [] := by
            rintro rfl
            rw [← hrest, List.drop_nil, segmentsFrom_of_none rfl]
            rfl
          obtain ⟨hfound, htake, hdrop⟩ := nextFace?_renamed hname hface hnothing
          rw [htext, segmentsFrom_of_some hfound, segmentsFrom_of_some hface, htake, hdrop, hagain,
            bodySegments_renamedBody hname]
          simp only [List.map_append, List.map_cons, Segment.named]

/-- **Cutting a renamed stylesheet gives its renamed segments.** -/
theorem segments_renamed (hname : IsQuotation name) (css : List Char) :
    segments ((segments css).flatMap (Segment.renamed name)) =
      (segments css).map (Segment.named name) :=
  segmentsFrom_renamed hname (Nat.lt_succ_self _) (Nat.lt_succ_self _)

end

end Css

end FontHosting
