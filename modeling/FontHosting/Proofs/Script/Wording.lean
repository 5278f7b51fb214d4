import FontHosting.Json.Writer
import FontHosting.Proofs.Script.Name
import FontHosting.Proofs.Script.Run
import FontHosting.Script.Rules

/-!
# Statements read as they were written

A name is read as a word if nothing that continues it follows (`readKind_name`), and a text
in quotes as that text (`readKind_quote`).  `Source.starts` puts blanks in front of a token.

The tokens of an import of a name and of an export of one are read as that import
(`run_item_import`) and that export (`run_item_export`), whatever follows.
-/

namespace FontHosting.Script

open FontHosting.Script.Parser
open Text.Utf8 (size size_append)

/-! ## Names -/

theorem ne_backslash {c : Char} (h : isNameContinue c) : c ≠ '\\' := by
  rintro rfl
  revert h
  decide

theorem isNameContinue_of_isNameStart {c : Char} (h : isNameStart c) : isNameContinue c := by
  unfold isNameStart at h
  unfold isNameContinue
  split at h
  · rename_i hascii
    rw [if_pos hascii, Char.isAlphanum]
    grind
  · rename_i hascii
    rw [if_neg hascii, h, Bool.true_or]

theorem readName_continue {fuel : Nat} {c : Char} {done text : List Char} {escaped : Bool}
    (hc : isNameContinue c) (hfirst : done = [] → isNameStart c) :
    readName (fuel + 1) done escaped (c :: text) = readName fuel (c :: done) escaped text := by
  have hplain := ne_backslash hc
  have hfits : (if done.isEmpty then isNameStart c else isNameContinue c) = true := by
    cases done with
    | nil => exact hfirst rfl
    | cons _ _ => exact hc
  rw [readName]
  · exact if_pos hfits
  · exact fun _ heq => absurd heq hplain
  · exact hplain

theorem readName_end {fuel : Nat} {done text : List Char} {escaped : Bool} (hdone : done ≠ [])
    (htext : EndsName text) :
    readName (fuel + 1) done escaped text = some (done.reverse, escaped, text) := by
  cases text with
  | nil => rfl
  | cons c text =>
      obtain ⟨hc, hplain⟩ := htext c rfl
      rw [readName]
      · simp [hdone, hc]
      · exact fun _ heq => absurd heq hplain
      · exact hplain

/-- The characters of a name are read up to what ends it. -/
theorem readName_append {fuel : Nat} {done name rest : List Char} {escaped : Bool}
    (hdone : done ≠ []) (hname : ∀ c ∈ name, isNameContinue c) (hrest : EndsName rest)
    (hfuel : name.length < fuel) :
    readName fuel done escaped (name ++ rest) = some (done.reverse ++ name, escaped, rest) := by
  induction name generalizing fuel done with
  | nil =>
      obtain ⟨fuel, rfl⟩ := Nat.exists_eq_succ_of_ne_zero (Nat.ne_of_gt hfuel)
      rw [List.append_nil]
      exact readName_end hdone hrest
  | cons c name ih =>
      obtain ⟨fuel, rfl⟩ := Nat.exists_eq_succ_of_ne_zero (Nat.ne_zero_of_lt hfuel)
      obtain ⟨hc, hname⟩ := List.forall_mem_cons.mp hname
      rw [List.cons_append, readName_continue hc (absurd · hdone),
        ih (List.cons_ne_nil c done) hname (Nat.lt_of_succ_lt_succ hfuel)]
      simp

/-- The codes of blanks, digits and marks at which no name starts. -/
def otherCodes : List Nat :=
  [0x22, 0x27, 0x2E, 0x2F, 0x60, 0x09, 0x0A, 0x0B, 0x0C, 0x0D, 0x20, 0x85, 0xA0, 0x1680, 0x2028,
    0x2029, 0x202F, 0x205F, 0x3000, 0xFEFF] ++ List.range' 0x2000 12 ++ List.range' 0x30 10

theorem isNameStart_otherCodes : ∀ code ∈ otherCodes, isNameStart (Char.ofNat code) = false := by
  decide +kernel

theorem notMem_otherCodes {c : Char} (h : isNameStart c) : c.toNat ∉ otherCodes := by
  intro hmem
  have hother := isNameStart_otherCodes c.toNat hmem
  rw [Char.ofNat_toNat, h] at hother
  cases hother

/-- A character that starts a name is no blank. -/
theorem isNameStart_notBlank {c : Char} (h : isNameStart c) :
    isLineEnd c = false ∧ isSpacing c = false := by
  have hother := notMem_otherCodes h
  simp only [otherCodes, List.mem_append, List.mem_cons, List.mem_range'_1, List.not_mem_nil,
    or_false, not_or] at hother
  have hne : ∀ mark : Char, c.toNat ≠ mark.toNat → (c == mark) = false := by
    rintro mark hmark
    simpa using fun heq : c = mark => hmark (congrArg Char.toNat heq)
  constructor
  · simp [isLineEnd, hne '\n', hne '\r', hother]
  · simp [isSpacing, hne ' ', hne '\t', hother]
    omega

/-- A character that starts a name starts no text, template or number, and no comment. -/
theorem isNameStart_plain {c : Char} (h : isNameStart c) :
    c ≠ '"' ∧ c ≠ '\'' ∧ c ≠ '\x60' ∧ c ≠ '.' ∧ c ≠ '/' ∧ c.isDigit = false := by
  have hne : ∀ mark : Char, isNameStart mark = false → c ≠ mark := by
    rintro _ hmark rfl
    exact Bool.false_ne_true (hmark.symm.trans h)
  refine ⟨hne _ (by decide), hne _ (by decide), hne _ (by decide), hne _ (by decide),
    hne _ (by decide), ?_⟩
  cases hdigit : c.isDigit with
  | false => rfl
  | true =>
      obtain ⟨hlow, hhigh⟩ := Char.isDigit_iff_toNat.mp hdigit
      refine absurd (List.mem_append_right _ ?_) (notMem_otherCodes h)
      exact List.mem_range'_1.mpr ⟨hlow, Nat.lt_succ_of_le hhigh⟩

theorem readKind_name {name rest : List Char} (hname : isName name) (hrest : EndsName rest) :
    readKind (name ++ rest) = (.word (String.ofList name), false, rest) := by
  cases name with
  | nil => cases hname
  | cons c name =>
      obtain ⟨hc, hname⟩ := Bool.and_eq_true_iff.mp hname
      obtain ⟨hdouble, hsingle, htick, hpoint, -, hdigit⟩ := isNameStart_plain hc
      have hread : readName ((c :: (name ++ rest)).length + 1) [] false (c :: (name ++ rest)) =
          some (c :: name, false, rest) := by
        rw [readName_continue (isNameContinue_of_isNameStart hc) fun _ => hc]
        exact readName_append (List.cons_ne_nil c []) (List.all_eq_true.mp hname) hrest
          (by rw [List.length_cons, List.length_append]; omega)
      rw [List.cons_append, readKind]
      simp only [hdouble, hsingle, htick, hdigit, hpoint, hc, hread]
      rfl

/-! ## Texts in quotes -/

theorem value?_lowerDigit : ∀ value < 16, Text.Hex.value? (Text.Hex.lowerDigit value) = some value := by
  decide

/-- A control character is read back from its number. -/
theorem unicodeEscape?_control {c : Char} (hc : c.toNat < 0x20) (rest : List Char) :
    unicodeEscape? ('0' :: '0' :: Text.Hex.lowerDigit (c.toNat / 16) ::
      Text.Hex.lowerDigit (c.toNat % 16) :: rest) = some (.character c, rest) := by
  have hhigh := value?_lowerDigit (c.toNat / 16) (by omega)
  have hlow := value?_lowerDigit (c.toNat % 16) (by omega)
  have hzero : Text.Hex.value? '0' = some 0 := by decide
  have hcode : codePoint? ('0' :: '0' :: Text.Hex.lowerDigit (c.toNat / 16) ::
      Text.Hex.lowerDigit (c.toNat % 16) :: rest) = some (c.toNat, rest) := by
    simp [codePoint?, hexDigits?, hzero, hhigh, hlow, Nat.div_add_mod]
  have hunit : StringUnit.ofCode c.toNat = .character c := by
    rw [StringUnit.ofCode, if_neg (by omega), Char.ofNat_toNat]
  have hhalf : ¬0xD800 ≤ c.toNat := by omega
  simp [unicodeEscape?, hcode, hunit, hhalf]

/-- An escaped character of a text is read as that character. -/
theorem readUnits_escapeChar (c : Char) (fuel : Nat) (done : List StringUnit)
    (rest : List Char) :
    readUnits '"' (fuel + 1) done (Json.escapeChar c ++ rest) =
      readUnits '"' fuel (.character c :: done) rest := by
  unfold Json.escapeChar
  split_ifs with hquote hbackslash hbackspace hfeed hline hreturn htab hcontrol
  any_goals
    subst c
    rfl
  · rw [List.cons_append, List.cons_append, readUnits]
    simp [escape?, unicodeEscape?_control hcontrol]
  · rw [List.singleton_append, readUnits]
    · simp [hquote, hline, hreturn]
    · exact hbackslash

/-- The units of a text are read up to the quote behind it. -/
theorem readUnits_quote {text rest : List Char} {fuel : Nat} {done : List StringUnit}
    (hfuel : text.length < fuel) :
    readUnits '"' fuel done (text.flatMap Json.escapeChar ++ '"' :: rest) =
      some (done.reverse ++ text.map .character, rest) := by
  induction text generalizing fuel done with
  | nil =>
      obtain ⟨fuel, rfl⟩ := Nat.exists_eq_succ_of_ne_zero (Nat.ne_of_gt hfuel)
      rw [List.map_nil, List.append_nil]
      rfl
  | cons c text ih =>
      obtain ⟨fuel, rfl⟩ := Nat.exists_eq_succ_of_ne_zero (Nat.ne_zero_of_lt hfuel)
      rw [List.flatMap_cons, List.append_assoc, readUnits_escapeChar,
        ih (Nat.lt_of_succ_lt_succ hfuel)]
      simp

theorem unitsText_characters (text : List Char) :
    unitsText (text.map .character) = String.ofList text := by
  simp [unitsText, List.flatMap_map, Function.comp_def]

theorem length_le_flatMap_escapeChar (text : List Char) :
    text.length ≤ (text.flatMap Json.escapeChar).length := by
  induction text with
  | nil => exact Nat.le_refl 0
  | cons c text ih =>
      have hpos : 0 < (Json.escapeChar c).length := by
        unfold Json.escapeChar
        split_ifs <;> simp
      rw [List.flatMap_cons, List.length_append, List.length_cons]
      omega

/-- **A text in quotes is read as that text.** -/
theorem readKind_quote (text rest : List Char) :
    readKind (Json.quote text ++ rest) = (.text (String.ofList text), false, rest) := by
  have hquote : Json.quote text ++ rest =
      '"' :: (text.flatMap Json.escapeChar ++ '"' :: rest) := by simp [Json.quote]
  rw [hquote, readKind]
  have hfuel : text.length <
      ('"' :: (text.flatMap Json.escapeChar ++ '"' :: rest)).length + 1 := by
    have hlength := length_le_flatMap_escapeChar text
    rw [List.length_cons, List.length_append]
    omega
  rw [if_pos (.inl rfl), readUnits_quote hfuel]
  simp [unitsText_characters]

/-! ## Tokens behind blanks -/

/-- Whether a source starts with a token, plainly written, and what is behind it. -/
structure Source.Starts (source : Source) (kind : TokenKind) (start : Nat) (after : Source) :
    Prop where
  kind : (stateAt source).token.kind = kind
  plain : (stateAt source).token.escaped = false
  start : (stateAt source).token.start = start
  passed : after.rest.length < (stateAt source).here.rest.length
  after : (stateAt source).after = after

/-- Whether a text starts with a character that starts a token, whatever follows. -/
def startsToken : List Char → Bool
  | [] => false
  | c :: _ => !isLineEnd c && !isSpacing c && c != '/'

theorem startsToken_name {name : List Char} (hname : isName name) : startsToken name := by
  cases name with
  | nil => cases hname
  | cons c name =>
      have hc := (Bool.and_eq_true_iff.mp hname).1
      obtain ⟨hend, hspacing⟩ := isNameStart_notBlank hc
      obtain ⟨-, -, -, -, hslash, -⟩ := isNameStart_plain hc
      simp [startsToken, hend, hspacing, hslash]

theorem Source.starts {gap text rest : List Char} {kind : TokenKind} (hgap : IsBlank .blank gap)
    (htoken : startsToken text) (hread : readKind (text ++ rest) = (kind, false, rest))
    (offset : Nat) :
    (Source.mk (gap ++ (text ++ rest)) offset).Starts kind (offset + size gap)
      ⟨rest, offset + size gap + size text⟩ := by
  cases text with
  | nil => cases htoken
  | cons c text =>
      have hstep : Trivia.step .blank c (text ++ rest).head? = none := by
        simp_all [startsToken, Trivia.step]
      obtain ⟨ended, hleads, hnext⟩ := Source.next_blank offset hgap hstep
      have hmove := Source.moveTo_append (c :: text) rest (offset + size gap)
      have hread' : readKind (c :: (text ++ rest)) = (kind, false, rest) := hread
      constructor <;> unfold stateAt <;> rw [List.cons_append, hnext] <;>
        simp only [State.token, State.after, tokenHere, hread']
      · rw [List.length_cons, List.length_append]
        omega
      · exact hmove

theorem Source.Starts.stop {source after : Source} {kind : TokenKind} {start : Nat}
    (h : source.Starts kind start after) : (stateAt source).token.stop = after.offset := by
  rw [← h.after]
  exact (stateAt source).reading.stop_eq

section
variable {context : Context} {source after : Source} {start : Nat} {name value : String}

theorem run_bindingName (h : source.Starts (.word name) start after) :
    bindingName.run context (stateAt source) =
      if mayName context name then some (.binding name ⟨start, after.offset⟩, stateAt after)
      else none := by
  by_cases hname : mayName context name <;>
    simp [bindingName, Token.word?, h.kind, h.start, h.after, h.stop, hname]

theorem run_plainWord (h : source.Starts (.word name) start after) :
    plainWord.run context (stateAt source) =
      some (.word name ⟨start, after.offset⟩, stateAt after) := by
  simp [plainWord, Token.word?, h.kind, h.start, h.after, h.stop]

theorem run_moduleSource (h : source.Starts (.text value) start after) :
    moduleSource.run context (stateAt source) = some (value, stateAt after) := by
  simp [moduleSource, textNode, h.kind, h.after]

theorem run_semicolon (h : source.Starts (.punctuator ";") start after) :
    semicolon.run context (stateAt source) = some ((), stateAt after) := by
  simp [semicolon, mayEnd, h.kind, h.after, Token.isPunctuator]

/-- A keyword that is there is passed. -/
theorem run_expectKeyword_of (h : source.Starts (.word name) start after) :
    (expectKeyword name).run context (stateAt source) = some ((), stateAt after) := by
  simp [h.kind, h.plain, h.after, Token.isKeyword]

/-- A punctuator that is there is passed. -/
theorem run_expect_of (h : source.Starts (.punctuator name) start after) :
    (expect name).run context (stateAt source) = some ((), stateAt after) := by
  simp [h.kind, h.after, Token.isPunctuator]

end

/-! ## Imports and exports -/

section
variable {context : Context} {first second third fourth fifth after : Source}
  {p₁ p₂ p₃ p₄ p₅ : Nat} {name value : String}

/-- The name `type` before `from` and a text is a name. -/
theorem run_importTypeIsMark (hname : second.Starts (.word name) p₂ third)
    (hfrom : third.Starts (.word "from") p₃ fourth) (hvalue : fourth.Starts (.text value) p₄ fifth) :
    importTypeIsMark.run context (stateAt second) = some (false, stateAt second) := by
  simp [importTypeIsMark, next_token, hname.kind, hname.plain, hname.after, hfrom.kind, hfrom.plain,
    hfrom.after, hvalue.kind, Token.isKeyword, Token.isPunctuator]

/-- The names `defer` and `source` before `from` and a text are names. -/
theorem run_importPhase (hname : second.Starts (.word name) p₂ third)
    (hfrom : third.Starts (.word "from") p₃ fourth) (hvalue : fourth.Starts (.text value) p₄ fifth) :
    importPhase.run context (stateAt second) = some (false, stateAt second) := by
  simp [importPhase, next_token, hname.kind, hname.plain, hname.after, hfrom.kind, hvalue.kind,
    Token.isKeyword, Token.isPunctuator, run_bindingName hfrom]

theorem run_importClause (hname : second.Starts (.word name) p₂ third)
    (hfrom : third.Starts (.word "from") p₃ fourth) (hmay : mayName context name) :
    importClause.run context (stateAt second) =
      some ([.importSpecifier .default (.binding name ⟨p₂, third.offset⟩) ⟨p₂, third.offset⟩],
        stateAt third) := by
  simp [importClause, hname.kind, hname.start, hfrom.kind, Token.isPunctuator,
    run_bindingName hname, hmay]
  rfl

theorem run_importAttributes (hend : fifth.Starts (.punctuator ";") p₅ after) :
    importAttributes.run context (stateAt fifth) = some ([], stateAt fifth) := by
  simp [importAttributes, hend.kind, Token.isKeyword]

/-- The import of a name, with a semicolon. -/
theorem run_importDeclaration (hword : first.Starts (.word "import") p₁ second)
    (hname : second.Starts (.word name) p₂ third) (hfrom : third.Starts (.word "from") p₃ fourth)
    (hvalue : fourth.Starts (.text value) p₄ fifth)
    (hend : fifth.Starts (.punctuator ";") p₅ after) (hmay : mayName context name) :
    (importDeclaration p₁ false).run context (stateAt first) =
      some (.importFrom false
        [.importSpecifier .default (.binding name ⟨p₂, third.offset⟩) ⟨p₂, third.offset⟩] value []
        ⟨p₁, after.offset⟩, stateAt after) := by
  have hfollowing : (stateAt second).after.next.reading.token.isPunctuator "=" = false := by
    rw [hname.after, next_token, Token.isPunctuator, hfrom.kind]
  unfold importDeclaration
  rw [run_bind_of (run_expectKeyword_of hword), run_bind_of run_token, hname.kind]
  dsimp only
  -- no text follows, and no mark or phase: the name is that of the module's default
  rw [if_neg Bool.false_ne_true, run_bind_of (run_importTypeIsMark hname hfrom hvalue),
    run_bind_of (run_importPhase hname hfrom hvalue), Bool.or_self, if_neg Bool.false_ne_true,
    run_bind_of run_typed, run_bind_of run_atName, run_bind_of run_peek, hfollowing,
    Bool.and_false, if_neg Bool.false_ne_true,
    run_bind_of (by rw [run_require, Bool.not_false, if_pos rfl]),
    run_bind_of (run_importClause hname hfrom hmay), run_bind_of (run_expectKeyword_of hfrom),
    run_bind_of (run_moduleSource hvalue), run_bind_of (run_importAttributes hend),
    run_bind_of (run_semicolon hend), run_bind_of (run_spanFrom p₁)]
  rfl

/-- An import is an item. -/
theorem run_item_import (recur : Recur) (hword : first.Starts (.word "import") p₁ second)
    (hname : second.Starts (.word name) p₂ third) (hfrom : third.Starts (.word "from") p₃ fourth)
    (hvalue : fourth.Starts (.text value) p₄ fifth)
    (hend : fifth.Starts (.punctuator ";") p₅ after) (hmay : mayName context name) :
    (item recur).run context (stateAt first) =
      some (.importFrom false
        [.importSpecifier .default (.binding name ⟨p₂, third.offset⟩) ⟨p₂, third.offset⟩] value []
        ⟨p₁, after.offset⟩, stateAt after) := by
  have hstarts : importStarts.run context (stateAt first) = some (true, stateAt first) := by
    simp [importStarts, next_token, hword.kind, hword.plain, hword.after, hname.kind,
      Token.isKeyword, Token.isPunctuator]
  unfold item
  rw [run_bind_of hstarts, if_pos rfl, run_bind_of run_startHere, hword.start]
  exact run_importDeclaration hword hname hfrom hvalue hend hmay

/-- The name `type` before a closing brace is a name. -/
theorem run_typeIsMark (hname : third.Starts (.word name) p₃ fourth)
    (hclose : fourth.Starts (.punctuator "\x7d") p₄ fifth) :
    typeIsMark.run context (stateAt third) = some (false, stateAt third) := by
  simp [typeIsMark, hname.kind, hname.plain, hname.after, hclose.kind, Token.isKeyword, Token.isWord]

theorem run_exportSpecifier (hname : third.Starts (.word name) p₃ fourth)
    (hclose : fourth.Starts (.punctuator "\x7d") p₄ fifth) :
    exportSpecifier.run context (stateAt third) =
      some (.form (.exportName false)
        [.word name ⟨p₃, fourth.offset⟩, .word name ⟨p₃, fourth.offset⟩] ⟨p₃, fourth.offset⟩,
        stateAt fourth) := by
  simp [exportSpecifier, moduleName, hname.kind, hname.start, hclose.kind, Token.isKeyword,
    run_typeIsMark hname hclose, run_plainWord hname]
  rfl

theorem run_exportedNames (hname : third.Starts (.word name) p₃ fourth)
    (hclose : fourth.Starts (.punctuator "\x7d") p₄ fifth) :
    (commaList "\x7d" exportSpecifier).run context (stateAt third) =
      some ([.form (.exportName false)
        [.word name ⟨p₃, fourth.offset⟩, .word name ⟨p₃, fourth.offset⟩] ⟨p₃, fourth.offset⟩],
        stateAt fifth) := by
  simp [commaList, many, collect, hname.kind, hclose.kind, Token.isPunctuator,
    run_exportSpecifier hname hclose]
  generalize (stateAt third).here.rest.length = fuel
  cases fuel <;> simp [collect, hclose.kind, hclose.after, Token.isPunctuator]

/-- The export of a name behind its keyword, with a semicolon. -/
theorem run_exportNames (hopen : second.Starts (.punctuator "\x7b") p₂ third)
    (hname : third.Starts (.word name) p₃ fourth)
    (hclose : fourth.Starts (.punctuator "\x7d") p₄ fifth)
    (hend : fifth.Starts (.punctuator ";") p₅ after) (hmay : isReserved name = false) :
    (exportNames p₁ false).run context (stateAt second) =
      some (.form (.exportNames false) [.form (.exportName false)
        [.reference name ⟨p₃, fourth.offset⟩, .word name ⟨p₃, fourth.offset⟩] ⟨p₃, fourth.offset⟩]
        ⟨p₁, after.offset⟩, stateAt after) := by
  have hfrom : (eatKeyword "from").run context (stateAt fifth) = some (false, stateAt fifth) := by
    simp [hend.kind, Token.isKeyword]
  unfold exportNames
  rw [run_bind_of (run_expect_of hopen), run_bind_of (run_exportedNames hname hclose),
    run_bind_of hfrom, if_neg Bool.false_ne_true]
  simp only [List.mapM_cons, List.mapM_nil, localName?, hmay, Bool.false_eq_true, if_false,
    Option.pure_def, Option.bind_eq_bind, Option.bind_some]
  rw [run_bind_of (run_semicolon hend), run_form]
  rfl

/-- An export is an item. -/
theorem run_item_export (recur : Recur) (hword : first.Starts (.word "export") p₁ second)
    (hopen : second.Starts (.punctuator "\x7b") p₂ third)
    (hname : third.Starts (.word name) p₃ fourth)
    (hclose : fourth.Starts (.punctuator "\x7d") p₄ fifth)
    (hend : fifth.Starts (.punctuator ";") p₅ after) (hmay : isReserved name = false) :
    (item recur).run context (stateAt first) =
      some (.form (.exportNames false) [.form (.exportName false)
        [.reference name ⟨p₃, fourth.offset⟩, .word name ⟨p₃, fourth.offset⟩] ⟨p₃, fourth.offset⟩]
        ⟨p₁, after.offset⟩, stateAt after) := by
  have hstarts : importStarts.run context (stateAt first) = some (false, stateAt first) := by
    simp [importStarts, hword.kind, Token.isKeyword]
  have hexport : (atKeyword "export").run context (stateAt first) = some (true, stateAt first) := by
    simp [hword.kind, hword.plain, Token.isKeyword]
  have htype : exportTypeIsMark.run context (stateAt second) = some (false, stateAt second) := by
    simp [exportTypeIsMark, hopen.kind, Token.isKeyword]
  have hstar : (at? "*").run context (stateAt second) = some (false, stateAt second) := by
    simp [hopen.kind, Token.isPunctuator]
  have hbrace : (at? "\x7b").run context (stateAt second) = some (true, stateAt second) := by
    simp [hopen.kind, Token.isPunctuator]
  unfold item
  rw [run_bind_of hstarts, if_neg Bool.false_ne_true, run_bind_of hexport, if_pos rfl]
  unfold exportDeclaration
  rw [run_bind_of run_startHere, run_bind_of (run_expectKeyword_of hword), run_bind_of run_typed,
    run_bind_of run_peek, run_bind_of htype, hword.start]
  dsimp only
  rw [if_neg Bool.false_ne_true, run_bind_of hstar, if_neg Bool.false_ne_true, run_bind_of hbrace,
    if_pos rfl]
  exact run_exportNames hopen hname hclose hend hmay

end

/-- An item that is read from a token on, and passes it. -/
theorem itemAt?_of_run {language : Language} {depth : Nat} {source second next : Source}
    {kind : TokenKind} {start : Nat} {node : Node} (hstarts : source.Starts kind start second)
    (hkind : kind ≠ .invalid)
    (hrun : (item (grammar depth)).run (topLevel language) (stateAt source) =
      some (node, stateAt next)) (hle : next.rest.length ≤ second.rest.length) :
    itemAt? language (depth + 1) (stateAt source) = some (node, next) := by
  have hpassed : next.rest.length < (stateAt source).here.rest.length :=
    Nat.lt_of_le_of_lt hle hstarts.passed
  obtain ⟨reply, hreply, hanswer⟩ := Option.map_eq_some_iff.mp hrun
  obtain ⟨rfl, hafter⟩ := Prod.mk.inj hanswer
  have hprevious : reply.after.previous = next := congrArg State.previous hafter
  have hgrammar : grammar (depth + 1) .item (topLevel language) (stateAt source) = some reply :=
    hreply
  unfold itemAt?
  split
  · rename_i hinvalid
    exact absurd (hstarts.kind.symm.trans hinvalid) hkind
  · rw [hgrammar]
    simp [hprevious, hpassed]

end FontHosting.Script
