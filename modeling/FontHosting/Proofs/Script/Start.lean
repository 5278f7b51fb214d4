import FontHosting.Proofs.Script.Composition
import FontHosting.Proofs.Script.Occurrence

/-!
# Statements start with tokens

Blanks and comments in front of a statement are no part of it: a statement that is read from a
text reaches from the first character of a token to a place behind that token
(`Program.isOrderly_of_read?`).  The reader of blanks stops where it has stopped before
(`behindBlanks_eq_self`), so the first token is found again at the place where the statement
starts (`Source.next_next`).
-/

namespace FontHosting.Script

open FontHosting.Script.Parser (stateAt)

/-- Whether a token starts at a place. -/
def Source.StartsToken (source : Source) : Prop :=
  source.next.here = source ∧ source.next.reading.token.kind ≠ .invalid

/-- Whether a tree covers a part of a text that starts with a token. -/
def Node.StartsAtToken (text : List Char) (node : Node) : Prop :=
  ∃ here next : Source, (Source.mk text 0).Leads here ∧ here.Leads next ∧
    node.span = ⟨here.offset, next.offset⟩ ∧ here.offset < next.offset ∧ here.StartsToken

/-- Whether the statements of a script stand in a text one behind the other, and each starts with
a token. -/
structure Program.IsOrderly (text : List Char) (program : Program) : Prop where
  starts : ∀ statement ∈ program.statements, statement.StartsAtToken text
  ordered : program.statements.Pairwise fun first second => first.span.stop ≤ second.span.start

/-! ## Tokens -/

/-- What is left behind blanks does not start with blanks. -/
theorem behindBlanks_eq_self {mode : Trivia} {text left : List Char}
    (h : behindBlanks mode text = some left) : behindBlanks .blank left = some left := by
  cases left with
  | nil => rfl
  | cons c rest =>
      obtain ⟨-, gap, rfl, hgap⟩ := exists_isBlank h
      exact (hgap (c :: rest)).symm.trans h

/-- The next token is found again at the place where it starts. -/
theorem Source.next_next {source : Source} (h : source.next.reading.token.kind ≠ .invalid) :
    source.next.here.StartsToken := by
  obtain ⟨text, offset⟩ := source
  cases hskip : skipTrivia .blank false text with
  | none =>
      rw [@next_eq_invalid ⟨text, offset⟩ hskip] at h
      exact absurd rfl h
  | some found =>
      obtain ⟨left, ended⟩ := found
      have hnext := @next_eq_tokenHere ⟨text, offset⟩ left ended hskip
      rw [hnext] at h ⊢
      have hbehind : behindBlanks .blank text = some left := by rw [behindBlanks, hskip]; rfl
      obtain ⟨⟨again, ended'⟩, hskip', hagain⟩ :=
        Option.map_eq_some_iff.mp (behindBlanks_eq_self hbehind)
      obtain rfl : again = left := hagain
      obtain ⟨passed, rfl⟩ : ∃ passed, text = passed ++ again := by
        cases again with
        | nil => exact ⟨text, (List.append_nil text).symm⟩
        | cons c rest => exact (exists_isBlank hbehind).2.imp fun _ => And.left
      dsimp only at h ⊢
      rw [moveTo_append passed again offset] at h ⊢
      have hself := moveTo_append [] again (offset + Text.Utf8.size passed)
      rw [List.nil_append] at hself
      have hstays :=
        @next_eq_tokenHere ⟨again, offset + Text.Utf8.size passed⟩ again ended' hskip'
      unfold StartsToken
      rw [hstays]
      dsimp only
      rw [hself]
      exact ⟨rfl, h⟩

/-- A token does not start with a line end. -/
theorem Source.StartsToken.isLineEnd_eq_false {source : Source} (h : source.StartsToken) :
    ∀ c ∈ source.rest.head?, isLineEnd c = false := by
  obtain ⟨hhere, hkind⟩ := h
  rcases source.next_cases hkind with ⟨-, hrest, -⟩ | ⟨-, gap, c, rest, hrest, -, -, -, hend⟩
  · rw [hhere] at hrest
    simp [hrest]
  · rw [hhere] at hrest
    simpa [hrest] using hend

/-! ## Statements -/

section
variable {language : Language} {depth : Nat} {text : List Char}

theorem startsAtToken_itemAt {source next : Source} {node : Node}
    (hsource : (Source.mk text 0).Leads source)
    (h : itemAt? language depth (stateAt source) = some (node, next)) :
    node.StartsAtToken text ∧ (Source.mk text 0).Leads next := by
  obtain ⟨hvalid, hspan, -, hleads, hpassed⟩ := covers_itemAt h
  have hhere : (Source.mk text 0).Leads source.next.here := hsource.trans source.next.leads
  have hlt : source.next.here.offset < next.offset := by
    obtain ⟨passed, hrest, hoffset⟩ := Source.leads_iff.mp hleads
    cases passed with
    | nil => simp [hrest] at hpassed
    | cons c passed =>
        have hwidth := Text.Utf8.length_encodeChar_pos c
        rw [Text.Utf8.size_cons] at hoffset
        change next.offset = source.next.here.offset + _ at hoffset
        omega
  exact ⟨⟨source.next.here, next, hhere, hleads, hspan, hlt, Source.next_next hvalid⟩,
    hhere.trans hleads⟩

theorem startAtTokens_items {fuel : Nat} {source : Source} {items : List Node}
    (hsource : (Source.mk text 0).Leads source)
    (h : scriptItems language depth fuel source = some items) :
    ∀ node ∈ items, node.StartsAtToken text := by
  induction items generalizing fuel source with
  | nil => exact nofun
  | cons node others ih =>
      cases fuel with
      | zero => cases h
      | succ fuel =>
          obtain ⟨next, hitem, hothers⟩ := scriptItems_eq_cons_iff.mp h
          obtain ⟨hnode, hnext⟩ := startsAtToken_itemAt hsource hitem
          exact List.forall_mem_cons.mpr ⟨hnode, ih hnext hothers⟩

/-- **The statements of a script that is read start with tokens, one behind the other.** -/
theorem Program.isOrderly_of_read? {program : Program}
    (h : Program.read? language (String.ofList text) = some program) : program.IsOrderly text := by
  obtain ⟨items, hitems, -, rfl⟩ := read?_eq_some_iff.mp h
  have hstart : (Source.mk text 0).Leads (scriptStart text) := Source.leads_moveTo _ _
  have hkept : items.dropWhile isDirective <:+ items := List.dropWhile_suffix _
  refine ⟨fun statement hstatement => ?_, ?_⟩
  · exact startAtTokens_items hstart hitems statement (hkept.subset hstatement)
  · exact (standBehind_items hitems).2.sublist hkept.sublist

end

end FontHosting.Script
