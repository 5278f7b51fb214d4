import FontHosting.Proofs.Script.Extent

/-!
# The pieces of a script

The text of a script is cut into pieces, one for each item, with the blanks in front of
it (`exists_pieces`).  The other way round, a text that is made up of pieces is read as
their trees if each piece is read as its tree where it stands (`scriptItems_iff`).  A piece
that is new in the text is one that is read wherever it stands.

Trees are compared without their places; the places are told by the sizes of the pieces.
-/

namespace FontHosting.Script

open FontHosting.Script.Parser (stateAt)
open Text.Utf8 (size size_append size_cons)

/-! ## Trees without places -/

/-- No place in particular. -/
def nowhere : Span := ⟨0, 0⟩

mutual

/-- A tree without its places. -/
def Node.unplaced : Node → Node
  | .reference name _ => .reference name nowhere
  | .binding name _ => .binding name nowhere
  | .word name _ => .word name nowhere
  | .text value _ => .text value nowhere
  | .number value _ => .number value nowhere
  | .boolean value _ => .boolean value nowhere
  | .null _ => .null nowhere
  | .parenthesized inner _ => .parenthesized inner.unplaced nowhere
  | .hole _ => .hole nowhere
  | .spread inner _ => .spread inner.unplaced nowhere
  | .array items _ => .array (unplacedAll items) nowhere
  | .property kind computed key value _ =>
      .property kind computed key.unplaced value.unplaced nowhere
  | .object properties _ => .object (unplacedAll properties) nowhere
  | .call optional callee typeArguments arguments _ =>
      .call optional callee.unplaced (unplacedAll typeArguments) (unplacedAll arguments) nowhere
  | .declarator target type initial _ =>
      .declarator target.unplaced (unplacedAll type) (unplacedAll initial) nowhere
  | .variables kind declarators _ => .variables kind (unplacedAll declarators) nowhere
  | .importSpecifier imported target _ => .importSpecifier imported target.unplaced nowhere
  | .importFrom typeOnly specifiers source attributes _ =>
      .importFrom typeOnly (unplacedAll specifiers) source (unplacedAll attributes) nowhere
  | .exported declaration _ => .exported declaration.unplaced nowhere
  | .form kind parts _ => .form kind (unplacedAll parts) nowhere

/-- Trees without their places. -/
def unplacedAll : List Node → List Node
  | [] => []
  | node :: rest => node.unplaced :: unplacedAll rest

end

mutual

theorem hasCover_unplaced : ∀ node : Node, hasCover node.unplaced = hasCover node
  | .reference .. | .binding .. | .word .. | .text .. | .number .. | .boolean .. | .null ..
  | .hole .. | .importSpecifier .. | .importFrom .. => rfl
  | .parenthesized inner _ | .spread inner _ => hasCover_unplaced inner
  | .exported declaration _ => hasCover_unplaced declaration
  | .array items _ => anyCover_unplacedAll items
  | .object properties _ => anyCover_unplacedAll properties
  | .variables _ declarators _ => anyCover_unplacedAll declarators
  | .property _ _ key value _ => by
      rw [Node.unplaced, hasCover, hasCover, hasCover_unplaced key, hasCover_unplaced value]
  | .call _ callee _ arguments _ => by
      rw [Node.unplaced, hasCover, hasCover, hasCover_unplaced callee,
        anyCover_unplacedAll arguments]
  | .declarator target _ initial _ => by
      rw [Node.unplaced, hasCover, hasCover, hasCover_unplaced target,
        anyCover_unplacedAll initial]
  | .form _ parts _ => congrArg (or _) (anyCover_unplacedAll parts)

theorem anyCover_unplacedAll : ∀ nodes : List Node, anyCover (unplacedAll nodes) = anyCover nodes
  | [] => rfl
  | node :: rest => by
      rw [unplacedAll, anyCover, anyCover, hasCover_unplaced node, anyCover_unplacedAll rest]

end

theorem unplacedAll_eq_map (nodes : List Node) : unplacedAll nodes = nodes.map Node.unplaced := by
  induction nodes with
  | nil => rfl
  | cons node rest ih => rw [unplacedAll, ih]; rfl

theorem anyCover_eq_false_iff {nodes : List Node} :
    anyCover nodes = false ↔ ∀ node ∈ nodes, hasCover node = false := by
  induction nodes with
  | nil => simp [anyCover]
  | cons node rest ih => simp [anyCover, ih]

/-! ## Pieces -/

/-- An item of a script with its text and the blanks in front of it. -/
structure Piece where
  gap : List Char
  text : List Char
  tree : Node
  /-- Whether the item was not in the script before. -/
  isNew : Bool := false

/-- The text of several pieces. -/
def textOf (pieces : List Piece) : List Char :=
  pieces.flatMap fun piece => piece.gap ++ piece.text

/-- The place of a piece that is looked for at an offset. -/
def Piece.spanAt (piece : Piece) (offset : Nat) : Span :=
  ⟨offset + size piece.gap, offset + size piece.gap + size piece.text⟩

/-- The places of pieces one behind the other. -/
def spansOf : Nat → List Piece → List Span
  | _, [] => []
  | offset, piece :: rest => piece.spanAt offset :: spansOf (piece.spanAt offset).stop rest

/-- A piece that the reader of items can make out: blanks, and a text that starts on a line
of theirs. -/
structure Piece.IsSound (piece : Piece) : Prop where
  blank : IsBlank .blank piece.gap
  starts : ∃ c rest, piece.text = c :: rest ∧ isLineEnd c = false

theorem Piece.stop_spanAt (piece : Piece) (before : List Char) :
    (piece.spanAt (size before)).stop = size (before ++ (piece.gap ++ piece.text)) := by
  simp only [spanAt, size_append, Nat.add_assoc]

theorem textOf_cons (piece : Piece) (pieces : List Piece) :
    textOf (piece :: pieces) = piece.gap ++ (piece.text ++ textOf pieces) := by
  rw [textOf, List.flatMap_cons, List.append_assoc]
  rfl

variable {language : Language} {depth : Nat}

/-! ## One item after the other -/

/-- Nothing is read where nothing but blanks is left. -/
theorem scriptItems_eq_nil_iff {fuel : Nat} {source : Source} :
    scriptItems language depth (fuel + 1) source = some [] ↔ IsTrailing .blank source.rest := by
  constructor
  · intro h
    unfold scriptItems at h
    dsimp only at h
    split at h
    · rename_i hkind
      rcases source.next_cases (fun hinvalid => nomatch hkind.symm.trans hinvalid) with
        ⟨-, -, htrailing⟩ | ⟨hne, -⟩
      · exact htrailing
      · exact absurd hkind hne
    · obtain ⟨⟨node, next⟩, -, h⟩ := Option.bind_eq_some_iff.mp h
      obtain ⟨others, -, h⟩ := Option.bind_eq_some_iff.mp h
      cases h
  · intro h
    unfold scriptItems
    dsimp only
    split
    · rfl
    · rename_i hkind
      exact absurd (Source.next_trailing h) hkind

/-- The first item is read at the place itself, the others behind it. -/
theorem scriptItems_eq_cons_iff {fuel : Nat} {source : Source} {node : Node}
    {others : List Node} :
    scriptItems language depth (fuel + 1) source = some (node :: others) ↔
      ∃ next, itemAt? language depth (stateAt source) = some (node, next) ∧
        scriptItems language depth fuel next = some others := by
  rw [scriptItems]
  dsimp only
  constructor
  · intro h
    split at h
    · cases h
    · obtain ⟨⟨first, next⟩, hitem, h⟩ := Option.bind_eq_some_iff.mp h
      obtain ⟨rest, hrest, h⟩ := Option.bind_eq_some_iff.mp h
      cases h
      exact ⟨next, hitem, hrest⟩
  · rintro ⟨next, hitem, hothers⟩
    split
    · -- an item passes a character, and at the end there is none
      rename_i hkind
      obtain ⟨hvalid, -, -, -, hpassed⟩ := covers_itemAt hitem
      have hplace : (stateAt source).here = source.next.here := rfl
      rcases source.next_cases hvalid with ⟨-, hhere, -⟩ | ⟨hne, -⟩
      · rw [hplace, hhere] at hpassed
        exact absurd hpassed (Nat.not_lt_zero _)
      · exact absurd hkind hne
    · rw [hitem]
      simp only [bind, Option.bind]
      rw [hothers]
      rfl

/-- **A script is made up of its items and blanks between them.** -/
theorem exists_pieces {fuel : Nat} {source : Source} {items : List Node}
    (h : scriptItems language depth fuel source = some items) :
    ∃ pieces tail, pieces.map Piece.tree = items ∧
      (∀ piece ∈ pieces, piece.IsSound ∧ piece.isNew = false) ∧
      source.rest = textOf pieces ++ tail ∧ IsTrailing .blank tail ∧
      items.map Node.span = spansOf source.offset pieces ∧
      ∀ node ∈ items, node.BindsName (topLevel language) := by
  induction items generalizing fuel source with
  | nil =>
      cases fuel with
      | zero => cases h
      | succ fuel =>
          exact ⟨[], source.rest, rfl, nofun, rfl, scriptItems_eq_nil_iff.mp h, rfl, nofun⟩
  | cons node others ih =>
      cases fuel with
      | zero => cases h
      | succ fuel =>
        obtain ⟨next, hitem, hothers⟩ := scriptItems_eq_cons_iff.mp h
        obtain ⟨hvalid, hspan, hbinds, hleads, hpassed⟩ := covers_itemAt hitem
        have hplace : (stateAt source).here = source.next.here := rfl
        rw [hplace] at hspan hleads hpassed
        rcases source.next_cases hvalid with
          ⟨-, hhere, -⟩ | ⟨-, gap, c, rest, hhere, hrest, hoffset, hgap, hend⟩
        · rw [hhere] at hpassed
          exact absurd hpassed (Nat.not_lt_zero _)
        obtain ⟨pieces, tail, rfl, hsound, hbehind, htail, hspans, hbind⟩ := ih hothers
        obtain ⟨text, htext, hnext⟩ := Source.leads_iff.mp hleads
        have hstarts : ∃ rest, text = c :: rest := by
          cases text with
          | nil =>
              rw [htext] at hpassed
              exact absurd hpassed (Nat.lt_irrefl _)
          | cons d text =>
              rw [hhere] at htext
              exact ⟨text, congrArg (· :: text) (List.cons.inj htext).1.symm⟩
        refine ⟨{ gap, text, tree := node } :: pieces, tail, rfl, ?_, ?_, htail, ?_, ?_⟩
        · rintro piece (_ | ⟨_, hpiece⟩)
          · obtain ⟨others, rfl⟩ := hstarts
            exact ⟨⟨hgap, c, others, rfl, hend⟩, rfl⟩
          · exact hsound piece hpiece
        · rw [textOf_cons, hrest, ← hhere, htext, hbehind]
          simp only [List.append_assoc]
        · rw [List.map_cons, hspans, spansOf, hspan, hnext, hoffset]
          rfl
        · rintro other (_ | ⟨_, hother⟩)
          · exact hbinds
          · exact hbind other hother

/-! ## Reading pieces -/

/-- Whether an item is read at a place that has the tree and the extent of a piece. -/
def Piece.IsRead (language : Language) (depth : Nat) (piece : Piece) (source : Source) : Prop :=
  ∃ node next, itemAt? language depth (stateAt source) = some (node, next) ∧
    node.unplaced = piece.tree.unplaced ∧ node.span = piece.spanAt source.offset

/-- Whether each of several pieces that is not new is read behind the ones before it. -/
def AreRead (language : Language) (depth : Nat) (tail : List Char) : Nat → List Piece → Prop
  | _, [] => True
  | offset, piece :: rest =>
      (piece.isNew = false →
        piece.IsRead language depth ⟨textOf (piece :: rest) ++ tail, offset⟩) ∧
        AreRead language depth tail (piece.spanAt offset).stop rest

/-- Whether a piece is read wherever it stands. -/
def Piece.IsReadAnywhere (language : Language) (depth : Nat) (piece : Piece) : Prop :=
  ∀ rest offset, piece.IsRead language depth ⟨piece.gap ++ (piece.text ++ rest), offset⟩

/-- What is behind a piece that is read. -/
theorem Piece.IsRead.next_eq {piece : Piece} {rest : List Char} {offset : Nat} {node : Node}
    {next : Source}
    (hitem : itemAt? language depth (stateAt ⟨piece.gap ++ (piece.text ++ rest), offset⟩) =
      some (node, next))
    (hspan : node.span = piece.spanAt offset) : next = ⟨rest, (piece.spanAt offset).stop⟩ := by
  obtain ⟨-, hextent, -, hleads, -⟩ := covers_itemAt hitem
  refine Source.Leads.eq_of_offset ((stateAt _).leads.trans hleads) (Source.leads_iff.mpr
    ⟨piece.gap ++ piece.text, by rw [List.append_assoc]; rfl, ?_⟩) ?_
  · rw [size_append, ← Nat.add_assoc]
    rfl
  · rw [← hspan, hextent]

/-- **A text that is made up of pieces is read as their trees exactly if each piece that is
not new is read where it stands.** -/
theorem scriptItems_iff {tail : List Char} (htail : IsTrailing .blank tail) {fuel offset : Nat}
    {pieces : List Piece} (hfuel : pieces.length < fuel)
    (hnew : ∀ piece ∈ pieces, piece.isNew → piece.IsReadAnywhere language depth) :
    (∃ items, scriptItems language depth fuel ⟨textOf pieces ++ tail, offset⟩ = some items ∧
        items.map Node.unplaced = pieces.map (Node.unplaced ∘ Piece.tree) ∧
        items.map Node.span = spansOf offset pieces) ↔
      AreRead language depth tail offset pieces := by
  obtain ⟨fuel, rfl⟩ : ∃ more, fuel = more + 1 := ⟨fuel - 1, by omega⟩
  induction pieces generalizing fuel offset with
  | nil => exact iff_of_true ⟨[], scriptItems_eq_nil_iff.mpr htail, rfl, rfl⟩ trivial
  | cons piece pieces ih =>
      obtain ⟨fuel, rfl⟩ : ∃ more, fuel = more + 1 := ⟨fuel - 1, by simp at hfuel; omega⟩
      obtain ⟨hpiece, hpieces⟩ := List.forall_mem_cons.mp hnew
      have htext : textOf (piece :: pieces) ++ tail =
          piece.gap ++ (piece.text ++ (textOf pieces ++ tail)) := by
        rw [textOf_cons, List.append_assoc, List.append_assoc]
      rw [AreRead, ← ih hpieces fuel (Nat.lt_of_succ_lt_succ hfuel), htext]
      constructor
      · rintro ⟨_ | ⟨node, others⟩, hitems, htrees, hspans⟩
        · cases htrees
        obtain ⟨next, hitem, hothers⟩ := scriptItems_eq_cons_iff.mp hitems
        obtain ⟨htree, htrees⟩ := List.cons.inj htrees
        obtain ⟨hspan, hspans⟩ := List.cons.inj hspans
        obtain rfl := Piece.IsRead.next_eq hitem hspan
        exact ⟨fun _ => ⟨node, _, hitem, htree, hspan⟩, others, hothers, htrees, hspans⟩
      · rintro ⟨hkept, others, hothers, htrees, hspans⟩
        have hread : piece.IsRead language depth
            ⟨piece.gap ++ (piece.text ++ (textOf pieces ++ tail)), offset⟩ := by
          cases hisNew : piece.isNew with
          | false => exact hkept hisNew
          | true => exact hpiece hisNew _ _
        obtain ⟨node, next, hitem, htree, hspan⟩ := hread
        obtain rfl := Piece.IsRead.next_eq hitem hspan
        refine ⟨node :: others, scriptItems_eq_cons_iff.mpr ⟨_, hitem, hothers⟩, ?_, ?_⟩
        · rw [List.map_cons, htree, htrees]
          rfl
        · rw [List.map_cons, hspan, hspans]
          rfl

end FontHosting.Script
