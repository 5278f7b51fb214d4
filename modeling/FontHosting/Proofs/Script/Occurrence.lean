import FontHosting.Proofs.Script.Grammar.Statements
import FontHosting.Proofs.Script.Pieces

/-!
# The names of a script

The references and bindings that are collected from a tree are those that stand anywhere
inside it (`Node.mem_occurrences`).

The statements of a script stand one behind the other, and each name stands inside its
statement (`Program.exists_laid`).  So the place where a name starts tells the statement and the
name: `Program.Laid.eq_of_occurs` and `Program.Laid.eq_of_start_eq`.  That is what the analysis of font
calls relies on when it tells statements and names by the byte where they start.
-/

namespace FontHosting.Script

open FontHosting.Script.Parser (stateAt)

/-! ## Trees inside trees -/

/-- The trees that a tree is directly made of. -/
def Node.parts : Node → List Node
  | .reference .. | .binding .. | .word .. | .text .. | .number .. | .boolean .. | .null ..
  | .hole .. => []
  | .parenthesized inner _ | .spread inner _ | .exported inner _ | .importSpecifier _ inner _ =>
      [inner]
  | .array parts _ | .object parts _ | .variables _ parts _ | .form _ parts _ => parts
  | .property _ _ key value _ => [key, value]
  | .call _ callee typeArguments arguments _ => callee :: typeArguments ++ arguments
  | .declarator target type initial _ => target :: type ++ initial
  | .importFrom _ specifiers _ attributes _ => specifiers ++ attributes

/-- A tree stands inside another one, which may be itself. -/
inductive Node.Within (node : Node) : Node → Prop
  | self : node.Within node
  | part {part tree : Node} : part ∈ tree.parts → node.Within part → node.Within tree

/-- What a tree names, if it is a reference or a binding. -/
def Node.occurrence? : Node → Option Occurrence
  | .reference name span | .binding name span => some ⟨name, span.start⟩
  | _ => none

theorem mem_occurrencesIn {nodes : List Node} {occurrence : Occurrence} :
    occurrence ∈ occurrencesIn nodes ↔ ∃ node ∈ nodes, occurrence ∈ node.occurrences := by
  induction nodes with
  | nil => simp [occurrencesIn]
  | cons node rest ih => simp [occurrencesIn, ih]

theorem occurrencesIn_append (first second : List Node) :
    occurrencesIn (first ++ second) = occurrencesIn first ++ occurrencesIn second := by
  induction first with
  | nil => rfl
  | cons node rest ih => rw [List.cons_append, occurrencesIn, ih, occurrencesIn, List.append_assoc]

theorem occurrencesIn_flatMap {α : Type} (values : List α) (trees : α → List Node) :
    occurrencesIn (values.flatMap trees) =
      values.flatMap fun value => occurrencesIn (trees value) := by
  induction values with
  | nil => rfl
  | cons value rest ih => rw [List.flatMap_cons, occurrencesIn_append, ih, List.flatMap_cons]

theorem Node.occurrences_eq (tree : Node) :
    tree.occurrences = tree.occurrence?.toList ++ occurrencesIn tree.parts := by
  cases tree <;> simp [occurrences, occurrence?, parts, occurrencesIn, occurrencesIn_append]

theorem Node.sizeOf_part {part tree : Node} (h : part ∈ tree.parts) :
    sizeOf part < sizeOf tree := by
  cases tree with
  | parenthesized | spread | exported | importSpecifier =>
      obtain rfl := List.mem_singleton.mp h
      simp +arith
  | array parts _ | object parts _ | «variables» _ parts _ | form _ parts _ =>
      have hlt := List.sizeOf_lt_of_mem (show part ∈ parts from h)
      simp only [array.sizeOf_spec, object.sizeOf_spec, Node.variables.sizeOf_spec, form.sizeOf_spec]
      omega
  | property _ _ key value _ =>
      obtain rfl | rfl : part = key ∨ part = value := by simpa [parts] using h
      all_goals simp +arith
  | call _ callee types values _ =>
      rcases List.mem_cons.mp h with rfl | h
      · simp +arith
      · rw [call.sizeOf_spec]
        rcases List.mem_append.mp h with h | h
        all_goals have hlt := List.sizeOf_lt_of_mem h; omega
  | declarator target type initial _ =>
      rcases List.mem_cons.mp h with rfl | h
      · simp +arith
      · rw [declarator.sizeOf_spec]
        rcases List.mem_append.mp h with h | h
        all_goals have hlt := List.sizeOf_lt_of_mem h; omega
  | importFrom _ specifiers _ attributes _ =>
      rw [importFrom.sizeOf_spec]
      rcases List.mem_append.mp h with h | h
      all_goals have hlt := List.sizeOf_lt_of_mem h; omega
  | _ => cases h

/-- **The names that are collected from a tree are those that stand anywhere inside it.** -/
theorem Node.mem_occurrences {tree : Node} {occurrence : Occurrence} :
    occurrence ∈ tree.occurrences ↔
      ∃ node : Node, node.Within tree ∧ node.occurrence? = some occurrence := by
  rw [tree.occurrences_eq, List.mem_append, Option.mem_toList, mem_occurrencesIn]
  constructor
  · rintro (h | ⟨part, hpart, h⟩)
    · exact ⟨tree, .self, h⟩
    · have := sizeOf_part hpart
      obtain ⟨node, hwithin, hnames⟩ := mem_occurrences.mp h
      exact ⟨node, .part hpart hwithin, hnames⟩
  · rintro ⟨node, _ | ⟨hpart, hwithin⟩, hnames⟩
    · exact .inl hnames
    · have := sizeOf_part hpart
      exact .inr ⟨_, hpart, mem_occurrences.mpr ⟨node, hwithin, hnames⟩⟩
termination_by sizeOf tree

theorem Program.mem_occurrences {program : Program} {occurrence : Occurrence} :
    occurrence ∈ program.occurrences ↔
      ∃ statement ∈ program.statements, occurrence ∈ statement.occurrences :=
  mem_occurrencesIn

/-! ## Statements one behind the other -/

/-- A statement covers a part of the text behind an origin, and its names are written there. -/
structure Node.StandsBehind (origin : Source) (node : Node) : Prop where
  nonempty : node.span.start < node.span.stop
  written : ∃ place, origin.Leads place ∧ place.offset = node.span.start ∧
    node.IsWritten place node.span.stop

variable {language : Language} {depth : Nat} {origin : Source}

theorem Node.StandsBehind.of_leads {source : Source} {node : Node} (horigin : origin.Leads source)
    (h : node.StandsBehind source) : node.StandsBehind origin :=
  have ⟨place, hplace, hwritten⟩ := h.written
  ⟨h.nonempty, place, horigin.trans hplace, hwritten⟩

/-- A name in a statement is written where the statement stands. -/
theorem Node.StandsBehind.writtenAt {node : Node} (h : node.StandsBehind origin)
    {occurrence : Occurrence} (hmem : occurrence ∈ node.occurrences) :
    node.span.start ≤ occurrence.start ∧
      WrittenAt origin node.span.stop occurrence.name occurrence.start := by
  obtain ⟨place, hplace, hoffset, hwritten⟩ := h.written
  obtain ⟨hstop, here, hhere, hstart, hwrites⟩ :=
    node.writtenAt_of_mem_occurrences hwritten occurrence hmem
  have hle := hhere.offset_le
  exact ⟨by omega, hstop, here, hplace.trans hhere, hstart, hwrites⟩

theorem standsBehind_itemAt {source next : Source} {node : Node}
    (h : itemAt? language depth (stateAt source) = some (node, next)) :
    node.StandsBehind source ∧ source.offset ≤ node.span.start ∧ node.span.stop = next.offset ∧
      source.Leads next := by
  obtain ⟨-, hspan, -, hleads, hpassed⟩ := covers_itemAt h
  have hbehind : source.Leads (stateAt source).here := (stateAt source).leads
  have hlt : (stateAt source).here.offset < next.offset := by
    obtain ⟨passed, hrest, hoffset⟩ := Source.leads_iff.mp hleads
    cases passed with
    | nil => simp [hrest] at hpassed
    | cons c passed =>
        have hwidth := Text.Utf8.length_encodeChar_pos c
        rw [Text.Utf8.size_cons] at hoffset
        omega
  have hstart : node.span.start = (stateAt source).here.offset := congrArg Span.start hspan
  have hstop : node.span.stop = next.offset := congrArg Span.stop hspan
  refine ⟨⟨by omega, (stateAt source).here, hbehind, hstart.symm, ?_⟩,
    hstart ▸ hbehind.offset_le, hstop, hbehind.trans hleads⟩
  unfold itemAt? at h
  split at h
  · cases h
  · obtain ⟨reply, hreply, h⟩ := Option.bind_eq_some_iff.mp h
    dsimp only at h
    split at h
    · cases h
      have hrun : (grammar depth .item).run (topLevel language) (stateAt source) =
          some (reply.value, reply.after) := by rw [Parser.run, hreply]; rfl
      exact spells_grammar depth .item _ _ (.refl _) _ _ hrun (Nat.le_of_eq hstop.symm)
    · cases h

theorem standBehind_items {fuel : Nat} {source : Source} {items : List Node}
    (h : scriptItems language depth fuel source = some items) :
    (∀ node ∈ items, node.StandsBehind source ∧ source.offset ≤ node.span.start) ∧
      items.Pairwise fun first second => first.span.stop ≤ second.span.start := by
  induction items generalizing fuel source with
  | nil => exact ⟨nofun, .nil⟩
  | cons node others ih =>
      cases fuel with
      | zero => cases h
      | succ fuel =>
          obtain ⟨next, hitem, hothers⟩ := scriptItems_eq_cons_iff.mp h
          obtain ⟨hnode, hstart, hstop, hleads⟩ := standsBehind_itemAt hitem
          obtain ⟨hbehind, hordered⟩ := ih hothers
          refine ⟨List.forall_mem_cons.mpr ⟨⟨hnode, hstart⟩, fun other hother => ?_⟩,
            .cons (fun other hother => hstop ▸ (hbehind other hother).2) hordered⟩
          obtain ⟨hstands, hle⟩ := hbehind other hother
          exact ⟨hstands.of_leads hleads, Nat.le_trans hleads.offset_le hle⟩

/-- The statements of a script stand one behind the other. -/
structure Program.Laid (language : Language) (origin : Source) (program : Program) : Prop where
  stands : ∀ statement ∈ program.statements, statement.StandsBehind origin
  binds : ∀ statement ∈ program.statements, statement.BindsName (topLevel language)
  ordered : program.statements.Pairwise fun first second => first.span.stop ≤ second.span.start

/-- **The statements of a script that is read stand one behind the other, with their names.** -/
theorem Program.exists_laid {text : String} {program : Program}
    (h : Program.read? language text = some program) : ∃ origin, program.Laid language origin := by
  obtain ⟨items, hitems, h⟩ := Option.bind_eq_some_iff.mp h
  split at h
  · cases h
  · cases h
    obtain ⟨hstands, hordered⟩ := standBehind_items hitems
    obtain ⟨pieces, tail, -, -, -, -, -, hbinds⟩ := exists_pieces hitems
    exact ⟨_, fun node hnode => (hstands node (List.mem_of_mem_drop hnode)).1,
      fun node hnode => hbinds node (List.mem_of_mem_drop hnode),
      hordered.sublist (List.drop_sublist _ _)⟩

namespace Program.Laid

variable {program : Program} {first second : Node}

/-- Two statements are the same if neither ends in front of the other. -/
theorem eq_of_overlap (h : program.Laid language origin) (hfirst : first ∈ program.statements)
    (hsecond : second ∈ program.statements) (hafter : first.span.start < second.span.stop)
    (hbefore : second.span.start < first.span.stop) : first = second := by
  obtain ⟨i, hi, rfl⟩ := List.getElem_of_mem hfirst
  obtain ⟨j, hj, rfl⟩ := List.getElem_of_mem hsecond
  rcases Nat.lt_trichotomy i j with hlt | rfl | hlt
  · have hle := List.pairwise_iff_getElem.mp h.ordered i j hi hj hlt
    omega
  · rfl
  · have hle := List.pairwise_iff_getElem.mp h.ordered j i hj hi hlt
    omega

/-- No two statements start at the same byte. -/
theorem eq_of_start (h : program.Laid language origin) (hfirst : first ∈ program.statements)
    (hsecond : second ∈ program.statements) (hstart : first.span.start = second.span.start) :
    first = second := by
  have hnonempty := (h.stands first hfirst).nonempty
  have hnonempty' := (h.stands second hsecond).nonempty
  exact h.eq_of_overlap hfirst hsecond (by omega) (by omega)

/-- No two statements have a name at the same byte. -/
theorem eq_of_occurs (h : program.Laid language origin) {occurrence other : Occurrence}
    (hfirst : first ∈ program.statements) (hsecond : second ∈ program.statements)
    (hoccurs : occurrence ∈ first.occurrences) (hother : other ∈ second.occurrences)
    (hstart : occurrence.start = other.start) : first = second := by
  obtain ⟨hle, hlt, -⟩ := (h.stands first hfirst).writtenAt hoccurs
  obtain ⟨hle', hlt', -⟩ := (h.stands second hsecond).writtenAt hother
  exact h.eq_of_overlap hfirst hsecond (by omega) (by omega)

/-- **No two names of a script start at the same byte.** -/
theorem eq_of_start_eq (h : program.Laid language origin) {occurrence other : Occurrence}
    (hoccurs : occurrence ∈ program.occurrences) (hother : other ∈ program.occurrences)
    (hname : isName occurrence.name.toList) (hname' : isName other.name.toList)
    (hstart : occurrence.start = other.start) : occurrence = other := by
  obtain ⟨first, hfirst, hoccurs⟩ := mem_occurrences.mp hoccurs
  obtain ⟨second, hsecond, hother⟩ := mem_occurrences.mp hother
  obtain ⟨-, -, place, hplace, hoffset, hwrites⟩ := (h.stands first hfirst).writtenAt hoccurs
  obtain ⟨-, -, place', hplace', hoffset', hwrites'⟩ := (h.stands second hsecond).writtenAt hother
  obtain rfl := hplace.eq_of_offset hplace' (by omega)
  obtain ⟨name, start⟩ := occurrence
  obtain rfl : name = other.name := hwrites.unique hwrites' hname hname'
  obtain rfl : start = other.start := hstart
  rfl

end Program.Laid

end FontHosting.Script
