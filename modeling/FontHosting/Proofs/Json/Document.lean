import FontHosting.Proofs.Json.Token
import Mathlib.Data.List.Induction

/-!
# Documents are read back

A document that is written is read as the same document, its fields in the same order, if it is
nested no deeper than allowed, its numbers are whole and its objects have each key once
(`Value.FitsWithin`): `Value.read?_render`.

The induction is on the depth, since the items of a list and the fields of an object only have
to be read one level below.  The reader's fuel counts values and separators, which are at most
twice as many as the characters of the text.
-/

namespace FontHosting.Json

/-! ## Fields -/

theorem Fields.insert_eq_append {fields : Fields} {key : String}
    (hkey : key ∉ fields.map Prod.fst) (value : Value) :
    fields.insert key value = fields ++ [(key, value)] := by
  induction fields with
  | nil => rfl
  | cons field rest ih =>
      rw [List.map_cons, List.mem_cons, not_or] at hkey
      rw [insert, if_neg (Ne.symm hkey.1), ih hkey.2, List.cons_append]

/-- Fields with distinct keys stay what they are. -/
theorem Fields.ofList_eq_self {fields : Fields} (hkeys : (fields.map Prod.fst).Nodup) :
    Fields.ofList fields = fields := by
  unfold ofList
  induction fields using List.reverseRecOn with
  | nil => rfl
  | append_singleton fields field ih =>
      rw [List.map_append, List.map_singleton, List.nodup_append] at hkeys
      obtain ⟨hkeys, -, hdisjoint⟩ := hkeys
      rw [List.foldl_append, ih hkeys]
      refine insert_eq_append (fun hmem => ?_) field.2
      exact hdisjoint _ hmem _ (List.mem_singleton.mpr rfl) rfl

theorem Fields.mem_map_insert {fields : Fields} {key name : String} {value : Value} :
    name ∈ (fields.insert key value).map Prod.fst ↔ name ∈ fields.map Prod.fst ∨ name = key := by
  induction fields with
  | nil => simp [insert]
  | cons field rest ih =>
      by_cases hkey : field.1 = key
      · simp only [insert, hkey, if_true, List.map_cons, List.mem_cons]
        exact ⟨.inl, fun h => h.elim id .inl⟩
      · simp only [insert, hkey, if_false, List.map_cons, List.mem_cons, ih, or_assoc]

theorem Fields.nodup_insert {fields : Fields} (hkeys : (fields.map Prod.fst).Nodup) (key : String)
    (value : Value) : ((fields.insert key value).map Prod.fst).Nodup := by
  induction fields with
  | nil => simp [insert]
  | cons field rest ih =>
      obtain ⟨hfirst, hrest⟩ := List.nodup_cons.mp hkeys
      by_cases hkey : field.1 = key
      · rw [insert, if_pos hkey]
        exact List.nodup_cons.mpr ⟨hkey ▸ hfirst, hrest⟩
      · rw [insert, if_neg hkey]
        refine List.nodup_cons.mpr ⟨fun hmem => ?_, ih hrest⟩
        exact (mem_map_insert.mp hmem).elim hfirst hkey

theorem Fields.mem_insert {fields : Fields} {key : String} {value : Value}
    {field : String × Value} (h : field ∈ fields.insert key value) :
    field ∈ fields ∨ field = (key, value) := by
  induction fields with
  | nil => exact .inr (List.mem_singleton.mp h)
  | cons first rest ih =>
      unfold insert at h
      split at h
      · exact (List.mem_cons.mp h).symm.imp_left (List.mem_cons_of_mem _)
      · rcases List.mem_cons.mp h with rfl | hrest
        · exact .inl List.mem_cons_self
        · exact (ih hrest).imp_left (List.mem_cons_of_mem _)

/-- An object has each key once, and no field that was not written. -/
theorem Fields.nodup_ofList (written : List (String × Value)) :
    ((Fields.ofList written).map Prod.fst).Nodup ∧
      ∀ field ∈ Fields.ofList written, field ∈ written := by
  unfold ofList
  induction written using List.reverseRecOn with
  | nil => exact ⟨List.nodup_nil, nofun⟩
  | append_singleton written field ih =>
      rw [List.foldl_append]
      refine ⟨nodup_insert ih.1 _ _, fun other hother => ?_⟩
      rcases mem_insert hother with hbefore | rfl
      · exact List.mem_append_left _ (ih.2 other hbefore)
      · exact List.mem_append_right _ (List.mem_singleton.mpr rfl)

/-! ## What is read back -/

/-- Whether a document is nested at most `depth` deep, has no numbers but whole ones of 64 bits,
and has each key of an object once. -/
def Value.FitsWithin : Nat → Value → Prop
  | _, .null | _, .boolean _ | _, .text _ => True
  | _, .number (.whole value) => value.natAbs < 0x8000000000000000
  | _, .number (.real _) => False
  | 0, .list _ | 0, .object _ => False
  | depth + 1, .list items => ∀ item ∈ items, item.FitsWithin depth
  | depth + 1, .object fields =>
      (fields.map Prod.fst).Nodup ∧ ∀ field ∈ fields, field.2.FitsWithin depth

/-- Whether a value is read back where no number goes on behind it. -/
def Value.ReadsBack (depth : Nat) (value : Value) : Prop :=
  ∀ fuel rest, 2 * value.render.length ≤ fuel → EndsNumber rest →
    readValue fuel depth (value.render ++ rest) = some (value, rest)

theorem skipSpace_cons {c : Char} (hc : isSpace c = false) (rest : List Char) :
    skipSpace (c :: rest) = c :: rest :=
  List.dropWhile_cons_of_neg (by simp [hc])

theorem endsNumber_cons {c : Char} (hc : c = ',' ∨ c = ']' ∨ c = '}') (rest : List Char) :
    EndsNumber (c :: rest) := by
  rintro _ ⟨⟩
  rcases hc with rfl | rfl | rfl <;> decide

/-- A written value starts with a character that is neither a blank nor a closing bracket. -/
theorem Value.exists_render_cons {depth : Nat} {value : Value} (h : value.FitsWithin depth) :
    ∃ c rest, value.render = c :: rest ∧ isSpace c = false ∧ c ≠ ']' := by
  cases value with
  | null => exact ⟨_, _, rfl, by decide, by decide⟩
  | boolean value => cases value <;> exact ⟨_, _, rfl, by decide, by decide⟩
  | text value => exact ⟨_, _, rfl, by decide, by decide⟩
  | list items => exact ⟨_, _, rfl, by decide, by decide⟩
  | object fields => exact ⟨_, _, rfl, by decide, by decide⟩
  | number value =>
      cases value with
      | real value => cases depth <;> cases h
      | whole value =>
          obtain ⟨c, rest, hrender, hc⟩ := exists_renderWhole_cons value
          refine ⟨c, rest, hrender, isSpace_eq_false hc, ?_⟩
          rintro rfl
          rcases hc with hc | hc <;> cases hc

/-- The items of a list are read back if each of them is. -/
theorem readItems_renderItems {depth : Nat} {items : List Value} (hne : items ≠ [])
    (hreads : ∀ item ∈ items, item.ReadsBack depth) {fuel : Nat}
    (hfuel : 2 * (renderItems items).length < fuel) (done : List Value) (rest : List Char) :
    readItems fuel depth done (renderItems items ++ ']' :: rest) =
      some (done.reverse ++ items, rest) := by
  induction items generalizing fuel done with
  | nil => exact (hne rfl).elim
  | cons item others ih =>
      obtain ⟨fuel, rfl⟩ := Nat.exists_eq_succ_of_ne_zero (Nat.ne_of_gt (Nat.zero_lt_of_lt hfuel))
      obtain ⟨hitem, hothers⟩ := List.forall_mem_cons.mp hreads
      cases others with
      | nil =>
          have hread := hitem fuel (']' :: rest) (Nat.le_of_lt_succ hfuel)
            (endsNumber_cons (.inr (.inl rfl)) rest)
          rw [readItems, renderItems, hread]
          simp [skipSpace_cons (show isSpace ']' = false by decide)]
      | cons second others =>
          have hlength : (renderItems (item :: second :: others)).length =
              item.render.length + 1 + (renderItems (second :: others)).length := by
            simp [renderItems]; omega
          have hread := hitem fuel (',' :: (renderItems (second :: others) ++ ']' :: rest))
            (by omega) (endsNumber_cons (.inl rfl) _)
          have hmore : 2 * (renderItems (second :: others)).length < fuel := by omega
          have hnext := ih (List.cons_ne_nil _ _) hothers hmore (item :: done)
          rw [readItems, renderItems, List.append_assoc, List.cons_append, hread]
          simp only [Option.bind_eq_bind, Option.bind_some,
            skipSpace_cons (show isSpace ',' = false by decide), hnext]
          simp
          exact nofun

theorem quote_append (text : String) (rest : List Char) :
    quote text.toList ++ rest = '"' :: (text.toList.flatMap escapeChar ++ '"' :: rest) := by
  simp [quote]

section
variable {depth fuel : Nat} {value : Value} (hvalue : value.ReadsBack depth)
  (hfuel : 2 * value.render.length ≤ fuel) (key : String) (done : List (String × Value))
  (rest : List Char)
include hvalue hfuel

/-- A field is read and the reader goes on behind the comma. -/
theorem readFields_comma :
    readFields (fuel + 1) depth done (quote key.toList ++ ':' :: (value.render ++ ',' :: rest)) =
      readFields fuel depth ((key, value) :: done) rest := by
  have hread := hvalue fuel (',' :: rest) hfuel (endsNumber_cons (.inl rfl) rest)
  rw [readFields, quote_append, skipSpace_cons (show isSpace '"' = false by decide)]
  simp only [readString_append, Option.bind_eq_bind, Option.bind_some, hread,
    skipSpace_cons (show isSpace ':' = false by decide),
    skipSpace_cons (show isSpace ',' = false by decide)]

/-- A field is read and the reader stops at the brace. -/
theorem readFields_brace :
    readFields (fuel + 1) depth done (quote key.toList ++ ':' :: (value.render ++ '}' :: rest)) =
      some (((key, value) :: done).reverse, rest) := by
  have hread := hvalue fuel ('}' :: rest) hfuel (endsNumber_cons (.inr (.inr rfl)) rest)
  rw [readFields, quote_append, skipSpace_cons (show isSpace '"' = false by decide)]
  simp only [readString_append, Option.bind_eq_bind, Option.bind_some, hread, pure,
    skipSpace_cons (show isSpace ':' = false by decide),
    skipSpace_cons (show isSpace '}' = false by decide)]

end

/-- The fields of an object are read back if the value of each of them is. -/
theorem readFields_renderFields {depth : Nat} {fields : List (String × Value)} (hne : fields ≠ [])
    (hreads : ∀ field ∈ fields, field.2.ReadsBack depth) {fuel : Nat}
    (hfuel : 2 * (renderFields fields).length < fuel) (done : List (String × Value))
    (rest : List Char) :
    readFields fuel depth done (renderFields fields ++ '}' :: rest) =
      some (done.reverse ++ fields, rest) := by
  induction fields generalizing fuel done with
  | nil => exact (hne rfl).elim
  | cons field others ih =>
      obtain ⟨fuel, rfl⟩ := Nat.exists_eq_succ_of_ne_zero (Nat.ne_of_gt (Nat.zero_lt_of_lt hfuel))
      obtain ⟨key, value⟩ := field
      have hvalue : value.ReadsBack depth := hreads _ List.mem_cons_self
      have hothers := fun field hmem => hreads field (List.mem_cons_of_mem _ hmem)
      cases others with
      | nil =>
          have hlength : value.render.length ≤ (renderFields [(key, value)]).length := by
            simp [renderFields]; omega
          rw [renderFields, List.append_assoc, List.cons_append,
            readFields_brace hvalue (by omega) key done rest, List.reverse_cons]
      | cons second others =>
          have hlength : value.render.length + (renderFields (second :: others)).length <
              (renderFields ((key, value) :: second :: others)).length := by
            simp [renderFields]; omega
          rw [renderFields, List.append_assoc, List.append_assoc, List.cons_append,
            List.cons_append, readFields_comma hvalue (by omega) key done _,
            ih (List.cons_ne_nil _ _) hothers (by omega), List.reverse_cons, List.append_assoc]
          · rfl
          · exact nofun

/-! ## Documents -/

theorem Value.readsBack_null (depth : Nat) : Value.null.ReadsBack depth := by
  intro fuel rest hfuel _
  obtain ⟨fuel, rfl⟩ := Nat.exists_eq_succ_of_ne_zero (show fuel ≠ 0 by rintro rfl; cases hfuel)
  rfl

theorem Value.readsBack_boolean (depth : Nat) (value : Bool) :
    (Value.boolean value).ReadsBack depth := by
  intro fuel rest hfuel _
  obtain ⟨fuel, rfl⟩ := Nat.exists_eq_succ_of_ne_zero
    (show fuel ≠ 0 by rintro rfl; cases value <;> cases hfuel)
  cases value <;> rfl

theorem Value.readsBack_text (depth : Nat) (value : String) :
    (Value.text value).ReadsBack depth := by
  intro fuel rest hfuel _
  obtain ⟨fuel, rfl⟩ := Nat.exists_eq_succ_of_ne_zero (show fuel ≠ 0 by rintro rfl; cases hfuel)
  rw [render, quote_append, readValue, skipSpace_cons (show isSpace '"' = false by decide)]
  simp only [readString_append, Option.bind_eq_bind, Option.bind_some, pure]

/-- Where a number starts, no other value does. -/
theorem readValue_number {fuel depth : Nat} {c : Char} (hc : c = '-' ∨ c.isDigit = true)
    (rest : List Char) : readValue (fuel + 1) depth (c :: rest) =
      (readNumber (c :: rest)).map fun (value, rest) => (.number value, rest) := by
  rw [readValue, skipSpace_cons (isSpace_eq_false hc)]
  split
  case h_8 => rfl
  all_goals
    rename_i heq
    cases heq <;> rcases hc with hc | hc <;> cases hc

theorem Value.readsBack_whole (depth : Nat) {value : Int}
    (hvalue : value.natAbs < 0x8000000000000000) :
    (Value.number (.whole value)).ReadsBack depth := by
  intro fuel rest hfuel hrest
  obtain ⟨c, digits, hrender, hc⟩ := exists_renderWhole_cons value
  have hread := readNumber_renderWhole hvalue hrest
  simp only [render, Number.render] at hfuel ⊢
  rw [hrender] at hread hfuel ⊢
  obtain ⟨fuel, rfl⟩ := Nat.exists_eq_succ_of_ne_zero
    (show fuel ≠ 0 by rintro rfl; simp at hfuel)
  rw [List.cons_append, readValue_number hc, ← List.cons_append, hread]
  rfl

/-- Behind its bracket a list ends or has items. -/
theorem readValue_bracket (fuel depth : Nat) (rest : List Char) :
    readValue (fuel + 1) (depth + 1) ('[' :: rest) =
      match skipSpace rest with
      | ']' :: rest => some (.list [], rest)
      | _ => do
          let (items, rest) ← readItems fuel depth [] rest
          return (.list items, rest) :=
  rfl

/-- Behind its brace an object ends or has fields. -/
theorem readValue_brace (fuel depth : Nat) (rest : List Char) :
    readValue (fuel + 1) (depth + 1) ('\x7b' :: rest) =
      match skipSpace rest with
      | '\x7d' :: rest => some (.object [], rest)
      | _ => do
          let (fields, rest) ← readFields fuel depth [] rest
          return (.object (Fields.ofList fields), rest) :=
  rfl

theorem Value.readsBack_list {depth : Nat} {items : List Value}
    (hfits : ∀ item ∈ items, item.FitsWithin depth)
    (hreads : ∀ item ∈ items, item.ReadsBack depth) :
    (Value.list items).ReadsBack (depth + 1) := by
  intro fuel rest hfuel _
  obtain ⟨fuel, rfl⟩ := Nat.exists_eq_succ_of_ne_zero (show fuel ≠ 0 by rintro rfl; cases hfuel)
  cases items with
  | nil => rfl
  | cons item others =>
      obtain ⟨c, more, hitem, hspace, hc⟩ :=
        Value.exists_render_cons (hfits item List.mem_cons_self)
      obtain ⟨more, hrender⟩ : ∃ more, renderItems (item :: others) = c :: more := by
        cases others <;> simp [renderItems, hitem]
      have hlength : 2 * (renderItems (item :: others)).length < fuel := by
        simp only [render, List.length_append, List.length_cons] at hfuel
        omega
      have hitems := readItems_renderItems (List.cons_ne_nil _ _) hreads hlength [] rest
      rw [render, List.cons_append, List.cons_append, List.append_assoc, List.singleton_append,
        readValue_bracket, hitems]
      rw [hrender, List.cons_append, skipSpace_cons hspace]
      split
      · rename_i heq
        exact (hc (List.cons.inj heq).1).elim
      · rfl

theorem Value.readsBack_object {depth : Nat} {fields : List (String × Value)}
    (hkeys : (fields.map Prod.fst).Nodup)
    (hreads : ∀ field ∈ fields, field.2.ReadsBack depth) :
    (Value.object fields).ReadsBack (depth + 1) := by
  intro fuel rest hfuel _
  obtain ⟨fuel, rfl⟩ := Nat.exists_eq_succ_of_ne_zero (show fuel ≠ 0 by rintro rfl; cases hfuel)
  cases fields with
  | nil => rfl
  | cons field others =>
      obtain ⟨more, hrender⟩ : ∃ more, renderFields (field :: others) = '"' :: more := by
        cases others <;> simp [renderFields, quote]
      have hlength : 2 * (renderFields (field :: others)).length < fuel := by
        simp only [render, List.length_append, List.length_cons] at hfuel
        omega
      have hfields := readFields_renderFields (List.cons_ne_nil _ _) hreads hlength [] rest
      rw [render, List.cons_append, List.cons_append, List.append_assoc, List.singleton_append,
        readValue_brace, hfields]
      rw [hrender, List.cons_append, skipSpace_cons (show isSpace '"' = false by decide)]
      simp [Fields.ofList_eq_self hkeys]

/-- **A value that fits is read back.** -/
theorem Value.FitsWithin.readsBack {depth : Nat} {value : Value} (h : value.FitsWithin depth) :
    value.ReadsBack depth := by
  induction depth generalizing value with
  | zero =>
      match value, h with
      | .null, _ => exact readsBack_null 0
      | .boolean value, _ => exact readsBack_boolean 0 value
      | .text value, _ => exact readsBack_text 0 value
      | .number (.whole value), h => exact readsBack_whole 0 h
  | succ depth ih =>
      match value, h with
      | .null, _ => exact readsBack_null _
      | .boolean value, _ => exact readsBack_boolean _ value
      | .text value, _ => exact readsBack_text _ value
      | .number (.whole value), h => exact readsBack_whole _ h
      | .list items, h => exact readsBack_list h fun item hitem => ih (h item hitem)
      | .object fields, h => exact readsBack_object h.1 fun field hfield => ih (h.2 field hfield)

/-- **A document that is written is read back.** -/
theorem Value.read?_render {value : Value} (h : value.FitsWithin maximalDepth) :
    Value.read? value.render = some value := by
  have hread := h.readsBack (2 * value.render.length + 2) [] (by omega) nofun
  rw [List.append_nil] at hread
  rw [read?, readWithin?, hread]
  rfl

end FontHosting.Json
