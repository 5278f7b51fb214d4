import FontHosting.Config.Setting
import FontHosting.Proofs.Table

/-!
# Settings that are laid over each other

Of two tables that are laid over each other, the later one decides about every key that it has;
where both have a table, these are laid over each other in turn (`find?_mergeEntries`).  The tables
that documents give have each key once (`areSorted_ofToml`, `areSorted_ofJson`).
-/

namespace FontHosting.Table

variable {α : Type}

/-! ## Keys -/

theorem find?_isSome_iff {key : String} {entries : List (String × α)} :
    (find? key entries).isSome ↔ key ∈ entries.map Prod.fst := by
  induction entries with
  | nil => simp [find?]
  | cons entry rest ih => by_cases h : key = entry.1 <;> simp_all [find?]

theorem find?_eq_none {key : String} {entries : List (String × α)}
    (h : key ∉ entries.map Prod.fst) : find? key entries = none := by
  rw [← Option.not_isSome_iff_eq_none, find?_isSome_iff]
  exact h

theorem nodup_keys {entries : List (String × α)}
    (h : entries.Pairwise fun a b => a.1 < b.1) : (entries.map Prod.fst).Nodup := by
  refine List.pairwise_map.mpr (h.imp fun hlt heq => ?_)
  rw [heq] at hlt
  exact String.lt_irrefl _ hlt

/-- Entries in the order of their keys are the keys with their values. -/
theorem mem_iff_find? {entries : List (String × α)} (h : entries.Pairwise fun a b => a.1 < b.1)
    {key : String} {value : α} : (key, value) ∈ entries ↔ find? key entries = some value :=
  show (key, value) ∈ (Table.mk entries h).entries ↔ _ from mem_entries_iff

/-- Where each key is there once, the table of the entries gives it the value it has there. -/
theorem get?_ofList_of_nodup {entries : List (String × α)} (h : (entries.map Prod.fst).Nodup)
    (key : String) : (ofList entries).get? key = find? key entries := by
  rw [get?_ofList]
  induction entries with
  | nil => rfl
  | cons entry rest ih =>
      obtain ⟨hentry, hrest⟩ := List.nodup_cons.mp h
      rw [List.reverse_cons, List.find?_append, Option.map_or, ih hrest, find?]
      by_cases hkey : key = entry.1
      · subst hkey
        simp [find?_eq_none hentry]
      · simp [hkey]

/-- A table with another one laid over it. -/
def overlay (earlier later : Table α) : Table α :=
  later.entries.foldl (fun table entry => table.insert entry.1 entry.2) earlier

/-- The later table decides about the keys that it has. -/
theorem get?_overlay (earlier later : Table α) (key : String) :
    (earlier.overlay later).get? key = (later.get? key).or (earlier.get? key) := by
  rw [overlay, get?_foldl_insert, ← get?_ofList, get?_ofList_of_nodup (nodup_keys later.sorted)]
  rfl

end FontHosting.Table

namespace FontHosting.Config.Setting

open Table (find? insertInto find?_insertInto)

/-! ## Merged tables -/

/-- A setting laid over another one, if there is one. -/
def laidOver (setting : Setting) : Option Setting → Setting
  | some earlier => earlier.merge setting
  | none => setting

theorem mergeEntries_cons (entries : List (String × Setting)) (key : String) (setting : Setting)
    (rest : List (String × Setting)) :
    mergeEntries entries ((key, setting) :: rest) =
      mergeEntries (insertInto key (setting.laidOver (find? key entries)) entries) rest := by
  rw [mergeEntries]
  cases find? key entries <;> rfl

/-- **A key has the later setting**, laid over the earlier one. -/
theorem find?_mergeEntries {entries later : List (String × Setting)}
    (hkeys : (later.map Prod.fst).Nodup) (key : String) :
    find? key (mergeEntries entries later) =
      match find? key later with
      | some setting => some (setting.laidOver (find? key entries))
      | none => find? key entries := by
  induction later generalizing entries with
  | nil => rw [mergeEntries]; rfl
  | cons first rest ih =>
      obtain ⟨name, setting⟩ := first
      obtain ⟨hfirst, hrest⟩ := List.nodup_cons.mp hkeys
      rw [mergeEntries_cons, ih hrest, find?_insertInto]
      by_cases hkey : key = name
      · subst hkey
        simp [find?, Table.find?_eq_none hfirst]
      · simp [find?, hkey]

theorem pairwise_mergeEntries {entries : List (String × Setting)}
    (hentries : entries.Pairwise fun a b => a.1 < b.1) (later : List (String × Setting)) :
    (mergeEntries entries later).Pairwise fun a b => a.1 < b.1 := by
  induction later generalizing entries with
  | nil => rwa [mergeEntries]
  | cons first rest ih =>
      rw [mergeEntries_cons]
      exact ih (Table.pairwise_insertInto _ _ hentries)

/-- The keys of tables laid over each other are the keys of both. -/
theorem mem_keys_mergeEntries {entries later : List (String × Setting)}
    (hkeys : (later.map Prod.fst).Nodup) {key : String} :
    key ∈ (mergeEntries entries later).map Prod.fst ↔
      key ∈ entries.map Prod.fst ∨ key ∈ later.map Prod.fst := by
  rw [← Table.find?_isSome_iff, ← Table.find?_isSome_iff, ← Table.find?_isSome_iff,
    find?_mergeEntries hkeys]
  cases find? key later with
  | none => simp
  | some setting => simp

/-! ## Documents -/

theorem pairwise_sorted (entries : List (String × Setting)) :
    (sorted entries).Pairwise fun a b => a.1 < b.1 := by
  unfold sorted
  induction entries using List.reverseRecOn with
  | nil => exact .nil
  | append_singleton entries entry ih =>
      rw [List.foldl_append]
      exact Table.pairwise_insertInto _ _ ih

theorem mem_of_mem_sorted {entries : List (String × Setting)} {entry : String × Setting}
    (h : entry ∈ sorted entries) : entry ∈ entries := by
  unfold sorted at h
  induction entries using List.reverseRecOn with
  | nil => exact h
  | append_singleton entries last ih =>
      rw [List.foldl_append] at h
      rcases Table.mem_insertInto h with rfl | h
      · exact List.mem_append_right _ List.mem_cons_self
      · exact List.mem_append_left _ (ih h)

/-- Whether a setting has no key twice if it is a table. -/
def IsSorted (setting : Setting) : Prop :=
  ∀ source entries, setting = .table source entries → entries.Pairwise fun a b => a.1 < b.1

/-- Whether a table and the tables that are its entries have no key twice. -/
def AreSorted (entries : List (String × Setting)) : Prop :=
  entries.Pairwise (fun a b => a.1 < b.1) ∧ ∀ entry ∈ entries, entry.2.IsSorted

theorem isSorted_ofToml (value : Toml.Value) : (ofToml value).IsSorted := by
  intro source entries h
  cases value with
  | moment written =>
      cases h
      exact List.pairwise_singleton _ _
  | table entries =>
      cases h
      exact pairwise_sorted _
  | _ => cases h

theorem isSorted_ofJson (value : Json.Value) : (ofJson value).IsSorted := by
  intro source entries h
  cases value with
  | object fields =>
      cases h
      exact pairwise_sorted _
  | number number => cases number <;> cases h
  | _ => cases h

theorem exists_of_mem_ofTomlEntries {entries : List (String × Toml.Value)}
    {entry : String × Setting} (h : entry ∈ ofTomlEntries entries) :
    ∃ value, entry.2 = ofToml value := by
  induction entries with
  | nil => cases h
  | cons first rest ih =>
      rcases List.mem_cons.mp h with rfl | h
      · exact ⟨_, rfl⟩
      · exact ih h

theorem exists_of_mem_ofJsonFields {fields : List (String × Json.Value)}
    {entry : String × Setting} (h : entry ∈ ofJsonFields fields) :
    ∃ value, entry.2 = ofJson value := by
  induction fields with
  | nil => cases h
  | cons first rest ih =>
      rcases List.mem_cons.mp h with rfl | h
      · exact ⟨_, rfl⟩
      · exact ih h

theorem areSorted_ofToml (entries : List (String × Toml.Value)) :
    AreSorted (sorted (ofTomlEntries entries)) := by
  refine ⟨pairwise_sorted _, fun entry hentry => ?_⟩
  obtain ⟨value, hvalue⟩ := exists_of_mem_ofTomlEntries (mem_of_mem_sorted hentry)
  exact hvalue ▸ isSorted_ofToml value

theorem areSorted_ofJson (fields : List (String × Json.Value)) :
    AreSorted (sorted (ofJsonFields fields)) := by
  refine ⟨pairwise_sorted _, fun entry hentry => ?_⟩
  obtain ⟨value, hvalue⟩ := exists_of_mem_ofJsonFields (mem_of_mem_sorted hentry)
  exact hvalue ▸ isSorted_ofJson value

end FontHosting.Config.Setting
