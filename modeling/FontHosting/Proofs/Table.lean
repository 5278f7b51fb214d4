import FontHosting.Table
import Mathlib.Data.List.Basic
import Mathlib.Data.List.Induction

/-!
# Entries of a table

A table is read by looking keys up, but some functions go through its entries.  Since
the keys are in order, the entries are exactly the keys with their values
(`mem_entries_iff`), so whatever is said about entries can be said about look-ups.
-/

namespace FontHosting.Table

variable {α β : Type}

/-! ## Entries and look-ups -/

theorem mem_of_find? {key : String} {value : α} {entries : List (String × α)}
    (h : find? key entries = some value) : (key, value) ∈ entries := by
  induction entries with
  | nil => simp [find?] at h
  | cons entry rest ih =>
      simp only [find?] at h
      split at h
      · rename_i heq
        obtain rfl : entry.2 = value := Option.some_inj.mp h
        exact heq ▸ List.mem_cons_self
      · exact List.mem_cons_of_mem _ (ih h)

private theorem find?_of_mem {key : String} {value : α} {entries : List (String × α)}
    (hsorted : entries.Pairwise fun a b => a.1 < b.1) (h : (key, value) ∈ entries) :
    find? key entries = some value := by
  induction entries with
  | nil => simp at h
  | cons entry rest ih =>
      obtain ⟨hbelow, hrest⟩ := List.pairwise_cons.mp hsorted
      rcases List.mem_cons.mp h with rfl | hmem
      · simp [find?]
      · have hne : key ≠ entry.1 := by
          intro heq
          exact String.lt_irrefl _ (heq ▸ hbelow (key, value) hmem)
        rw [find?, if_neg hne, ih hrest hmem]

/-- **The entries are the keys with their values.** -/
theorem mem_entries_iff {table : Table α} {key : String} {value : α} :
    (key, value) ∈ table.entries ↔ table.get? key = some value :=
  ⟨find?_of_mem table.sorted, mem_of_find?⟩

/-- Tables that give the same value to every key are the same table. -/
theorem ext_get? {first second : Table α} (h : ∀ key, first.get? key = second.get? key) :
    first = second := by
  have hnodup : ∀ table : Table α, table.entries.Nodup := by
    intro table
    refine table.sorted.imp fun hlt heq => ?_
    rw [heq] at hlt
    exact String.lt_irrefl _ hlt
  have hperm : first.entries.Perm second.entries := by
    refine (List.perm_ext_iff_of_nodup (hnodup first) (hnodup second)).mpr fun entry => ?_
    obtain ⟨key, value⟩ := entry
    rw [mem_entries_iff, mem_entries_iff, h]
  have hentries : first.entries = second.entries := by
    refine hperm.eq_of_pairwise (fun a b _ _ hab hba => ?_) first.sorted second.sorted
    exact absurd (String.lt_trans hab hba) (String.lt_irrefl _)
  cases first
  cases second
  cases hentries
  rfl

/-- To give a key the value that it has changes nothing. -/
theorem insert_eq_self {table : Table α} {key : String} {value : α}
    (h : table.get? key = some value) : table.insert key value = table := by
  refine ext_get? fun other => ?_
  rw [get?_insert]
  split
  · rename_i hother
    rw [hother, h]
  · rfl

/-- To take the value of a key away that has none changes nothing. -/
theorem erase_eq_self {table : Table α} {key : String} (h : table.get? key = none) :
    table.erase key = table := by
  refine ext_get? fun other => ?_
  rw [get?_erase]
  split
  · rename_i hother
    rw [hother, h]
  · rfl

theorem mem_values_iff {table : Table α} {value : α} :
    value ∈ table.values ↔ ∃ key, table.get? key = some value := by
  unfold values
  constructor
  · intro hmem
    obtain ⟨entry, hentry, rfl⟩ := List.mem_map.mp hmem
    exact ⟨entry.1, mem_entries_iff.mp hentry⟩
  · rintro ⟨key, hkey⟩
    exact List.mem_map.mpr ⟨(key, value), mem_entries_iff.mpr hkey, rfl⟩

theorem isEmpty_eq_false_iff {table : Table α} :
    table.isEmpty = false ↔ ∃ key value, table.get? key = some value := by
  unfold isEmpty
  cases hentries : table.entries with
  | nil =>
      have hnone : ∀ key, table.get? key = none := fun key => by
        unfold get?
        rw [hentries]
        rfl
      simp [hnone]
  | cons entry rest =>
      have hmem : (entry.1, entry.2) ∈ table.entries := hentries ▸ List.mem_cons_self
      simpa using ⟨entry.1, entry.2, mem_entries_iff.mp hmem⟩

/-! ## Keys that have a value -/

theorem contains_iff {table : Table α} {key : String} :
    table.contains key = true ↔ ∃ value, table.get? key = some value :=
  Option.isSome_iff_exists

theorem contains_insert {table : Table α} {key other : String} {value : α} :
    (table.insert key value).contains other = true ↔
      other = key ∨ table.contains other = true := by
  simp only [contains, get?_insert]
  by_cases h : other = key <;> simp [h]

theorem get?_foldl_insert (entries : List (String × α)) (table : Table α) (key : String) :
    (entries.foldl (fun table entry => table.insert entry.1 entry.2) table).get? key =
      ((entries.reverse.find? fun entry => key == entry.1).map Prod.snd).or (table.get? key) := by
  induction entries using List.reverseRecOn with
  | nil => rfl
  | append_singleton entries entry ih =>
      rw [List.foldl_append, List.reverse_append]
      by_cases h : key = entry.1 <;> simp [h, ih]

/-- The last entry with a key gives the value of the key. -/
theorem get?_ofList (entries : List (String × α)) (key : String) :
    (ofList entries).get? key =
      (entries.reverse.find? fun entry => key == entry.1).map Prod.snd := by
  rw [ofList, get?_foldl_insert, get?_empty, Option.or_none]

theorem contains_ofList {entries : List (String × α)} {key : String} :
    (ofList entries).contains key = true ↔ ∃ entry ∈ entries, entry.1 = key := by
  rw [contains, get?_ofList, Option.isSome_map, List.find?_isSome]
  simp only [List.mem_reverse, beq_iff_eq, @eq_comm _ key]

/-! ## Erasing several keys -/

theorem get?_foldl_erase (keys : List String) (table : Table α) (key : String) :
    (keys.foldl erase table).get? key = if key ∈ keys then none else table.get? key := by
  induction keys generalizing table with
  | nil => simp
  | cons first rest ih =>
      rw [List.foldl_cons, ih, get?_erase]
      by_cases hrest : key ∈ rest
      · simp [hrest]
      · by_cases hfirst : key = first <;> simp [hrest, hfirst]

end FontHosting.Table
