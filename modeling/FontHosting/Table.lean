/-!
# Tables

A table gives at most one value to each key.  Its entries are kept in the order
of their keys, so two tables with the same values are the same table, and reading
the entries one after the other gives a list that does not depend on the history.
-/

namespace FontHosting

/-- Values under keys, in the order of the keys. -/
structure Table (α : Type) where
  entries : List (String × α)
  sorted : entries.Pairwise fun a b => a.1 < b.1

namespace Table

variable {α : Type}

/-- The table without entries. -/
def empty : Table α := ⟨[], List.Pairwise.nil⟩

instance : Inhabited (Table α) := ⟨empty⟩

/-- The value of a key in a list of entries. -/
def find? (key : String) : List (String × α) → Option α
  | [] => none
  | entry :: rest => if key = entry.1 then some entry.2 else find? key rest

/-- The value of a key. -/
def get? (table : Table α) (key : String) : Option α :=
  find? key table.entries

/-- Whether a key has a value. -/
def contains (table : Table α) (key : String) : Bool :=
  (table.get? key).isSome

/-- The keys, in order. -/
def keys (table : Table α) : List String :=
  table.entries.map Prod.fst

/-- The values, in the order of their keys. -/
def values (table : Table α) : List α :=
  table.entries.map Prod.snd

/-- Whether there is no entry. -/
def isEmpty (table : Table α) : Bool :=
  table.entries.isEmpty

/-- The number of entries. -/
def size (table : Table α) : Nat :=
  table.entries.length

/-- Entries with one more, or with another value for a key they have. -/
def insertInto (key : String) (value : α) : List (String × α) → List (String × α)
  | [] => [(key, value)]
  | entry :: rest =>
      if key < entry.1 then (key, value) :: entry :: rest
      else if key = entry.1 then (key, value) :: rest
      else entry :: insertInto key value rest

theorem mem_insertInto {key : String} {value : α} {entries : List (String × α)}
    {entry : String × α} (h : entry ∈ insertInto key value entries) :
    entry = (key, value) ∨ entry ∈ entries := by
  induction entries with
  | nil => simpa [insertInto] using h
  | cons first rest ih =>
      simp only [insertInto] at h
      split at h
      · simpa using h
      · split at h
        · rcases List.mem_cons.1 h with h | h
          · exact .inl h
          · exact .inr (List.mem_cons_of_mem _ h)
        · rcases List.mem_cons.1 h with h | h
          · exact .inr (h ▸ List.mem_cons_self)
          · rcases ih h with h | h
            · exact .inl h
            · exact .inr (List.mem_cons_of_mem _ h)

theorem pairwise_insertInto (key : String) (value : α) {entries : List (String × α)}
    (sorted : entries.Pairwise fun a b => a.1 < b.1) :
    (insertInto key value entries).Pairwise fun a b => a.1 < b.1 := by
  induction entries with
  | nil => simp [insertInto]
  | cons first rest ih =>
      obtain ⟨above, sortedRest⟩ := List.pairwise_cons.1 sorted
      simp only [insertInto]
      split
      · rename_i below
        refine List.pairwise_cons.2 ⟨fun entry member => ?_, sorted⟩
        rcases List.mem_cons.1 member with rfl | member
        · exact below
        · exact String.lt_trans below (above entry member)
      · split
        · rename_i same
          exact List.pairwise_cons.2 ⟨fun entry member => same ▸ above entry member, sortedRest⟩
        · rename_i notBelow notSame
          refine List.pairwise_cons.2 ⟨fun entry member => ?_, ih sortedRest⟩
          rcases mem_insertInto member with rfl | member
          · grind
          · exact above entry member

/-- Give a value to a key. -/
def insert (table : Table α) (key : String) (value : α) : Table α :=
  ⟨insertInto key value table.entries, pairwise_insertInto key value table.sorted⟩

/-- The entries that satisfy a condition. -/
def filter (table : Table α) (keep : String → α → Bool) : Table α :=
  ⟨table.entries.filter fun entry => keep entry.1 entry.2, table.sorted.filter _⟩

/-- Take the value of a key away. -/
def erase (table : Table α) (key : String) : Table α :=
  table.filter fun other _ => other != key

/-- Every value replaced by the one that a function gives for it. -/
def map {β : Type} (table : Table α) (change : α → β) : Table β :=
  ⟨table.entries.map fun entry => (entry.1, change entry.2),
    List.pairwise_map.2 table.sorted⟩

/-- The table with the given entries, a later one winning over an earlier one of the
same key. -/
def ofList (entries : List (String × α)) : Table α :=
  entries.foldl (fun table entry => table.insert entry.1 entry.2) empty

/-! ## Looking up -/

theorem get?_empty (key : String) : (empty : Table α).get? key = none := rfl

theorem find?_insertInto (key other : String) (value : α) (entries : List (String × α)) :
    find? other (insertInto key value entries) =
      if other = key then some value else find? other entries := by
  induction entries with
  | nil => simp [insertInto, find?]
  | cons first rest ih =>
      simp only [insertInto]
      split
      · simp [find?]
      · split
        · rename_i same
          by_cases h : other = key <;> simp [find?, h, ← same]
        · rename_i notSame
          by_cases h : other = first.1
          · simp [find?, h, Ne.symm notSame]
          · simp [find?, h, ih]

@[simp] theorem get?_insert (table : Table α) (key other : String) (value : α) :
    (table.insert key value).get? other = if other = key then some value else table.get? other :=
  find?_insertInto key other value table.entries

theorem find?_filter_ne (key other : String) (entries : List (String × α)) :
    find? other (entries.filter fun entry => entry.1 != key) =
      if other = key then none else find? other entries := by
  induction entries with
  | nil => simp [find?]
  | cons first rest ih =>
      by_cases same : first.1 = key
      · by_cases h : other = key <;> simp_all [find?]
      · by_cases h : other = first.1
        · simp [find?, same, h]
        · simp [find?, same, h, ih]

@[simp] theorem get?_erase (table : Table α) (key other : String) :
    (table.erase key).get? other = if other = key then none else table.get? other :=
  find?_filter_ne key other table.entries

theorem find?_map {β : Type} (key : String) (change : α → β) (entries : List (String × α)) :
    find? key (entries.map fun entry => (entry.1, change entry.2)) =
      (find? key entries).map change := by
  induction entries with
  | nil => rfl
  | cons first rest ih => by_cases h : key = first.1 <;> simp [find?, h, ih]

@[simp] theorem get?_map {β : Type} (table : Table α) (change : α → β) (key : String) :
    (table.map change).get? key = (table.get? key).map change :=
  find?_map key change table.entries

end Table

end FontHosting
