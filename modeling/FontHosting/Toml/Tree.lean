import FontHosting.Toml.Value

/-!
# The tables of a document

A TOML document names its tables in headers and in keys with points.  A table may be
named once, except that a header may come after those of its parts.
-/

namespace FontHosting.Toml

/-- How a table came to be. -/
inductive Origin where
  /-- Only parts of it were named by headers. -/
  | implied
  /-- It was named by a key with points. -/
  | dotted
  /-- It has a header. -/
  | named
  deriving DecidableEq

/-- A document while it is read. -/
inductive Node where
  | leaf (value : Value)
  | table (origin : Origin) (entries : List (String × Node))
  /-- A list of tables with a header each, the latest first. -/
  | tables (items : List (List (String × Node)))

/-- The entries of a table. -/
abbrev Entries := List (String × Node)

/-- Change the entry of a key, or make one. -/
def alter (key : String) (change : Option Node → Option Node) : Entries → Option Entries
  | [] => (change none).map fun node => [(key, node)]
  | (other, node) :: rest =>
      if other = key then (change (some node)).map fun node => (other, node) :: rest
      else (alter key change rest).map ((other, node) :: ·)

/-- Change the entries of the table that a header names. -/
def within (change : Entries → Option Entries) : List String → Entries → Option Entries
  | [], entries => change entries
  | key :: rest, entries =>
      alter key (fun
        | none => (within change rest []).map (Node.table .implied)
        | some (.table origin inner) => (within change rest inner).map (Node.table origin)
        | some (.tables (latest :: earlier)) =>
            (within change rest latest).map fun latest => .tables (latest :: earlier)
        | _ => none) entries

/-- Give a value to a key with points. -/
def assign (value : Value) : List String → Entries → Option Entries
  | [], _ => none
  | [key], entries =>
      alter key (fun
        | none => some (.leaf value)
        | some _ => none) entries
  | key :: rest, entries =>
      alter key (fun
        | none => (assign value rest []).map (Node.table .dotted)
        | some (.table .dotted inner) => (assign value rest inner).map (Node.table .dotted)
        | _ => none) entries

/-- Start the table of a header. -/
def startTable (path : List String) (root : Entries) : Option Entries :=
  match path.getLast? with
  | none => none
  | some key =>
      within (alter key fun
        | none => some (.table .named [])
        | some (.table .implied inner) => some (.table .named inner)
        | _ => none) path.dropLast root

/-- Start the next table of a list of tables. -/
def startListed (path : List String) (root : Entries) : Option Entries :=
  match path.getLast? with
  | none => none
  | some key =>
      within (alter key fun
        | none => some (.tables [[]])
        | some (.tables items) => some (.tables ([] :: items))
        | _ => none) path.dropLast root

mutual

/-- The value that a part of a document stands for. -/
def Node.value : Node → Value
  | .leaf value => value
  | .table _ entries => .table (entryValues entries)
  | .tables items => .list (itemValues items).reverse

/-- The values of entries. -/
def entryValues : List (String × Node) → List (String × Value)
  | [] => []
  | (key, node) :: rest => (key, node.value) :: entryValues rest

/-- The values of tables. -/
def itemValues : List (List (String × Node)) → List Value
  | [] => []
  | entries :: rest => .table (entryValues entries) :: itemValues rest

end

end FontHosting.Toml
