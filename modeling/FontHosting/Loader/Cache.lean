import FontHosting.Table

/-!
# Caches of downloads

A cache hands every download out once: who asks for a key that is there takes its
entry away, and who asks for one that is not fetches it and leaves the outcome, a
failure too, for the next one.
-/

namespace FontHosting.Loader

/-- Outcomes of downloads; a failed one has no value. -/
abbrev Cache (α : Type) := Table (Option α)

/-- What a look into a cache gives. -/
structure Cache.Answer (α : Type) where
  value : Option α
  /-- Whether the value had to be fetched. -/
  fetched : Bool
  cache : Cache α

/-- Take the entry of a key away, or else leave the outcome of fetching it. -/
def Cache.takeOrFetch {α : Type} (cache : Cache α) (key : String) (outcome : Option α) :
    Cache.Answer α :=
  match cache.get? key with
  | some stored => ⟨stored, false, cache.erase key⟩
  | none => ⟨outcome, true, cache.insert key outcome⟩

end FontHosting.Loader
