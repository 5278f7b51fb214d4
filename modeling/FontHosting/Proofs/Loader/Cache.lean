import FontHosting.Loader.Cache
import FontHosting.Proofs.Table
import Mathlib.Algebra.Ring.Parity

/-!
# Downloads are handed out once

A cache is empty at first, and from then on only `Cache.takeOrFetch` changes it.  What it holds
of a key then depends on nothing but the looks at that key (`get?_cacheAfter`): after an odd
number of them it is what the last one fetched, and after an even number nothing.  A failed
download is a value like any other here.

So the looks at a key come in pairs, of which the first one fetches and the second one takes
away what the first one left (`looks_take_turns`).  Put in numbers, what was fetched for a key
was handed out to a later look or is still there (`fetched_eq_handedOut_add_kept`).
-/

namespace FontHosting.Loader

/-- A look into a cache: for which key, and what fetching it comes to, if it has to be
fetched. -/
structure Look (α : Type) where
  key : String
  outcome : Option α
  deriving DecidableEq

namespace Cache

variable {α : Type}

/-- What a look into a cache gives. -/
def answer (cache : Cache α) (look : Look α) : Answer α :=
  cache.takeOrFetch look.key look.outcome

/-- A cache after a sequence of looks, empty at first. -/
def cacheAfter (looks : List (Look α)) : Cache α :=
  looks.foldl (fun cache look => (cache.answer look).cache) Table.empty

/-- The looks at one key. -/
def looksAt (key : String) (looks : List (Look α)) : List (Look α) :=
  looks.filter fun look => look.key == key

/-! ## One look -/

theorem answer_of_get?_eq_none {cache : Cache α} {look : Look α}
    (h : cache.get? look.key = none) :
    cache.answer look = ⟨look.outcome, true, cache.insert look.key look.outcome⟩ := by
  unfold answer takeOrFetch
  rw [h]

theorem answer_of_get?_eq_some {cache : Cache α} {look : Look α} {stored : Option α}
    (h : cache.get? look.key = some stored) :
    cache.answer look = ⟨stored, false, cache.erase look.key⟩ := by
  unfold answer takeOrFetch
  rw [h]

/-- **A look changes what is held of its own key only**: there is something afterwards exactly
if there was nothing before. -/
theorem get?_answer (cache : Cache α) (look : Look α) (key : String) :
    (cache.answer look).cache.get? key =
      if key = look.key then
        if (cache.get? key).isSome then none else some look.outcome
      else cache.get? key := by
  cases hget : cache.get? look.key with
  | none =>
      rw [answer_of_get?_eq_none hget, Table.get?_insert]
      split
      · rename_i hkey
        rw [hkey, hget, if_neg (by simp)]
      · rfl
  | some stored =>
      rw [answer_of_get?_eq_some hget, Table.get?_erase]
      split
      · rename_i hkey
        rw [hkey, hget]
        rfl
      · rfl

/-! ## Sequences of looks -/

theorem cacheAfter_append (looks : List (Look α)) (last : Look α) :
    cacheAfter (looks ++ [last]) = ((cacheAfter looks).answer last).cache := by
  unfold cacheAfter
  rw [List.foldl_append]
  rfl

theorem looksAt_ne_nil {looks : List (Look α)} {key : String}
    (hodd : Odd (looksAt key looks).length) : looksAt key looks ≠ [] := by
  rintro hnil
  rw [hnil] at hodd
  exact Nat.not_odd_zero hodd

theorem looksAt_append (key : String) (looks : List (Look α)) (last : Look α) :
    looksAt key (looks ++ [last]) =
      if key = last.key then looksAt key looks ++ [last] else looksAt key looks := by
  unfold looksAt
  rw [List.filter_append]
  split
  · rename_i hkey
    rw [hkey, List.filter_singleton, beq_self_eq_true]
    rfl
  · rename_i hkey
    rw [List.filter_singleton, beq_false_of_ne (Ne.symm hkey)]
    exact List.append_nil _

/-- **What a cache holds of a key is what the last look at it left**, if there was an odd number
of them. -/
theorem get?_cacheAfter (looks : List (Look α)) (key : String) :
    (cacheAfter looks).get? key =
      if Odd (looksAt key looks).length then
        (looksAt key looks).getLast?.map Look.outcome
      else none := by
  induction looks using List.reverseRecOn with
  | nil => rfl
  | append_singleton looks last ih =>
      rw [cacheAfter_append, get?_answer, looksAt_append]
      split
      · rw [List.length_append, List.length_singleton, List.getLast?_concat, ih]
        by_cases hodd : Odd (looksAt key looks).length
        · -- the look before left something, and this one takes it away
          rw [if_pos hodd, List.getLast?_eq_some_getLast (looksAt_ne_nil hodd),
            if_neg fun hnext => Nat.odd_add_one.mp hnext hodd]
          rfl
        · rw [if_neg hodd, if_pos (Nat.odd_add_one.mpr hodd)]
          rfl
      · exact ih

/-- A cache holds something of a key exactly after an odd number of looks at it. -/
theorem contains_cacheAfter {looks : List (Look α)} {key : String} :
    (cacheAfter looks).contains key = true ↔ Odd (looksAt key looks).length := by
  unfold Table.contains
  rw [get?_cacheAfter]
  split
  · rename_i hodd
    simp [List.getLast?_eq_some_getLast (looksAt_ne_nil hodd), hodd]
  · rename_i heven
    simp [heven]

/-- The last look at a key, with the looks at other keys behind it. -/
theorem exists_last_look {looks : List (Look α)} {key : String} {last : Look α}
    (h : (looksAt key looks).getLast? = some last) :
    ∃ before between, looks = before ++ last :: between ∧ last.key = key ∧
      (∀ other ∈ between, other.key ≠ key) ∧
      (looksAt key looks).length = (looksAt key before).length + 1 := by
  induction looks using List.reverseRecOn with
  | nil => cases h
  | append_singleton looks final ih =>
      rw [looksAt_append] at h ⊢
      split at h
      · rename_i hkey
        rw [List.getLast?_concat] at h
        obtain rfl := Option.some_inj.mp h
        refine ⟨looks, [], rfl, hkey.symm, fun _ hother => absurd hother List.not_mem_nil, ?_⟩
        rw [if_pos hkey, List.length_append, List.length_singleton]
      · rename_i hkey
        obtain ⟨before, between, rfl, hlast, hbetween, hlength⟩ := ih h
        refine ⟨before, between ++ [final], by simp, hlast, fun other hother => ?_, ?_⟩
        · rcases List.mem_append.mp hother with hother | hother
          · exact hbetween other hother
          · rw [List.mem_singleton.mp hother]
            exact Ne.symm hkey
        · rw [if_neg hkey, hlength]

/-! ## What becomes of a download -/

/-- The looks of a sequence with what each of them is answered. -/
def replies (cache : Cache α) : List (Look α) → List (Look α × Answer α)
  | [] => []
  | look :: rest => (look, cache.answer look) :: replies (cache.answer look).cache rest

theorem replies_append (looks : List (Look α)) (last : Look α) :
    replies Table.empty (looks ++ [last]) =
      replies Table.empty looks ++ [(last, (cacheAfter looks).answer last)] := by
  have hfrom : ∀ cache : Cache α, replies cache (looks ++ [last]) =
      replies cache looks ++
        [(last, (looks.foldl (fun cache look => (cache.answer look).cache) cache).answer last)] := by
    induction looks with
    | nil => exact fun cache => rfl
    | cons look rest ih =>
        intro cache
        rw [List.cons_append, replies, replies, ih, List.foldl_cons, List.cons_append]
  exact hfrom Table.empty

variable [DecidableEq α]

/-- How many looks at a key are answered with an outcome that they fetched (`fetched`), or that
was there. -/
def countAnswered (fetched : Bool) (key : String) (outcome : Option α) (looks : List (Look α)) :
    Nat :=
  (replies Table.empty looks).countP fun reply =>
    reply.1.key == key && reply.2.fetched == fetched && reply.2.value == outcome

theorem countAnswered_append (fetched : Bool) (key : String) (outcome : Option α)
    (looks : List (Look α)) (last : Look α) :
    countAnswered fetched key outcome (looks ++ [last]) =
      countAnswered fetched key outcome looks +
        if last.key = key ∧ ((cacheAfter looks).answer last).fetched = fetched ∧
          ((cacheAfter looks).answer last).value = outcome then 1 else 0 := by
  unfold countAnswered
  rw [replies_append, List.countP_append, List.countP_singleton]
  simp [and_assoc]

/-- **What was fetched for a key was handed out to a later look, or is there still.** -/
theorem fetched_eq_handedOut_add_kept (looks : List (Look α)) (key : String)
    (outcome : Option α) :
    countAnswered true key outcome looks =
      countAnswered false key outcome looks +
        if (cacheAfter looks).get? key = some outcome then 1 else 0 := by
  induction looks using List.reverseRecOn with
  | nil => rfl
  | append_singleton looks last ih =>
      rw [countAnswered_append, countAnswered_append, cacheAfter_append, get?_answer, ih]
      by_cases hkey : last.key = key
      · subst hkey
        cases hget : (cacheAfter looks).get? last.key with
        | none => simp [answer_of_get?_eq_none hget]
        | some stored => simp [answer_of_get?_eq_some hget]
      · simp [hkey, Ne.symm hkey]

/-- **The looks at a key take turns in fetching and in taking away**, whatever is looked up in
between.  After an even number of looks at its key a look fetches, and is answered with what it
fetched.  After an odd number it fetches nothing, so what fetching comes to does not matter, and
it is answered with what the last look at the key before it fetched, a failure too.  There is
something of a key exactly after an odd number of looks at it.  And what looks at a key have
fetched was each handed out to at most one later look: all of it was handed out once, but for
what is there still. -/
theorem looks_take_turns (looks : List (Look α)) :
    (∀ look : Look α, Even (looksAt look.key looks).length →
      ((cacheAfter looks).answer look).fetched = true ∧
        ((cacheAfter looks).answer look).value = look.outcome) ∧
    (∀ look : Look α, Odd (looksAt look.key looks).length →
      ((cacheAfter looks).answer look).fetched = false ∧
        (∀ outcome, (cacheAfter looks).answer ⟨look.key, outcome⟩ =
          (cacheAfter looks).answer look) ∧
        ∃ before last between, looks = before ++ last :: between ∧ last.key = look.key ∧
          (∀ other ∈ between, other.key ≠ look.key) ∧
          ((cacheAfter before).answer last).fetched = true ∧
          ((cacheAfter before).answer last).value = last.outcome ∧
          ((cacheAfter looks).answer look).value = last.outcome) ∧
    (∀ key, (cacheAfter looks).contains key = true ↔ Odd (looksAt key looks).length) ∧
    ∀ key outcome, countAnswered true key outcome looks =
      countAnswered false key outcome looks +
        if (cacheAfter looks).get? key = some outcome then 1 else 0 := by
  have hfetches : ∀ (earlier : List (Look α)) (look : Look α),
      Even (looksAt look.key earlier).length →
        (cacheAfter earlier).answer look =
          ⟨look.outcome, true, (cacheAfter earlier).insert look.key look.outcome⟩ := by
    intro earlier look heven
    refine answer_of_get?_eq_none ?_
    rw [get?_cacheAfter, if_neg (Nat.not_odd_iff_even.mpr heven)]
  refine ⟨fun look heven => ?_, fun look hodd => ?_, fun key => contains_cacheAfter,
    fetched_eq_handedOut_add_kept looks⟩
  · rw [hfetches looks look heven]
    exact ⟨rfl, rfl⟩
  · obtain ⟨last, hlast⟩ : ∃ last, (looksAt look.key looks).getLast? = some last :=
      ⟨_, List.getLast?_eq_some_getLast (looksAt_ne_nil hodd)⟩
    have hget : (cacheAfter looks).get? look.key = some last.outcome := by
      rw [get?_cacheAfter, if_pos hodd, hlast]
      rfl
    obtain ⟨before, between, hlooks, hkey, hbetween, hlength⟩ := exists_last_look hlast
    have heven : Even (looksAt last.key before).length := by
      rw [hkey]
      rw [hlength, Nat.odd_add_one, Nat.not_odd_iff_even] at hodd
      exact hodd
    rw [answer_of_get?_eq_some hget]
    refine ⟨rfl, fun outcome => answer_of_get?_eq_some hget, before, last, between, hlooks, hkey,
      hbetween, ?_, ?_, rfl⟩
    · rw [hfetches before last heven]
    · rw [hfetches before last heven]

end Cache

end FontHosting.Loader
