import Mathlib.Data.List.Induction

/-!
# Runs that may fail

Checks and passes answer a value or stop at an error.  The lemmas here take a run apart that
ended well, and say when a pass over a list does.
-/

namespace FontHosting

/-- A run of two steps ends well only if both do. -/
theorem bind_eq_ok {α β ε : Type} {first : Except ε α} {next : α → Except ε β} {answer : β}
    (h : first >>= next = .ok answer) : ∃ value, first = .ok value ∧ next value = .ok answer := by
  cases first with
  | error error => cases h
  | ok value => exact ⟨value, rfl, h⟩

/-- A run goes on with the answer of its first step. -/
theorem ok_bind {α β ε : Type} {first : Except ε α} {value : α} (h : first = .ok value)
    (next : α → Except ε β) : first >>= next = next value := by
  rw [h]
  rfl

theorem ok_of_toOption {α ε : Type} {run : Except ε α} {value : α}
    (h : run.toOption = some value) : run = .ok value := by
  cases run with
  | error error => cases h
  | ok found => exact congrArg Except.ok (Option.some_inj.mp h)

theorem ok_some_of_toOption {α ε : Type} {run : Except ε (Option α)} {value : α}
    (h : run.toOption.join = some value) : run = .ok (some value) := by
  rcases run with fault | _ | other <;> cases h
  rfl

theorem isSome_of_exists {α : Type} {answer? : Option α} {Holds : α → Prop}
    (h : ∃ answer ∈ answer?, Holds answer) : answer?.isSome := by
  obtain ⟨answer, hanswer, -⟩ := h
  exact Option.isSome_of_mem hanswer

/-- What holds of an answer holds of the only one there is. -/
theorem get_of_exists {α : Type} {answer? : Option α} {Holds : α → Prop}
    (h : ∃ answer ∈ answer?, Holds answer) : Holds (answer?.get (isSome_of_exists h)) := by
  obtain ⟨answer, hanswer, hholds⟩ := h
  rwa [Option.get_of_mem _ hanswer]

section
variable {α β ε : Type} {step : β → α → Except ε β} (Holds : β → Prop)

theorem foldlM_eq_ok {next : β → α → β} (values : List α)
    (hstep : ∀ before, Holds before → ∀ value ∈ values,
      step before value = .ok (next before value) ∧ Holds (next before value))
    {before : β} (hbefore : Holds before) :
    values.foldlM step before = .ok (values.foldl next before) := by
  induction values generalizing before with
  | nil => rfl
  | cons value rest ih =>
      obtain ⟨hfirst, hnext⟩ := hstep before hbefore value List.mem_cons_self
      rw [List.foldlM_cons, hfirst]
      exact ih (fun before hholds value hvalue =>
        hstep before hholds value (List.mem_cons_of_mem _ hvalue)) hnext

theorem foldlM_eq_error (values : List α)
    (hkeep : ∀ before, Holds before → ∀ value ∈ values, ∀ after, step before value = .ok after →
      Holds after)
    {value : α} (hvalue : value ∈ values)
    (hfail : ∀ before, Holds before → ∃ error, step before value = .error error)
    {before : β} (hbefore : Holds before) : ∃ error, values.foldlM step before = .error error := by
  induction values generalizing before with
  | nil => cases hvalue
  | cons first rest ih =>
      rw [List.foldlM_cons]
      cases hfirst : step before first with
      | error error => exact ⟨error, rfl⟩
      | ok after =>
          rcases List.mem_cons.mp hvalue with rfl | hrest
          · obtain ⟨error, herror⟩ := hfail before hbefore
            cases hfirst.symm.trans herror
          · exact ih (fun before hholds value hmem =>
              hkeep before hholds value (List.mem_cons_of_mem _ hmem)) hrest
              (hkeep before hbefore first List.mem_cons_self after hfirst)

end

/-- A pass over values that all have an answer lists the answers. -/
theorem mapM_eq_ok {α β ε : Type} {run : α → Except ε β} {answer : α → β} {values : List α}
    (h : ∀ value ∈ values, run value = .ok (answer value)) :
    values.mapM run = .ok (values.map answer) := by
  induction values with
  | nil => rfl
  | cons value rest ih =>
      obtain ⟨hvalue, hrest⟩ := List.forall_mem_cons.mp h
      rw [List.mapM_cons, hvalue, ih hrest]
      rfl

/-- Every answer of a pass over a list is that of one of the values. -/
theorem exists_of_mapM_eq_ok {α β ε : Type} {run : α → Except ε β} {values : List α}
    {answers : List β} (h : values.mapM run = .ok answers) :
    ∀ answer ∈ answers, ∃ value ∈ values, run value = .ok answer := by
  induction values generalizing answers with
  | nil =>
      cases h
      exact fun _ hanswer => absurd hanswer List.not_mem_nil
  | cons value rest ih =>
      rw [List.mapM_cons] at h
      obtain ⟨first, hfirst, h⟩ := bind_eq_ok h
      obtain ⟨others, hothers, h⟩ := bind_eq_ok h
      cases h
      intro answer hanswer
      rcases List.mem_cons.mp hanswer with rfl | hlater
      · exact ⟨value, List.mem_cons_self, hfirst⟩
      · obtain ⟨other, hmem, hother⟩ := ih hothers answer hlater
        exact ⟨other, List.mem_cons_of_mem _ hmem, hother⟩

end FontHosting
