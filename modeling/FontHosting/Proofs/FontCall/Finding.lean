import FontHosting.Proofs.FontCall.Replacing

/-!
# What an analysis finds

An analysis goes through the statements of a script twice and then looks for font functions that
are used in another way.  `exists_error_iff` says when it fails, and `accepted_of_analyze` what is
known of a script that is accepted.
-/

namespace FontHosting.FontCall

open Script (Node Program)

variable {settings : Settings} {module : String} {program : Program}

/-! ## The analysis -/

theorem collected_removable_ne_nil {statement : Node} (hstatement : statement ∈ program.statements)
    (himport : (loaderImport? settings statement).isSome) :
    (collected settings program).removable ≠ [] := by
  have hmem := ((collected_statements settings program).removable statement.span.start).mpr
    ⟨statement, hstatement, himport, rfl⟩
  exact List.ne_nil_of_mem hmem

/-- **A script that imports a loader module is analyzed to what the two passes find**, unless
one of them fails or a font function is used in another way. -/
theorem analyze_eq
    (himport : ∃ statement ∈ program.statements, (loaderImport? settings statement).isSome)
    (hparts : ∀ specifier ∈ loaderSpecifiers settings program, takesEverything specifier = false)
    (hcalls : ∀ call ∈ fontCalls settings program,
      ∃ stated, call.1.replacement settings module call.2 = .ok stated) :
    analyze settings module program = (do
      checkScope (replaced settings module program) program
      return some (replaced settings module program)) := by
  obtain ⟨statement, hstatement, himport⟩ := himport
  have hne := collected_removable_ne_nil hstatement himport
  have hcollect := collect_eq_ok hparts
  have hreplace := replaceCalls_eq_ok hcalls
  unfold analyze
  rw [hcollect]
  simp only [bind, Except.bind, List.isEmpty_iff, hne, if_false, hreplace]

theorem exists_error_iff
    (himport : ∃ statement ∈ program.statements, (loaderImport? settings statement).isSome) :
    (∃ fault, analyze settings module program = .error fault) ↔
      (∃ specifier ∈ loaderSpecifiers settings program, takesEverything specifier = true) ∨
      (∃ call ∈ fontCalls settings program,
        ∃ fault, call.1.replacement settings module call.2 = .error fault) ∨
      ∃ occurrence ∈ program.occurrences,
        (replaced settings module program).forbids occurrence = true := by
  by_cases hparts : ∃ specifier ∈ loaderSpecifiers settings program,
      takesEverything specifier = true
  · obtain ⟨specifier, hspecifier, heverything⟩ := hparts
    obtain ⟨fault, hfault⟩ := collect_eq_error hspecifier heverything
    refine iff_of_true ⟨fault, ?_⟩ (.inl ⟨specifier, hspecifier, heverything⟩)
    rw [analyze, hfault]
    rfl
  have hparts : ∀ specifier ∈ loaderSpecifiers settings program,
      takesEverything specifier = false := by
    intro specifier hspecifier
    by_contra heverything
    exact hparts ⟨specifier, hspecifier, by simpa using heverything⟩
  by_cases hcalls : ∃ call ∈ fontCalls settings program,
      ∃ fault, call.1.replacement settings module call.2 = .error fault
  · obtain ⟨call, hcall, herror⟩ := hcalls
    obtain ⟨fault, hfault⟩ := replaceCalls_eq_error hcall herror
    obtain ⟨statement, hstatement, himport⟩ := himport
    have hne := collected_removable_ne_nil hstatement himport
    refine iff_of_true ⟨fault, ?_⟩ (.inr (.inl ⟨call, hcall, herror⟩))
    rw [analyze, collect_eq_ok hparts]
    simp only [bind, Except.bind, List.isEmpty_iff, hne, if_false, hfault]
  have hcalls' : ∀ call ∈ fontCalls settings program,
      ∃ stated, call.1.replacement settings module call.2 = .ok stated := by
    intro call hcall
    cases hmade : call.1.replacement settings module call.2 with
    | error fault => exact (hcalls ⟨call, hcall, fault, hmade⟩).elim
    | ok stated => exact ⟨stated, rfl⟩
  have hnone : ¬ ∃ specifier ∈ loaderSpecifiers settings program,
      takesEverything specifier = true := by
    rintro ⟨specifier, hspecifier, heverything⟩
    rw [hparts specifier hspecifier] at heverything
    cases heverything
  rw [analyze_eq himport hparts hcalls', checkScope, or_iff_right hnone, or_iff_right hcalls]
  cases hfound : program.occurrences.find? (replaced settings module program).forbids with
  | none =>
      refine iff_of_false (by rintro ⟨fault, hfault⟩; cases hfault) ?_
      rintro ⟨occurrence, hoccurs, hforbids⟩
      exact List.find?_eq_none.mp hfound occurrence hoccurs hforbids
  | some occurrence =>
      exact iff_of_true ⟨_, rfl⟩
        ⟨occurrence, List.mem_of_find?_eq_some hfound, List.find?_some hfound⟩

/-- What is known of a script that is accepted. -/
structure Accepted (settings : Settings) (module : String) (program : Program)
    (analysis : Analysis) : Prop where
  parts : ∀ specifier ∈ loaderSpecifiers settings program, takesEverything specifier = false
  calls : ∀ call ∈ fontCalls settings program,
    ∃ stated, call.1.replacement settings module call.2 = .ok stated
  eq : analysis = replaced settings module program
  scope : ∀ occurrence ∈ program.occurrences, analysis.forbids occurrence = false
  loads : ∃ statement ∈ program.statements, (loaderImport? settings statement).isSome

theorem accepted_of_analyze {analysis : Analysis}
    (h : analyze settings module program = .ok (some analysis)) :
    Accepted settings module program analysis := by
  obtain ⟨first, hcollect, h⟩ := bind_eq_ok h
  have hparts : ∀ specifier ∈ loaderSpecifiers settings program,
      takesEverything specifier = false := by
    intro specifier hspecifier
    by_contra heverything
    obtain ⟨fault, hfault⟩ := collect_eq_error hspecifier (by simpa using heverything)
    cases hfault.symm.trans hcollect
  obtain rfl := Except.ok.inj ((collect_eq_ok hparts).symm.trans hcollect)
  split at h
  · cases h
  rename_i hremovable
  have hloads : ∃ statement ∈ program.statements, (loaderImport? settings statement).isSome := by
    obtain ⟨start, hstart⟩ := List.exists_mem_of_ne_nil _ (by simpa using hremovable)
    obtain ⟨statement, hstatement, himport, -⟩ :=
      ((collected_statements settings program).removable start).mp hstart
    exact ⟨statement, hstatement, himport⟩
  obtain ⟨second, hreplace, h⟩ := bind_eq_ok h
  have hcalls : ∀ call ∈ fontCalls settings program,
      ∃ stated, call.1.replacement settings module call.2 = .ok stated := by
    intro call hcall
    cases hmade : call.1.replacement settings module call.2 with
    | error fault =>
        obtain ⟨fault, hfault⟩ := replaceCalls_eq_error hcall ⟨fault, hmade⟩
        cases hfault.symm.trans hreplace
    | ok stated => exact ⟨stated, rfl⟩
  obtain rfl := Except.ok.inj ((replaceCalls_eq_ok hcalls).symm.trans hreplace)
  obtain ⟨_, hscope, h⟩ := bind_eq_ok h
  cases h
  refine ⟨hparts, hcalls, rfl, fun occurrence hoccurs => ?_, hloads⟩
  unfold checkScope at hscope
  split at hscope
  · cases hscope
  · rename_i hnone
    exact Bool.eq_false_iff.mpr (List.find?_eq_none.mp hnone occurrence hoccurs)

end FontHosting.FontCall
