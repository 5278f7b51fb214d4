import FontHosting.Proofs.FontCall.Plan

/-!
# Reading a transformed module again

Statements are cut out of the text of a module, and what stood on both sides of a cut
is read together afterwards.  The imports and exports that an edit adds are read wherever
they stand, so a transformed module is what it should be exactly if every statement that was
kept is read where it now stands (`transformed_reads_iff`).

That is not always so: a statement that has no semicolon runs on into what follows the cut
(`cut_joins_statements`).
-/

namespace FontHosting.FontCall

open Script
open Text.Utf8 (size)

/-- The code of a plan behind its first line is read as what it lays out exactly if every
statement that was kept is read where it now stands. -/
theorem reads_plan_iff {language : Language} {program : Program} {analysis : Analysis}
    {text first tail code : List Char} {directives statements : List Piece}
    (hcut : program.Cut language text first directives statements tail)
    (hbound : Bound language program analysis)
    (hcode : code = first ++ (plan analysis program text).text) :
    (∃ edited, Program.read? language (String.ofList code) = some edited ∧
        edited.Has (size first) (plan analysis program text).pieces) ↔
      AreRead language (depthOf code) (plan analysis program text).tail (size first)
        (plan analysis program text).pieces := by
  have hsound : (plan analysis program text).IsSound language (depthOf code) :=
    isSound_plan hcut hbound (4 * code.length + 15)
  refine read?_iff (fun piece hpiece => (hsound.pieces piece hpiece).sound) hsound.tail
    (anyCover_plan hcut hbound) hcode (fun piece hpiece hnew => ?_) ?_
  · have hlaid := hsound.pieces piece hpiece
    exact hlaid.readable hnew piece.gap hlaid.sound.blank
  · rw [hcode]
    exact scriptStart_plan hcut hbound

/-- **What a transformed module is read as.**  It is a script with the directives and the
statements that the edit leaves, each where the plan has put it, exactly if every statement
that was kept is read where it now stands. -/
theorem transformed_reads_iff {settings : Settings} {module path source : String}
    {transformed : Transformed}
    (h : transform settings module path source = .ok (some transformed)) :
    ∃ language program analysis first,
      Language.ofPath? path = some language ∧ readScript? path source = some program ∧
      analyze settings module program = .ok (some analysis) ∧
      let layout := plan analysis program source.toList
      transformed.code.toList = first ++ layout.text ∧
      layout.trees = program.directives ++ editedStatements analysis program ∧
      ((∃ edited, readScript? path transformed.code = some edited ∧
          edited.Has (size first) layout.pieces) ↔
        AreRead language (depthOf transformed.code.toList) layout.tail (size first)
          layout.pieces) := by
  unfold transform at h
  split at h
  · cases h
  · rename_i program hread
    split at h
    · cases h
    · cases h
    · rename_i analysis hanalysis
      cases h
      obtain ⟨language, hlanguage, hscript⟩ := Option.bind_eq_some_iff.mp hread
      have hsource : Program.read? language (String.ofList source.toList) = some program := by
        rw [String.ofList_toList]
        exact hscript
      obtain ⟨first, directives, statements, tail, hcut⟩ := Program.exists_cut hsource
      have hbound : Bound language program analysis := bound_analyze hcut.binds hanalysis
      have hcode := apply_eq_plan hcut hbound
      refine ⟨language, program, analysis, first, hlanguage, hread, hanalysis, ?_⟩
      dsimp only
      rw [String.toList_ofList, hcode]
      refine ⟨rfl, trees_plan hcut hbound, ?_⟩
      rw [← reads_plan_iff hcut hbound rfl]
      unfold readScript?
      rw [hlanguage]
      rfl

/-- A module in which a statement without a semicolon stands before a font call, and a
pattern behind it. -/
def joiningSource : String :=
  "import { A } from \"next/font/google\"\nlet x = y\nconst a = A();\n/b/.test(x)\n"

/-- The same module without its font call: the pattern now is a division. -/
def joinedSource : String :=
  "import a from \"next-font/google/target.css?path=a.js&import=A&arguments=%5B%5D" ++
    "&variableName=a\";\nlet x = y\n/b/.test(x)\n"

/-- The module is rewritten, and its code is not read as a script. -/
theorem joiningSource_runs :
    (transform ⟨defaultLoaders, defaultRemapped⟩ "a.js" "a.js" joiningSource).toOption.join.map
        Transformed.code = some joinedSource ∧
      (readScript? "a.js" joinedSource).isNone := by
  -- The kernel is slow to take a text apart, so it is given the characters.
  have hcharacters : joiningSource.toList = _ := String.toList_ofList
  have hjoined : joinedSource.toList = _ :=
    String.toList_append.trans (congrArg₂ (· ++ ·) String.toList_ofList String.toList_ofList)
  unfold transform readScript? Program.read?
  rw [hcharacters, hjoined]
  constructor <;> decide +kernel

/-- A kept statement of the joining module is not read where it now stands. -/
theorem joiningSource_is_not_reread :
    ∃ transformed program analysis first,
      transform ⟨defaultLoaders, defaultRemapped⟩ "a.js" "a.js" joiningSource =
        .ok (some transformed) ∧
      readScript? "a.js" joiningSource = some program ∧
      analyze ⟨defaultLoaders, defaultRemapped⟩ "a.js" program = .ok (some analysis) ∧
      transformed.code.toList = first ++ (plan analysis program joiningSource.toList).text ∧
      ¬ AreRead ⟨false, false, true, false⟩ (depthOf transformed.code.toList)
        (plan analysis program joiningSource.toList).tail (size first)
        (plan analysis program joiningSource.toList).pieces := by
  obtain ⟨transformed, htransformed, hcode⟩ := Option.map_eq_some_iff.mp joiningSource_runs.1
  have htransform := ok_some_of_toOption htransformed
  obtain ⟨language, program, analysis, first, hlanguage, hread, hanalysis, hlaid, -, hiff⟩ :=
    transformed_reads_iff htransform
  have hscript : Language.ofPath? "a.js" = some ⟨false, false, true, false⟩ := rfl
  cases hscript.symm.trans hlanguage
  refine ⟨transformed, program, analysis, first, htransform, hread, hanalysis, hlaid,
    fun hare => ?_⟩
  obtain ⟨edited, hedited, -⟩ := hiff.mpr hare
  have hnone := joiningSource_runs.2
  rw [← hcode, hedited] at hnone
  cases hnone

/-- A cut can join the statements on both sides of it to something that is no script. -/
theorem cut_joins_statements :
    ((transform ⟨defaultLoaders, defaultRemapped⟩ "a.js" "a.js" joiningSource).toOption.join.map
      Transformed.code = some joinedSource) ∧
    (readScript? "a.js" joinedSource).isNone :=
  joiningSource_runs

end FontHosting.FontCall
