import FontHosting.Google.Stylesheet
import Mathlib.Data.List.Induction

/-!
# Which files of a stylesheet are loaded early

A stylesheet is read line by line.  A comment line names the subset that the rules behind it
are for, and a file is taken up on the line on which its URL is found first; where the URL is
found again, nothing changes.  So the files of a stylesheet are its URLs, each once, and the
subset of the first occurrence alone decides whether a file is loaded early
(`files_are_marked_where_found_first`).

A file of several subsets is loaded early for the first one only, although it is a file of the
others as well (`file_of_second_subset_is_not_marked`).
-/

namespace FontHosting.Google

/-! ## Occurrences of files -/

/-- The subset that what stands behind some lines is for: the one that the last comment line
among them names. -/
def nearestSubset? (lines : List (List Char)) : Option (List Char) :=
  (lines.filterMap subsetOf?).getLast?

/-- The URL of the file on a line that is no comment line. -/
def sourceOn? (line : List Char) : Option String :=
  match subsetOf? line with
  | some _ => none
  | none => (urlOf? line).map String.ofList

/-- A URL stands on one of the lines, behind some `earlier` ones. -/
def StandsBehind (lines earlier : List (List Char)) (url : String) : Prop :=
  ∃ line later, lines = earlier ++ line :: later ∧ sourceOn? line = some url

/-- A URL stands on one of the lines, and on none of those before it. -/
def StandsFirstBehind (lines earlier : List (List Char)) (url : String) : Prop :=
  StandsBehind lines earlier url ∧ url ∉ earlier.filterMap sourceOn?

/-- What stands behind some lines belongs to a subset that is to be loaded early. -/
def IsRequested (preloaded : Option (List String)) (earlier : List (List Char)) : Prop :=
  ∃ subset ∈ preloaded.getD [], nearestSubset? earlier = some subset.toList

instance (preloaded : Option (List String)) (earlier : List (List Char)) :
    Decidable (IsRequested preloaded earlier) :=
  inferInstanceAs (Decidable (∃ subset ∈ preloaded.getD [], _))

/-- It does not matter where a file is found: its occurrences agree in whether they belong to a
subset that is to be loaded early, and one in front of every comment is not taken for an
occurrence in the subset without a name. -/
structure IsConsistent (lines : List (List Char)) (preloaded : Option (List String)) : Prop where
  agrees : ∀ url earlier other, StandsBehind lines earlier url → StandsBehind lines other url →
    IsRequested preloaded earlier → IsRequested preloaded other
  named : ∀ url earlier, StandsBehind lines earlier url → nearestSubset? earlier = none →
    "" ∉ preloaded.getD []

variable {preloaded : Option (List String)} {lines earlier : List (List Char)} {url : String}

theorem StandsBehind.append (h : StandsBehind lines earlier url) (line : List Char) :
    StandsBehind (lines ++ [line]) earlier url := by
  obtain ⟨found, later, rfl, hfound⟩ := h
  exact ⟨found, later ++ [line], by simp, hfound⟩

theorem StandsFirstBehind.append (h : StandsFirstBehind lines earlier url) (line : List Char) :
    StandsFirstBehind (lines ++ [line]) earlier url :=
  ⟨h.1.append line, h.2⟩

/-! ## The scan -/

/-- Whether a file behind some lines is loaded early. -/
def markBehind (preloaded : Option (List String)) (earlier : List (List Char)) : Bool :=
  (preloaded.getD []).contains (String.ofList ((nearestSubset? earlier).getD []))

theorem markBehind_iff :
    markBehind preloaded earlier = true ↔
      IsRequested preloaded earlier ∨
        nearestSubset? earlier = none ∧ "" ∈ preloaded.getD [] := by
  unfold markBehind IsRequested
  rw [List.contains_iff_mem]
  cases nearestSubset? earlier with
  | none => simp
  | some subset =>
      constructor
      · intro hmem
        exact Or.inl ⟨_, hmem, by rw [Option.getD_some, String.toList_ofList]⟩
      · rintro (⟨requested, hmem, hsubset⟩ | ⟨hnone, -⟩)
        · rw [Option.some_inj.mp hsubset, Option.getD_some, String.ofList_toList]
          exact hmem
        · cases hnone

/-- What a scan has found in the lines that it has read. -/
structure Found (preloaded : Option (List String)) (lines : List (List Char)) (scan : Scan) :
    Prop where
  subset : scan.subset = (nearestSubset? lines).getD []
  urls : scan.files.map FontFile.url = (lines.filterMap sourceOn?).eraseDups
  marks : ∀ file ∈ scan.files, ∃ earlier, StandsFirstBehind lines earlier file.url ∧
    file.preload = markBehind preloaded earlier

theorem found_nil (preloaded : Option (List String)) : Found preloaded [] ⟨[], []⟩ :=
  ⟨rfl, rfl, fun _ h => absurd h List.not_mem_nil⟩

theorem eraseDups_append_singleton (urls : List String) (url : String) :
    (urls ++ [url]).eraseDups = if url ∈ urls then urls.eraseDups else urls.eraseDups ++ [url] := by
  rw [List.eraseDups_append]
  by_cases hmem : url ∈ urls
  · simp [List.removeAll, hmem]
  · simp [List.removeAll, hmem, List.eraseDups_cons]

/-- A scan reads one more line. -/
theorem Found.line {scan : Scan} (h : Found preloaded lines scan) (line : List Char) :
    Found preloaded (lines ++ [line]) (scan.line preloaded line) := by
  have hmarks : ∀ file ∈ scan.files, ∃ earlier,
      StandsFirstBehind (lines ++ [line]) earlier file.url ∧
        file.preload = markBehind preloaded earlier := by
    intro file hfile
    obtain ⟨earlier, hfirst, hmark⟩ := h.marks file hfile
    exact ⟨earlier, hfirst.append line, hmark⟩
  unfold Scan.line
  cases hsubset : subsetOf? line with
  | some subset =>
      have hsource : sourceOn? line = none := by rw [sourceOn?, hsubset]
      refine ⟨?_, ?_, hmarks⟩
      · simp [nearestSubset?, hsubset]
      · simpa [hsource] using h.urls
  | none =>
      have hnearest : nearestSubset? (lines ++ [line]) = nearestSubset? lines := by
        simp [nearestSubset?, hsubset]
      cases hurl : urlOf? line with
      | none =>
          have hsource : sourceOn? line = none := by simp [sourceOn?, hsubset, hurl]
          exact ⟨hnearest ▸ h.subset, by simpa [hsource] using h.urls, hmarks⟩
      | some url =>
          have hsource : sourceOn? line = some (String.ofList url) := by
            simp [sourceOn?, hsubset, hurl]
          have hknown : (scan.files.any fun file => file.url == String.ofList url) = true ↔
              String.ofList url ∈ lines.filterMap sourceOn? := by
            rw [← List.mem_eraseDups, ← h.urls, List.mem_map, List.any_eq_true]
            simp only [beq_iff_eq]
          dsimp only
          split
          · rename_i hfound
            refine ⟨hnearest ▸ h.subset, ?_, hmarks⟩
            simp only [List.filterMap_append, List.filterMap_cons, hsource, List.filterMap_nil]
            rw [eraseDups_append_singleton, if_pos (hknown.mp hfound), h.urls]
          · rename_i hnew
            have hfirst : String.ofList url ∉ lines.filterMap sourceOn? := mt hknown.mpr hnew
            refine ⟨hnearest ▸ h.subset, ?_, ?_⟩
            · simp only [List.filterMap_append, List.filterMap_cons, hsource, List.filterMap_nil,
                List.map_append, List.map_cons, List.map_nil]
              rw [eraseDups_append_singleton, if_neg hfirst, h.urls]
            · intro file hfile
              rcases List.mem_append.mp hfile with hold | hadded
              · exact hmarks file hold
              · obtain rfl := List.mem_singleton.mp hadded
                refine ⟨lines, ⟨⟨line, [], rfl, hsource⟩, hfirst⟩, ?_⟩
                rw [markBehind, ← h.subset]

/-- A scan finds the files of a stylesheet. -/
theorem found_lines (preloaded : Option (List String)) (lines : List (List Char)) :
    Found preloaded lines (lines.foldl (Scan.line preloaded) ⟨[], []⟩) := by
  induction lines using List.reverseRecOn with
  | nil => exact found_nil preloaded
  | append_singleton lines line ih =>
      rw [List.foldl_append]
      exact ih.line line

/-! ## The files of a stylesheet -/

/-- **The files of a stylesheet are its URLs, each once, in the order in which they are found
first, and a file is loaded early if its first occurrence belongs to a requested subset.**  Nothing
is loaded early if nothing is requested.  Where it does not matter which occurrence is the first
one, a file is loaded early exactly if one of its occurrences belongs to a requested subset. -/
theorem files_are_marked_where_found_first (css : List Char) (preloaded : Option (List String)) :
    (fontFiles css preloaded).map FontFile.url =
        ((Text.lines css).filterMap sourceOn?).eraseDups ∧
      (preloaded = none → ∀ file ∈ fontFiles css preloaded, file.preload = false) ∧
      (∀ file ∈ fontFiles css preloaded, ∃ earlier,
        StandsFirstBehind (Text.lines css) earlier file.url ∧
          (file.preload = true ↔ IsRequested preloaded earlier ∨
            nearestSubset? earlier = none ∧ "" ∈ preloaded.getD [])) ∧
      (IsConsistent (Text.lines css) preloaded → ∀ file ∈ fontFiles css preloaded,
        (file.preload = true ↔ ∃ earlier, StandsBehind (Text.lines css) earlier file.url ∧
          IsRequested preloaded earlier)) := by
  have hfound : Found preloaded (Text.lines css) _ := found_lines preloaded (Text.lines css)
  refine ⟨hfound.urls, ?_, ?_, ?_⟩
  · rintro rfl file hfile
    obtain ⟨earlier, -, hmark⟩ := hfound.marks file hfile
    rw [hmark]
    rfl
  · intro file hfile
    obtain ⟨earlier, hfirst, hmark⟩ := hfound.marks file hfile
    exact ⟨earlier, hfirst, by rw [hmark, markBehind_iff]⟩
  · intro hconsistent file hfile
    obtain ⟨earlier, hfirst, hmark⟩ := hfound.marks file hfile
    rw [hmark, markBehind_iff]
    constructor
    · rintro (hrequested | ⟨hnone, hnameless⟩)
      · exact ⟨earlier, hfirst.1, hrequested⟩
      · exact absurd hnameless (hconsistent.named _ _ hfirst.1 hnone)
    · rintro ⟨other, hother, hrequested⟩
      exact Or.inl (hconsistent.agrees _ _ _ hother hfirst.1 hrequested)

/-- A stylesheet in which one file is that of two subsets. -/
def sharedFileCss : List Char :=
  "/* greek */\n  src: url(a.woff2)\n/* latin */\n  src: url(a.woff2)\n".toList

/-- If both subsets are requested, it does not matter that the file is in both. -/
theorem isConsistent_sharedFileCss :
    IsConsistent (Text.lines sharedFileCss) (some ["latin", "greek"]) := by
  have hplaces : ∀ place < (Text.lines sharedFileCss).length,
      ((Text.lines sharedFileCss)[place]?.bind sourceOn?).isSome = true →
        IsRequested (some ["latin", "greek"]) ((Text.lines sharedFileCss).take place) := by
    decide
  have hrequested : ∀ earlier url, StandsBehind (Text.lines sharedFileCss) earlier url →
      IsRequested (some ["latin", "greek"]) earlier := by
    rintro earlier url ⟨line, later, hcut, hline⟩
    have hplace := hplaces earlier.length (by rw [hcut]; simp)
    rw [hcut] at hplace
    simp only [List.getElem?_append_right (Nat.le_refl _), Nat.sub_self, List.getElem?_cons_zero,
      Option.bind_some, hline, Option.isSome_some, List.take_left, true_implies] at hplace
    exact hplace
  refine ⟨fun url earlier other _ hother _ => hrequested other url hother, ?_⟩
  intro url earlier hstands hnone
  obtain ⟨subset, -, hsubset⟩ := hrequested earlier url hstands
  rw [hnone] at hsubset
  cases hsubset

/-- A file of two requested subsets is loaded early. -/
theorem file_of_requested_subsets_is_marked :
    IsConsistent (Text.lines sharedFileCss) (some ["latin", "greek"]) ∧
      fontFiles sharedFileCss (some ["latin", "greek"]) = [⟨"a.woff2", true⟩] := by
  have hfiles : (fontFiles sharedFileCss (some ["latin", "greek"])).map FontFile.url =
      ["a.woff2"] := by decide
  obtain ⟨-, -, -, hmarks⟩ :=
    files_are_marked_where_found_first sharedFileCss (some ["latin", "greek"])
  obtain ⟨file, hfile⟩ := List.map_eq_singleton_iff.mp hfiles
  obtain ⟨hone, hurl⟩ := hfile
  have hmark : file.preload = true := by
    refine (hmarks isConsistent_sharedFileCss file (hone ▸ List.mem_singleton_self _)).mpr ?_
    rw [hurl]
    exact ⟨(Text.lines sharedFileCss).take 1,
      ⟨"  src: url(a.woff2)".toList, (Text.lines sharedFileCss).drop 2, by decide, by decide⟩,
      "greek", by decide, by decide⟩
  refine ⟨isConsistent_sharedFileCss, ?_⟩
  rw [hone, ← hurl, ← hmark]

/-- **A file of a second subset is not marked**: the letters of `latin` are requested, and the file
stands behind the comment that names them, but it was found in front of it. -/
theorem file_of_second_subset_is_not_marked :
    fontFiles sharedFileCss (some ["latin"]) = [⟨"a.woff2", false⟩] ∧
      ∃ earlier, StandsBehind (Text.lines sharedFileCss) earlier "a.woff2" ∧
        IsRequested (some ["latin"]) earlier := by
  refine ⟨by decide, (Text.lines sharedFileCss).take 3, ?_, "latin", by decide, by decide⟩
  exact ⟨"  src: url(a.woff2)".toList, [], by decide, by decide⟩

end FontHosting.Google
