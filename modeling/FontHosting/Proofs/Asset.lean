import FontHosting.Asset
import Mathlib.Data.List.Basic

/-!
# What the name of a font file tells

The name of a font file says whether a page should load it early and whether a stand-in was
adjusted to its size.  It is written in front of the extension, behind digits that come from the
content, and read back from the end of the name.  No extension has a point in it, so the last
point of a name stands in front of its extension (`endsWith_iff`), and no digit is one of the
letters of the marks, so no content is taken for a mark (`isPreloadable_name`,
`isSizeAdjusted_name`).
-/

namespace FontHosting.Asset

/-- A font file, as it is emitted. -/
structure FontFile where
  content : Bytes
  extension : String
  isFont : extension ∈ fontExtensions
  /-- Whether it is to be loaded early. -/
  preload : Bool
  /-- Whether a stand-in was adjusted to its size. -/
  sizeAdjusted : Bool

/-- The name that a font file is emitted under. -/
def FontFile.name (file : FontFile) : String :=
  fileName file.content file.extension file.preload file.sizeAdjusted

theorem mem_hexDigest {message : Bytes} {c : Char} (h : c ∈ Digest.hexDigest message) :
    ∃ value < 16, c = Text.Hex.lowerDigit value := by
  unfold Digest.hexDigest Text.Hex.ofBytes at h
  obtain ⟨byte, -, hdigit⟩ := List.mem_flatMap.mp h
  have hbyte := byte.toNat_lt
  rcases List.mem_pair.mp hdigit with rfl | rfl
  · exact ⟨byte.toNat / 16, by omega, rfl⟩
  · exact ⟨byte.toNat % 16, by omega, rfl⟩

/-! ## The end of a name -/

/-- What stands behind the last occurrence of a character is told apart from what stands in
front. -/
theorem append_cons_inj {c : Char} {front rest behind others : List Char} (hbehind : c ∉ behind)
    (hothers : c ∉ others) (h : front ++ c :: behind = rest ++ c :: others) :
    front = rest ∧ behind = others := by
  rcases List.append_eq_append_iff.mp h with ⟨between, hrest, htail⟩ | ⟨between, hfront, htail⟩
  · cases between with
    | nil => exact ⟨by rw [hrest, List.append_nil], (List.cons.inj htail).2⟩
    | cons _ between =>
        rw [(List.cons.inj htail).2] at hbehind
        exact absurd (List.mem_append_right _ List.mem_cons_self) hbehind
  · cases between with
    | nil => exact ⟨by rw [hfront, List.append_nil], (List.cons.inj htail).2.symm⟩
    | cons _ between =>
        rw [(List.cons.inj htail).2] at hothers
        exact absurd (List.mem_append_right _ List.mem_cons_self) hothers

theorem notMem_fontExtension {extension : String} (h : extension ∈ fontExtensions) :
    '.' ∉ extension.toList := by
  revert extension
  decide

/-- A name ends as it is asked for if what stands in front of its extension does. -/
theorem endsWith_iff {marks : List String} {extension : String}
    (hextension : extension ∈ fontExtensions) (front : List Char) :
    endsWith marks (String.ofList (front ++ '.' :: extension.toList)) = true ↔
      ∃ mark ∈ marks, mark.toList <:+ front := by
  unfold endsWith
  simp only [List.any_eq_true, List.isSuffixOf_iff_suffix, String.toList_append,
    String.toList_ofList]
  refine exists_congr fun mark => and_congr_right fun _ => ?_
  have hpoint : ∀ other : String,
      mark.toList ++ ".".toList ++ other.toList = mark.toList ++ '.' :: other.toList :=
    fun other => by simp
  simp only [hpoint]
  constructor
  · rintro ⟨other, hother, earlier, heq⟩
    rw [← List.append_assoc] at heq
    have hfront := (append_cons_inj (notMem_fontExtension hother)
      (notMem_fontExtension hextension) heq).1
    exact ⟨earlier, hfront⟩
  · rintro ⟨earlier, rfl⟩
    exact ⟨extension, hextension, earlier, by simp⟩

/-! ## The marks of a name -/

/-- What the name of a file starts with: the directory and the digits of the content. -/
def stem (content : Bytes) : List Char :=
  mediaDirectory ++ '/' :: (Digest.hexDigest content).take hashLength

theorem fileName_eq (content : Bytes) (extension : String) (preload sizeAdjusted : Bool) :
    fileName content extension preload sizeAdjusted =
      String.ofList (stem content ++ (if sizeAdjusted then ['-', 's'] else []) ++
        (if preload then ['.', 'p'] else []) ++ '.' :: extension.toList) := by
  unfold fileName stem
  simp

/-- Neither the directory nor the digits end like a mark. -/
theorem notMem_getLast?_stem (content : Bytes) {c : Char} (hc : c = 'p' ∨ c = 's') :
    c ∉ (stem content).getLast? := by
  intro hlast
  unfold stem at hlast
  rw [List.getLast?_append_of_ne_nil _ (List.cons_ne_nil _ _)] at hlast
  rcases List.mem_cons.mp (List.mem_of_getLast? hlast) with rfl | hdigit
  · rcases hc with hc | hc <;> exact absurd hc (by decide)
  · obtain ⟨value, hvalue, rfl⟩ := mem_hexDigest (List.mem_of_mem_take hdigit)
    revert hc
    have hdigits : ∀ value < 16,
        ¬ (Text.Hex.lowerDigit value = 'p' ∨ Text.Hex.lowerDigit value = 's') := by
      decide
    exact hdigits value hvalue

/-- What has a mark at its end has the last letter of the mark there. -/
theorem mem_getLast?_of_suffix {mark front : List Char} (h : mark <:+ front) {c : Char}
    (hc : c ∈ mark.getLast?) : c ∈ front.getLast? := by
  obtain ⟨earlier, rfl⟩ := h
  rw [Option.mem_def] at hc ⊢
  rw [List.getLast?_append, hc]
  rfl

variable (file : FontFile)

/-- **A name says whether the file is to be loaded early.** -/
@[simp] theorem isPreloadable_name : isPreloadable file.name = file.preload := by
  obtain ⟨content, extension, hextension, preload, sizeAdjusted⟩ := file
  rw [FontFile.name, fileName_eq, Bool.eq_iff_iff, isPreloadable, endsWith_iff hextension]
  simp only [List.mem_singleton, exists_eq_left]
  cases preload with
  | true => exact iff_of_true (List.suffix_append _ _) rfl
  | false =>
      refine iff_of_false (fun h => ?_) Bool.false_ne_true
      have hlast := mem_getLast?_of_suffix h (c := 'p') rfl
      cases sizeAdjusted with
      | true => simp at hlast
      | false => exact notMem_getLast?_stem content (.inl rfl) (by simpa using hlast)

/-- **A name says whether a stand-in was adjusted to the size of the file.** -/
@[simp] theorem isSizeAdjusted_name : isSizeAdjusted file.name = file.sizeAdjusted := by
  obtain ⟨content, extension, hextension, preload, sizeAdjusted⟩ := file
  rw [FontFile.name, fileName_eq, Bool.eq_iff_iff, isSizeAdjusted, endsWith_iff hextension]
  simp only [List.mem_cons, List.not_mem_nil, or_false, exists_eq_or_imp, exists_eq_left]
  cases sizeAdjusted with
  | true =>
      refine iff_of_true ?_ rfl
      cases preload with
      | true => exact .inr ⟨stem content, by simp⟩
      | false => exact .inl ⟨stem content, by simp⟩
  | false =>
      refine iff_of_false (fun h => ?_) Bool.false_ne_true
      cases preload with
      | true =>
          rcases h with h | ⟨earlier, heq⟩
          · have hlast := mem_getLast?_of_suffix h (c := 's') rfl
            simp at hlast
          · -- the mark of an early file stands behind that of an adjusted one
            have hadjusted : ['-', 's'] <:+ stem content :=
              ⟨earlier, List.append_cancel_right (by simpa using heq)⟩
            exact notMem_getLast?_stem content (.inr rfl)
              (mem_getLast?_of_suffix hadjusted rfl)
      | false =>
          simp only [Bool.false_eq_true, if_false, List.append_nil] at h
          rcases h with h | h
          · exact notMem_getLast?_stem content (.inr rfl) (mem_getLast?_of_suffix h rfl)
          · exact notMem_getLast?_stem content (.inl rfl) (mem_getLast?_of_suffix h rfl)

end FontHosting.Asset
