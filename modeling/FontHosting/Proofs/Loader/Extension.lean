import FontHosting.Asset
import FontHosting.LocalFont.Options
import FontHosting.Proofs.Except

/-!
# The files of a call are font files

A call for fonts from files is checked before anything is read, and only files with the
extension of a font pass (`extension_of_check`).
-/

namespace FontHosting.LocalFont

theorem mem_fontExtensions_of_formatOf? {extension format : String}
    (h : formatOf? extension = some format) : extension ∈ Asset.fontExtensions := by
  unfold formatOf? at h
  split at h
  all_goals first | decide | cases h

theorem extension_of_ofPath {path : String} {weight style : Option String} {source : Source}
    (h : Source.ofPath path weight style = .ok source) :
    source.extension ∈ Asset.fontExtensions := by
  unfold Source.ofPath at h
  split at h
  · cases h
  · dsimp only at h
    split at h
    · rename_i format hformat
      cases h
      exact mem_fontExtensions_of_formatOf? hformat
    · cases h

theorem extension_of_ofItem {item : Json.Value} {source : Source}
    (h : Source.ofItem item = .ok source) : source.extension ∈ Asset.fontExtensions := by
  unfold Source.ofItem at h
  split at h
  · obtain ⟨path?, -, h⟩ := bind_eq_ok h
    cases path? with
    | none => cases h
    | some path =>
        obtain ⟨weight, -, h⟩ := bind_eq_ok h
        obtain ⟨style, -, h⟩ := bind_eq_ok h
        exact extension_of_ofPath h
  · cases h

/-- The files of a call that was checked are font files. -/
theorem extension_of_check {function : String} {argument : Option Json.Value} {options : Options}
    (h : Options.check function argument = .ok options) :
    ∀ source ∈ options.sources, source.extension ∈ Asset.fontExtensions := by
  have hsources : ∀ {fields : Json.Fields} {weight style : Option String} {sources : List Source},
      checkSources fields weight style = .ok sources →
        ∀ source ∈ sources, source.extension ∈ Asset.fontExtensions := by
    intro fields weight style sources h source hsource
    unfold checkSources at h
    split at h
    · cases h
    · obtain ⟨only, honly, h⟩ := bind_eq_ok h
      cases h
      rw [List.mem_singleton.mp hsource]
      exact extension_of_ofPath honly
    · cases h
    · obtain ⟨item, -, hitem⟩ := exists_of_mapM_eq_ok h source hsource
      exact extension_of_ofItem hitem
    · cases h
  unfold Options.check at h
  split at h
  · cases h
  · obtain ⟨fields, -, h⟩ := bind_eq_ok h
    obtain ⟨display, -, h⟩ := bind_eq_ok h
    obtain ⟨weight, -, h⟩ := bind_eq_ok h
    obtain ⟨style, -, h⟩ := bind_eq_ok h
    obtain ⟨sources, hchecked, h⟩ := bind_eq_ok h
    obtain ⟨standIn, -, h⟩ := bind_eq_ok h
    obtain ⟨declarations, -, h⟩ := bind_eq_ok h
    obtain ⟨fallback, -, h⟩ := bind_eq_ok h
    obtain ⟨preload, -, h⟩ := bind_eq_ok h
    obtain ⟨variableName, -, h⟩ := bind_eq_ok h
    cases h
    exact hsources hchecked

end FontHosting.LocalFont
