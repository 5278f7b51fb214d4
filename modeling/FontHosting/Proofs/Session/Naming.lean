import FontHosting.Proofs.Session.Landing

/-!
# The names in a session

The manifest lists assets of stylesheets, and the assets of a stylesheet are what its loader
emitted.  With the loaders of the library every name in a session is therefore the name of a
font file (`Reachable.isNamed`).

This holds of stale entries as well.  An asset that is listed though no stylesheet has it any
more was one of a stylesheet when it was listed (`lists_of_perform`).
-/

namespace FontHosting

open Asset (IsFontName)

namespace Session

open Stylesheet (Collection Loaded Request)

variable {catalog : Google.Catalog} {project : Project} {session : Session} {module asset : String}

/-! ## Where listed assets come from -/

/-- What is listed after a request was listed before, or is an asset of a stylesheet. -/
theorem lists_of_load (hregular : project.Regular) {world : Loader.World} {request : Request}
    (h : (session.load project world request).session.manifest.Lists module asset) :
    session.manifest.Lists module asset ∨
      (session.load project world request).session.collection.HasAsset module asset := by
  rcases load_cases hregular.confined world session request with ⟨collection, answer, -, hload⟩ |
    ⟨key, loaded, collection, answer, hholds, hload⟩
  · rw [hload] at h
    exact Or.inl h
  · rw [hload] at h ⊢
    by_cases himported : ({ session with collection }).isImported key = true
    · rw [receive_of_isImported himported] at h ⊢
      rw [collection_settle]
      rw [manifest_settle] at h
      refine (Manifest.lists_record.mp h).imp_right ?_
      rintro ⟨rfl, hasset, -⟩
      exact ⟨key, loaded, hholds.get?, rfl, hasset⟩
    · rw [receive_of_not_isImported himported] at h
      exact Or.inl h

/-- What is listed after an operation was listed before, or is an asset of a stylesheet. -/
theorem lists_of_perform (hregular : project.Regular) {operation : Operation}
    (h : (session.perform project operation).session.manifest.Lists module asset) :
    session.manifest.Lists module asset ∨
      (session.perform project operation).session.collection.HasAsset module asset := by
  by_cases hother : operation.isRequest = false
  · by_cases hreset : operation = .reset
    · subst hreset
      obtain ⟨_, hentry, -⟩ := h
      cases hentry
    · exact Or.inl ((reduces_perform hother hreset).lists h)
  · cases operation with
    | load world request => exact lists_of_load hregular h
    | _ => exact absurd rfl hother

/-! ## Every name is that of a font file -/

/-- The assets of a stylesheet that is made are font files. -/
theorem isFontName_of_made (hlibrary : project.HasLibrary catalog) {world : Loader.World}
    {request : Request} {collection : Collection} {key : String} {loaded : Loaded}
    (hmade : session.collection.start project.setup world request =
      (collection, .made key loaded)) (hasset : asset ∈ loaded.assets) : IsFontName asset := by
  obtain ⟨kind, registered, query, arguments, -, hregistered, -, -, -, output, target, hran, -,
    rfl⟩ := Collection.made_start hmade
  have hemits := (hlibrary.hostsFonts kind registered hregistered).emitsFonts
    (Collection.callOf project.setup world query arguments request.isServer)
  have hnames := hemits (session.collection.startState kind registered) asset
  rw [hran] at hnames
  exact (hnames hasset).resolve_left List.not_mem_nil

/-- Every name in a session is the name of a font file. -/
structure IsNamed (session : Session) : Prop where
  assets : ∀ key loaded, session.collection.stylesheets.get? key = some loaded →
    ∀ asset ∈ loaded.assets, IsFontName asset
  listed : ∀ module asset, session.manifest.Lists module asset → IsFontName asset

theorem IsNamed.perform (h : IsNamed session) (hregular : project.Regular)
    (hlibrary : project.HasLibrary catalog) (hreachable : Reachable project session)
    (operation : Operation) : IsNamed (session.perform project operation).session := by
  have hassets : ∀ key loaded,
      (session.perform project operation).session.collection.stylesheets.get? key = some loaded →
        ∀ asset ∈ loaded.assets, IsFontName asset := by
    intro key loaded hget asset hasset
    rcases made_of_perform hregular hreachable hget with
      hbefore | ⟨world, request, collection, rfl, hmade⟩
    · exact h.assets key loaded hbefore asset hasset
    · exact isFontName_of_made hlibrary hmade hasset
  refine ⟨hassets, fun module asset hlisted => ?_⟩
  rcases lists_of_perform hregular hlisted with
    hbefore | ⟨key, loaded, hget, -, hasset⟩
  · exact h.listed module asset hbefore
  · exact hassets key loaded hget asset hasset

/-- **Every name in a reachable session is the name of a font file**, even if it is stale. -/
theorem Reachable.isNamed (hregular : project.Regular) (hlibrary : project.HasLibrary catalog)
    (hreachable : Reachable project session) : IsNamed session := by
  induction hreachable with
  | new =>
      refine ⟨fun key loaded hget => ?_, fun module asset hlisted => ?_⟩
      · cases hget
      · obtain ⟨_, hentry, -⟩ := hlisted
        cases hentry
  | step operation hbefore _ ih => exact ih.perform hregular hlibrary hbefore operation

end Session

end FontHosting
