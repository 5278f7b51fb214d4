import FontHosting.Proofs.Session.Filing

/-!
# Every live stylesheet has its fonts

A font file is shared by all stylesheets with the same content, and four operations take
files out of the store or out of the manifest.  None of them may take what a stylesheet
still needs.  `Served` says that none did: the store has the files of every stylesheet
and the manifest lists those that are to be loaded early.

Releasing spares every URL that is still referred to (`Drop.contains_store`), and
unlisting spares every asset that another stylesheet of the module has
(`lists_invalidate`, `lists_replaceImports`).  The entry of a module is taken away as a
whole only if no stylesheet of it is left, and that is so because stylesheets are filed
under their own modules (`Filed`).
-/

namespace FontHosting

theorem Asset.UrlBase.url_injective (base : Asset.UrlBase) {first second : String}
    (h : base.url first = base.url second) : first = second := by
  unfold url at h
  have hlist := congrArg String.toList h
  simp only [String.toList_append] at hlist
  exact String.toList_inj.mp (List.append_cancel_left hlist)

namespace Session

open Loader (NamesByContent)
open Stylesheet (BelongsTo Collection HasRepeatedMark Loaded Request key?)

/-- The files of every stylesheet are in the store, and those that are to be loaded early are
listed under its module. -/
structure Served (project : Project) (session : Session) : Prop where
  urls : ∀ key loaded, session.collection.stylesheets.get? key = some loaded →
    loaded.urls = loaded.assets.map project.setup.base.url
  stored : ∀ url, session.collection.references url = true →
    session.collection.store.contains url = true
  names : NamesByContent project.setup.base session.collection.store
  listed : ∀ key loaded, session.collection.stylesheets.get? key = some loaded →
    ∀ asset ∈ loaded.assets, Asset.isPreloadable asset = true →
      session.manifest.Lists loaded.module asset

namespace Served

variable {project : Project} {session before after : Session}

theorem empty : Served project Session.empty where
  urls key loaded h := by cases h
  stored url h := by
    obtain ⟨key, loaded, h, -⟩ := Collection.references_iff.mp h
    cases h
  names url font h := by cases h
  listed key loaded h := by cases h

/-- Neither the records nor the caches matter. -/
theorem congr (hbefore : Served project before)
    (hstylesheets : after.collection.stylesheets = before.collection.stylesheets)
    (hstore : after.collection.store = before.collection.store)
    (hmanifest : after.manifest = before.manifest) : Served project after := by
  have hreferences : ∀ url, after.collection.references url = before.collection.references url := by
    intro url
    unfold Collection.references
    rw [hstylesheets]
  constructor
  · rw [hstylesheets]
    exact hbefore.urls
  · intro url hreferenced
    rw [hstore]
    exact hbefore.stored url (hreferences url ▸ hreferenced)
  · rw [hstore]
    exact hbefore.names
  · rw [hstylesheets, hmanifest]
    exact hbefore.listed

theorem settle {α : Type} (h : Served project session) (answer : α) :
    Served project (session.settle answer).session := by
  unfold Session.settle
  split
  · exact h.congr rfl rfl rfl
  · exact h

/-- **Dropping stylesheets serves those that stay**, if what they have stays listed. -/
theorem drop {keys : List String} (h : Served project before)
    (hdrop : Drop keys before.collection after.collection)
    (hlists : ∀ key loaded, after.collection.stylesheets.get? key = some loaded →
      ∀ asset ∈ loaded.assets, before.manifest.Lists loaded.module asset →
        after.manifest.Lists loaded.module asset) :
    Served project after := by
  constructor
  · intro key loaded hget
    exact h.urls key loaded (hdrop.get?_eq_some.mp hget).1
  · intro url hreferenced
    exact hdrop.contains_store hreferenced (h.stored url (hdrop.references hreferenced))
  · exact hdrop.names h.names
  · intro key loaded hget asset hasset hpreloadable
    refine hlists key loaded hget asset hasset ?_
    exact h.listed key loaded (hdrop.get?_eq_some.mp hget).1 asset hasset hpreloadable

theorem replaceImports {module : String} {specifiers : List String} (h : Served project session)
    (hfiled : Filed session) (hafter : Filed (session.replaceImports module specifiers)) :
    Served project (session.replaceImports module specifiers) := by
  have hkeys : ∀ record, session.HasRecord module record → key? record.key = some record.key :=
    fun record hrecord => hfiled.isKey hrecord
  refine h.drop (drop_replaceImports hkeys specifiers) fun key loaded hget asset hasset hlists => ?_
  refine lists_replaceImports hkeys hlists ⟨key, loaded, hget, rfl, hasset⟩ ?_
  -- A stylesheet of the module is left, so the module still imports it.
  rintro hmodule hcurrent
  obtain ⟨record, hrecord, -⟩ := hafter.recorded key loaded hget
  rw [hasRecord_replaceImports, if_pos hmodule, hcurrent] at hrecord
  cases hrecord

theorem recordImports {module : String} {specifiers : List String} (h : Served project session)
    (hfiled : Filed session)
    (hspecifiers : ∀ specifier ∈ specifiers, ∀ key, key? specifier = some key →
      BelongsTo key module) :
    Served project (session.recordImports module specifiers).session := by
  rw [recordImports_eq]
  exact (h.replaceImports hfiled (hfiled.replaceImports hspecifiers)).settle _

theorem transform (h : Served project session) (hfiled : Filed session)
    (hregular : project.Regular) (id source : String) :
    Served project (session.transform project id source).session := by
  rcases transform_cases hregular session id source with ⟨answer, hsame⟩ |
    ⟨specifiers, answer, hspecifiers, hrecorded⟩
  · rw [hsame]
    exact h
  · rw [hrecorded]
    exact h.recordImports hfiled hspecifiers

theorem removeModule (h : Served project session) (hfiled : Filed session) (id : String) :
    Served project (session.removeModule project id).session :=
  h.recordImports hfiled fun _ hspecifier => absurd hspecifier List.not_mem_nil

/-! ## Requests -/

section
variable {request : Request} {collection : Collection} {key : String} {loaded : Loaded}

/-- The files of the stylesheet of a request are in the store. -/
theorem of_holds (h : Served project session)
    (hholds : Holds project request session.collection collection key loaded) :
    loaded.urls = loaded.assets.map project.setup.base.url ∧
      ∀ url, collection.references url = true → collection.store.contains url = true := by
  have hown : loaded.urls = loaded.assets.map project.setup.base.url ∧
      ∀ url ∈ loaded.urls, collection.store.contains url = true := by
    rcases hholds.source with hget | hmade
    · refine ⟨h.urls key loaded hget, fun url hurl => hholds.keeps url (h.stored url ?_)⟩
      exact Collection.references_iff.mpr ⟨key, loaded, hget, hurl⟩
    · refine ⟨hmade.urls, fun url hurl => ?_⟩
      rw [hmade.urls] at hurl
      obtain ⟨asset, hasset, rfl⟩ := List.mem_map.mp hurl
      exact hmade.stored asset hasset
  refine ⟨hown.1, fun url hreferenced => ?_⟩
  obtain ⟨other, found, hget, hurl⟩ := Collection.references_iff.mp hreferenced
  rw [hholds.stylesheets] at hget
  split at hget
  · obtain rfl := Option.some_inj.mp hget
    exact hown.2 url hurl
  · refine hholds.keeps url (h.stored url ?_)
    exact Collection.references_iff.mpr ⟨other, found, hget, hurl⟩

theorem resolveImports (h : Served project session)
    (hholds : Holds project request session.collection collection key loaded) :
    Served project (({ session with collection }).resolveImports key loaded) := by
  obtain ⟨hurls, hstored⟩ := h.of_holds hholds
  refine ⟨fun other found hget => ?_, hstored, hholds.names h.names,
    fun other found hget asset hasset hpreloadable => ?_⟩
  · have hget : collection.stylesheets.get? other = some found := hget
    rw [hholds.stylesheets] at hget
    split at hget
    · obtain rfl := Option.some_inj.mp hget
      exact hurls
    · exact h.urls other found hget
  · have hget : collection.stylesheets.get? other = some found := hget
    rw [hholds.stylesheets] at hget
    refine Manifest.lists_record.mpr ?_
    split at hget
    · obtain rfl := Option.some_inj.mp hget
      exact Or.inr ⟨rfl, hasset, hpreloadable⟩
    · exact Or.inl (h.listed other found hget asset hasset hpreloadable)

theorem discard (h : Served project session)
    (hholds : Holds project request session.collection collection key loaded) :
    Served project (({ session with collection }).discard key) := by
  obtain ⟨hurls, hstored⟩ := h.of_holds hholds
  have hdrop : Drop [key] collection (({ session with collection }).discard key).collection :=
    hholds.drop_discard
  have hbefore : ∀ other found,
      (({ session with collection }).discard key).collection.stylesheets.get? other = some found →
        session.collection.stylesheets.get? other = some found := by
    intro other found hget
    obtain ⟨hget, hother⟩ := hdrop.get?_eq_some.mp hget
    rwa [hholds.stylesheets, if_neg (by simpa using hother)] at hget
  constructor
  · exact fun other found hget => h.urls other found (hbefore other found hget)
  · intro url hreferenced
    exact hdrop.contains_store hreferenced (hstored url (hdrop.references hreferenced))
  · exact hdrop.names (hholds.names h.names)
  · exact fun other found hget => h.listed other found (hbefore other found hget)

end

theorem load (h : Served project session) (hregular : project.Regular) (world : Loader.World)
    (request : Request) : Served project (session.load project world request).session := by
  rcases load_cases hregular.confined world session request with
    ⟨collection, answer, htaken, hload⟩ |
    ⟨key, loaded, collection, answer, hholds, hload⟩
  · rw [hload]
    have hreferences : ∀ url, collection.references url = session.collection.references url := by
      intro url
      unfold Collection.references
      rw [htaken.stylesheets]
    refine ⟨fun key loaded hget => h.urls key loaded (htaken.stylesheets ▸ hget),
      fun url hreferenced => htaken.keeps url (h.stored url (hreferences url ▸ hreferenced)),
      htaken.names h.names, fun key loaded hget => h.listed key loaded (htaken.stylesheets ▸ hget)⟩
  · rw [hload]
    by_cases himported : ({ session with collection }).isImported key = true
    · rw [receive_of_isImported himported]
      exact (h.resolveImports hholds).settle ()
    · rw [receive_of_not_isImported himported]
      exact h.discard hholds

/-! ## Changed files -/

/-- What is invalidated takes nothing from the stylesheets that stay. -/
theorem invalidate {keys : List String} (h : Served project session)
    (hkeys : ∀ key ∈ keys, key? key = some key) : Served project (session.invalidate keys) := by
  refine h.drop (drop_invalidate hkeys) fun key loaded hget asset hasset hlists => ?_
  exact (lists_invalidate hkeys).mpr ⟨hlists, fun _ => ⟨key, loaded, hget, rfl, hasset⟩⟩

theorem invalidateModule (h : Served project session) (hfiled : Filed session) (id : String) :
    Served project (session.invalidateModule project id).1 := by
  rcases invalidateModule_eq project session id with ⟨-, hsame⟩ | ⟨records, hget, hchanged⟩
  · rw [hsame]
    exact h
  · rw [hchanged]
    refine Served.invalidate (h.congr rfl rfl rfl) fun key hkey => ?_
    obtain ⟨record, hrecord, rfl⟩ := List.mem_map.mp hkey
    exact hfiled.isKey ⟨records, hget, hrecord⟩

theorem invalidateFontFile (h : Served project session) (hfiled : Filed session) (file : String) :
    Served project (session.invalidateFontFile file).1 := by
  rcases invalidateFontFile_eq session file with ⟨-, hsame⟩ | ⟨-, hchanged⟩
  · rw [hsame]
    exact h
  · rw [hchanged]
    refine Served.invalidate (h.congr rfl rfl rfl) fun key hkey => ?_
    obtain ⟨loaded, hget, -⟩ := Collection.mem_keysUsing.mp hkey
    exact (hfiled.belongsTo hget).isKey

/-! ## Every operation -/

theorem perform (h : Served project session) (hfiled : Filed session) (hregular : project.Regular)
    (operation : Operation) : Served project (session.perform project operation).session := by
  cases operation with
  | transform id source =>
      simp only [Session.perform]
      exact h.transform hfiled hregular id source
  | load world request => exact h.load hregular world request
  | invalidateModule id => exact h.invalidateModule hfiled id
  | invalidateFontFile file => exact h.invalidateFontFile hfiled file
  | removeModule id => exact h.removeModule hfiled id
  | reset => exact Served.empty.congr rfl rfl rfl

end Served

theorem Reachable.served {project : Project} {session : Session} (hregular : project.Regular)
    (hreachable : Reachable project session) : Served project session := by
  induction hreachable with
  | new => exact .empty
  | step operation hbefore _ ih => exact ih.perform (hbefore.filed hregular) hregular operation

/-- **In every reachable session every stylesheet has its fonts.**  Each of its assets is in
the store under its public URL, the stored bytes are those that the name was made of, and
the manifest lists the asset under the module of the stylesheet if it is to be loaded
early. -/
theorem stylesheets_have_their_fonts {project : Project} (hregular : project.Regular)
    {session : Session} (hreachable : Reachable project session) {key : String} {loaded : Loaded}
    (hget : session.collection.stylesheets.get? key = some loaded) {asset : String}
    (hasset : asset ∈ loaded.assets) :
    (∃ font, session.collection.store.get? (project.setup.base.url asset) = some font ∧
      ∃ extension preload sizeAdjusted,
        Asset.fileName font.content extension preload sizeAdjusted = asset) ∧
    (Asset.isPreloadable asset = true →
      ∃ entry, session.manifest.get? loaded.module = some entry ∧ asset ∈ entry) := by
  have hserved := hreachable.served hregular
  refine ⟨?_, hserved.listed key loaded hget asset hasset⟩
  have hreferenced : session.collection.references (project.setup.base.url asset) = true := by
    refine Collection.references_iff.mpr ⟨key, loaded, hget, ?_⟩
    rw [hserved.urls key loaded hget]
    exact List.mem_map_of_mem hasset
  obtain ⟨font, hfont⟩ := Table.contains_iff.mp (hserved.stored _ hreferenced)
  obtain ⟨hurl, extension, preload, sizeAdjusted, hname⟩ := hserved.names _ font hfont
  refine ⟨font, hfont, extension, preload, sizeAdjusted, ?_⟩
  rw [hname, project.setup.base.url_injective hurl]

/-- The file of the small build is in the store, and listed under its module. -/
theorem smallBuild_has_its_font :
    ∃ loaded, (built smallProject smallBuild).collection.stylesheets.get? smallKey = some loaded ∧
      (∃ font, (built smallProject smallBuild).collection.store.get?
          (smallProject.setup.base.url smallAsset) = some font ∧
        ∃ extension preload sizeAdjusted,
          Asset.fileName font.content extension preload sizeAdjusted = smallAsset) ∧
      ∃ entry, (built smallProject smallBuild).manifest.get? loaded.module = some entry ∧
        smallAsset ∈ entry := by
  obtain ⟨loaded, hget, hassets⟩ := Option.map_eq_some_iff.mp assets_smallBuild
  have hasset : smallAsset ∈ loaded.assets := by
    rw [hassets]
    exact List.mem_singleton_self smallAsset
  have hfonts := stylesheets_have_their_fonts regular_smallProject
    (reachable_built smallProject isPlain_smallBuild) hget hasset
  exact ⟨loaded, hget, hfonts.1, hfonts.2 (by decide)⟩

end Session

end FontHosting
