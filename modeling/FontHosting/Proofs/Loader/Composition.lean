import FontHosting.Google.Loader
import FontHosting.LocalFont.Loader
import FontHosting.Proofs.Loader.Extension

/-!
# What holds of every loader that is put together from its call

The loaders of the library do nothing on their own: they put the functions of their call
together.  So a property of runs holds of them if the functions have it and if it is kept
where runs are put together, which is what `Closed` says.  `Closed.google` and
`Closed.files` go through the two loaders once, for every such property.  Of the function
that emits a file they only need the property for files with the extension of a font.
-/

namespace FontHosting.Loader

open Asset (Bytes)

/-- A property of runs that the functions of a call have, and that is kept where runs are put
together. -/
structure Closed (call : Call) (Has : {α : Type} → Run α → Prop) : Prop where
  pure : ∀ {α : Type} (value : α), Has (pure value : Run α)
  throw : ∀ {α : Type} (error : Error), Has (throw error : Run α)
  bind : ∀ {α β : Type} {first : Run α} {next : α → Run β}, Has first →
    (∀ value, Has (next value)) → Has (first >>= next)
  tryCatch : ∀ {α : Type} {first : Run α} {handler : Error → Run α}, Has first →
    (∀ error, Has (handler error)) → Has (tryCatch first handler)
  emit : ∀ (content : Bytes), ∀ extension ∈ Asset.fontExtensions, ∀ preload sizeAdjusted : Bool,
    Has (emit call content extension preload sizeAdjusted)
  resolve : ∀ source : String, Has (resolve call source)
  report : ∀ message : String, Has (report message)
  readFile : ∀ path : String, Has (readFile call path)
  fetchStylesheet : ∀ url family : String, Has (fetchStylesheet call url family)
  fetchFont : ∀ url : String, Has (fetchFont call url)

namespace Closed

variable {call : Call} {Has : {α : Type} → Run α → Prop} {α β : Type}

theorem accept (h : Closed call Has) (checked : Except ArgumentFault α) :
    Has (accept checked) := by
  cases checked with
  | ok value => exact h.pure value
  | error fault => exact h.throw _

/-- What comes after a check may rely on it. -/
theorem accept_bind (h : Closed call Has) {checked : Except ArgumentFault α} {next : α → Run β}
    (hnext : ∀ value, checked = .ok value → Has (next value)) :
    Has (Loader.accept checked >>= next) := by
  cases checked with
  | ok value =>
      show Has (Pure.pure value >>= next)
      rw [pure_bind]
      exact hnext value rfl
  | error fault => exact h.throw (.arguments fault)

theorem mapM (h : Closed call Has) {run : α → Run β} {values : List α}
    (hrun : ∀ value ∈ values, Has (run value)) : Has (values.mapM run) := by
  induction values with
  | nil => exact h.pure []
  | cons value rest ih =>
      rw [List.mapM_cons]
      refine h.bind (hrun value List.mem_cons_self) fun _ => ?_
      exact h.bind (ih fun other hother => hrun other (List.mem_cons_of_mem _ hother)) fun _ =>
        h.pure _

/-! ## Fonts from the net -/

theorem hostFile (h : Closed call Has) (options : Google.Options) (sizeAdjusted : Bool)
    (file : Google.FontFile) : Has (Google.hostFile call options sizeAdjusted file) := by
  refine h.bind (h.fetchFont file.url) fun content? => ?_
  cases content? with
  | none => exact h.throw _
  | some content =>
      dsimp only
      cases hextension : Asset.fontExtension? file.url.toList with
      | none => exact h.throw _
      | some extension =>
          have hfont : extension ∈ Asset.fontExtensions := List.mem_of_find?_eq_some hextension
          exact h.bind (h.emit content extension hfont file.preload sizeAdjusted) fun _ => h.pure _

theorem selfHost (h : Closed call Has) (options : Google.Options) (url : String)
    (sizeAdjusted : Bool) : Has (Google.selfHost call options url sizeAdjusted) := by
  refine h.bind (h.fetchStylesheet url options.family) fun stylesheet? => ?_
  cases stylesheet? with
  | none => exact h.throw _
  | some stylesheet =>
      refine h.bind (h.mapM fun file _ => ?_) fun _ => h.pure _
      exact h.hostFile options sizeAdjusted file

theorem orFallback (h : Closed call Has) (options : Google.Options) (fallback : Option Fallback)
    {first : Run String} (hfirst : Has first) :
    Has (Google.orFallback call options fallback first) := by
  refine h.tryCatch hfirst fun error => ?_
  by_cases hdev : call.isDev = true
  · by_cases hserver : call.isServer = true
    · simp only [hdev, hserver, if_true]
      exact h.bind (h.report _) fun _ => h.pure _
    · simp only [hdev, hserver, if_true]
      exact h.pure _
  · simp only [hdev]
    exact h.throw error

/-- **The loader of font families has the property.** -/
theorem google (h : Closed call Has) (catalog : Google.Catalog) :
    Has (Google.loader catalog call) := by
  refine h.bind (h.accept _) fun options => h.bind (h.accept _) fun axes => ?_
  exact h.bind (h.orFallback options _ (h.selfHost options _ _)) fun css => h.pure _

/-! ## Fonts from files -/

theorem hostSource (h : Closed call Has) (options : LocalFont.Options)
    {source : LocalFont.Source} (hfont : source.extension ∈ Asset.fontExtensions) :
    Has (LocalFont.hostSource call options source) := by
  refine h.bind (h.resolve source.path) fun path => ?_
  refine h.bind (h.readFile path) fun content => ?_
  exact h.bind (h.emit content source.extension hfont options.preload _) fun url => h.pure _

/-- **The loader of font files has the property.** -/
theorem files (h : Closed call Has) : Has (LocalFont.loader call) := by
  refine h.accept_bind fun options hcheck => ?_
  refine h.bind (h.mapM fun source hsource => ?_) fun hosted => h.pure _
  exact h.hostSource options (LocalFont.extension_of_check hcheck source hsource)

end Closed

end FontHosting.Loader
