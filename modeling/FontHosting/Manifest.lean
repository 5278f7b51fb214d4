import FontHosting.Asset
import FontHosting.Json.Writer
import FontHosting.Url

/-!
# The font manifest

Which font files the page of a module should load early.  The manifest is kept
under the path of the module that contains the font calls.  A module has an entry
as soon as it uses any font file, even if none of them is to be loaded early; a page
then only opens a connection.
-/

namespace FontHosting

/-- The assets that are to be loaded early, by module. -/
structure Manifest where
  isUsingSizeAdjust : Bool
  entries : Table (List String)

namespace Manifest

/-- The manifest without entries. -/
def empty : Manifest := ⟨false, Table.empty⟩

/-- A list with the new ones among other items behind it. -/
def addNew (items added : List String) : List String :=
  added.foldl (fun items item => if items.contains item then items else items ++ [item]) items

/-- Take up the assets of a module.  Only those that are to be loaded early are listed. -/
def record (manifest : Manifest) (path : String) (assets : List String) : Manifest :=
  let isUsingSizeAdjust := manifest.isUsingSizeAdjust || assets.any Asset.isSizeAdjusted
  if assets.isEmpty then { manifest with isUsingSizeAdjust }
  else
    let entry := (manifest.entries.get? path).getD []
    ⟨isUsingSizeAdjust,
      manifest.entries.insert path (addNew entry (assets.filter Asset.isPreloadable))⟩

/-- Take assets away from the entry of a module. -/
def retract (manifest : Manifest) (path : String) (assets : List String) : Manifest :=
  match manifest.entries.get? path with
  | some entry => { manifest with
      entries := manifest.entries.insert path (entry.filter fun asset => !assets.contains asset) }
  | none => manifest

/-- Take the entry of a module away. -/
def remove (manifest : Manifest) (path : String) : Manifest :=
  { manifest with entries := manifest.entries.erase path }

/-- The assets of a module. -/
def get? (manifest : Manifest) (path : String) : Option (List String) :=
  manifest.entries.get? path

/-- The manifest as a document, the entries in the order of their paths. -/
def toJson (manifest : Manifest) : Json.Value :=
  let entries := manifest.entries.entries.map fun (path, assets) =>
    (path, Json.Value.list (assets.map .text))
  .object (entries ++ [("isUsingSizeAdjust", .boolean manifest.isUsingSizeAdjust)])

/-- The manifest as text, one item per line. -/
def toText (manifest : Manifest) : String :=
  String.ofList (manifest.toJson.renderPretty 0)

/-! ## Hints for pages -/

/-- Texts in order, each once. -/
def sortedOnce (values : List String) : List String :=
  (Table.ofList (values.map fun value => (value, ()))).keys

/-- The public URLs of the files that the page of a module should load early.  Nothing if the
module uses no fonts, an empty list if none of its files is to be loaded early. -/
def preloadableFonts (manifest : Manifest) (base : Asset.UrlBase) (path : String) :
    Option (List String) :=
  (manifest.get? path).map fun assets => sortedOnce (assets.map base.url)

/-- A file to load early. -/
structure Preload where
  href : String
  contentType : String
  deriving DecidableEq, Repr

/-- A server to connect to. -/
structure Preconnect where
  href : String
  /-- How credentials are sent to another origin, if that is said at all. -/
  crossOrigin : Option String
  deriving DecidableEq, Repr

/-- The hints for the page of a module. -/
structure Hints where
  preload : List Preload
  preconnect : List Preconnect
  deriving DecidableEq, Repr

/-- The server that the font files come from. -/
def preconnectTo (base : Asset.UrlBase) : Preconnect :=
  match Url.origin? base.path with
  | some origin => ⟨origin, none⟩
  | none => ⟨"/", some ""⟩

/-- The hint for one font file. -/
def preloadOf? (url : String) : Option Preload :=
  (Asset.fontExtension? url.toList).map fun extension =>
    ⟨Url.encodePath url, "font/" ++ extension⟩

/-- The hints for the page of a module: its files, or a connection if it has none to load
early. -/
def hints (manifest : Manifest) (base : Asset.UrlBase) (path : String) : Hints :=
  match manifest.preloadableFonts base path with
  | none => ⟨[], []⟩
  | some [] => ⟨[], [preconnectTo base]⟩
  | some fonts => ⟨fonts.filterMap preloadOf?, []⟩

end Manifest

end FontHosting
