import FontHosting.Digest.Sha256
import FontHosting.Table
import FontHosting.Text.Blank
import FontHosting.Text.Path

/-!
# Font files as assets

A font file is served under a name made of its content, so a changed file has a
new name and equal files share one.  The name also tells whether a page should
load the file early and whether a fallback font was adjusted to its size.
-/

namespace FontHosting.Asset

/-- The bytes of a file. -/
abbrev Bytes := List UInt8

/-- The extensions of font files. -/
def fontExtensions : List String := ["woff", "woff2", "eot", "ttf", "otf"]

/-- The directory of font files. -/
def mediaDirectory : List Char := "static/media".toList

/-- The number of digits of the content's hash that stand in a name. -/
def hashLength : Nat := 16

/-- The name of a font file: `static/media/<hash>`, `-s` if a fallback was adjusted, `.p` if
the file is to be loaded early, and the extension. -/
def fileName (content : Bytes) (extension : String) (preload sizeAdjusted : Bool) : String :=
  let hash := (Digest.hexDigest content).take hashLength
  let adjustedMark := if sizeAdjusted then ['-', 's'] else []
  let preloadMark := if preload then ['.', 'p'] else []
  String.ofList
    (mediaDirectory ++ '/' :: hash ++ adjustedMark ++ preloadMark ++ '.' :: extension.toList)

/-- Whether a name ends with one of the given texts and the extension of a font. -/
def endsWith (marks : List String) (name : String) : Bool :=
  marks.any fun mark => fontExtensions.any fun extension =>
    (mark ++ "." ++ extension).toList.isSuffixOf name.toList

/-- Whether a name says that the file is to be loaded early. -/
def isPreloadable (name : String) : Bool := endsWith [".p"] name

/-- Whether a name says that a fallback was adjusted. -/
def isSizeAdjusted (name : String) : Bool := endsWith ["-s", "-s.p"] name

/-- The media type of a file. -/
def contentType (name : String) : String :=
  match (Text.Path.extension? name.toList).map String.ofList with
  | some "woff" => "font/woff"
  | some "woff2" => "font/woff2"
  | some "ttf" => "font/ttf"
  | some "otf" => "font/otf"
  | some "eot" => "application/vnd.ms-fontobject"
  | _ => "application/octet-stream"

/-- The extension of a font file's URL. -/
def fontExtension? (url : List Char) : Option String :=
  fontExtensions.find? fun extension => ('.' :: extension.toList).isSuffixOf url

/-! ## Public URLs -/

/-- Where the assets of a site lie. -/
structure UrlBase where
  path : String
  deriving DecidableEq, Repr

/-- A base path without the separators at its end. -/
def UrlBase.ofPath (path : String) : UrlBase :=
  ⟨String.ofList (Text.dropEndWhile (· == '/') path.toList)⟩

/-- The public URL of an asset. -/
def UrlBase.url (base : UrlBase) (name : String) : String :=
  base.path ++ "/_next/" ++ name

/-! ## Stored files -/

/-- A font file that is kept in memory. -/
structure StoredFont where
  fileName : String
  content : Bytes
  deriving DecidableEq, Repr

/-- The media type of a stored file. -/
def StoredFont.contentType (font : StoredFont) : String :=
  Asset.contentType font.fileName

/-- The font files that are kept in memory, under their public URLs. -/
abbrev Store := Table StoredFont

end FontHosting.Asset
