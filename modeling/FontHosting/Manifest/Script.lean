import FontHosting.Manifest
import FontHosting.Text.Escaped

/-!
# The manifest as a script

Servers that render pages import the manifest as a script.  It exports the manifest
itself and two functions that answer for a module what `preloadableFonts` and `hints`
answer here.
-/

namespace FontHosting.Manifest

/-- The server that the font files come from, as an object of the script. -/
def renderPreconnect (base : Asset.UrlBase) : String :=
  match Url.origin? base.path with
  | some origin =>
      "\x7b href: " ++ String.ofList (Text.Escaped.quote origin.toList) ++ " \x7d"
  | none => "\x7b href: \"/\", crossOrigin: \"\" \x7d"

/-- The lines of the script. -/
def scriptLines (manifest prefixText preconnect : String) : List String := [
    "function encodeURIPath(file) \x7b",
    "  const origin = /^[a-z][a-z0-9+.-]*:\\/\\/[^/]*/i.exec(file);",
    "  const prefix = origin ? origin[0] : \"\";",
    "  return prefix + file.slice(prefix.length).split(\"/\").map((p) => encodeURIComponent(p)).join(\"/\");",
    "\x7d",
    "const __FONT_MANIFEST__ = " ++ manifest ++ ";",
    "const __FONT_URL_PREFIX__ = " ++ prefixText ++ ";",
    "export const manifest = Object.freeze(__FONT_MANIFEST__);",
    "export const getPreloadableFonts = (filePath) => \x7b",
    "  if (!filePath || !Object.prototype.hasOwnProperty.call(manifest, filePath)) return null;",
    "  const files = manifest[filePath];",
    "  if (!Array.isArray(files)) return null;",
    "  return [...new Set(files.map((file) => __FONT_URL_PREFIX__ + file))].sort();",
    "\x7d;",
    "export const getFontMetadata = (filePath) => \x7b",
    "  const metadata = \x7b preload: [], preconnect: [] \x7d;",
    "  const fonts = getPreloadableFonts(filePath);",
    "  if (!fonts) return metadata;",
    "  if (fonts.length === 0) \x7b",
    "    metadata.preconnect.push(" ++ preconnect ++ ");",
    "    return metadata;",
    "  \x7d",
    "  for (const font of fonts) \x7b",
    "    const ext = /\\.(woff|woff2|eot|ttf|otf)$/.exec(font);",
    "    if (ext) metadata.preload.push(\x7b href: encodeURIPath(font), type: `font/$\x7bext[1]\x7d` \x7d);",
    "  \x7d",
    "  return metadata;",
    "\x7d;",
    "export default \x7b manifest, getPreloadableFonts, getFontMetadata \x7d;"]

/-- The script that exposes a manifest. -/
def toScript (manifest : Manifest) (base : Asset.UrlBase) : String :=
  let lines := scriptLines manifest.toText (Json.quoteString (base.url ""))
    (renderPreconnect base)
  String.join (lines.map (· ++ "\n"))

end FontHosting.Manifest
