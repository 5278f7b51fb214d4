import FontHosting.Text.Percent

/-!
# Origins and paths of URLs

An absolute URL starts with an origin, `scheme://host`; the rest is its path.
-/

namespace FontHosting.Url

/-- The origin of an absolute URL and what stands behind it. -/
def splitOrigin? (url : List Char) : Option (List Char × List Char) := do
  let (scheme, rest) ← Text.splitOnce? "://".toList url
  if scheme.isEmpty || rest.isEmpty then none
  else
    let (host, path) := rest.span (· != '/')
    return (scheme ++ "://".toList ++ host, path)

/-- The origin of an absolute URL. -/
def origin? (url : String) : Option String :=
  (splitOrigin? url.toList).map fun parts => String.ofList parts.1

/-- The segments of a path, each encoded on its own. -/
def encodeSegments (path : List Char) : List Char :=
  Text.join ['/'] ((Text.splitOn '/' path).map Text.Percent.encode)

/-- A URL with its path encoded and its origin as it is. -/
def encodePath (url : String) : String :=
  match splitOrigin? url.toList with
  | some (origin, path) => String.ofList (origin ++ encodeSegments path)
  | none => String.ofList (encodeSegments url.toList)

end FontHosting.Url
