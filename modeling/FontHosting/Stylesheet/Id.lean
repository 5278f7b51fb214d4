import FontHosting.LoaderKind
import FontHosting.Text.Blank
import FontHosting.Text.Percent

/-!
# Names of stylesheets

A font call is turned into the import of a stylesheet that does not exist as a
file.  The name of that stylesheet carries the whole call: the loader, the module
that contains the call, the font function, its arguments as JSON, and the name of
the constant.  A bundler may resolve such a name to a path, append parameters to
it or reorder them; `key?` undoes that.
-/

namespace FontHosting.Stylesheet

/-- What the name of a stylesheet tells about a font call. -/
structure Query where
  /-- The module that contains the call, below the root directory. -/
  path : String
  /-- The imported font function; empty for a default import. -/
  function : String
  /-- The arguments, as a JSON list. -/
  arguments : String
  /-- The constant that the font is assigned to. -/
  variableName : String
  deriving DecidableEq, Repr

/-- The keys of the four fields, in the order in which they are written. -/
def fieldKeys : List String := ["path", "import", "arguments", "variableName"]

/-- A key and its encoded value. -/
def renderField (key : String) (value : List Char) : List Char :=
  key.toList ++ '=' :: Text.Percent.encode value

/-- The fields with their keys. -/
def Query.pairs (query : Query) : List (String × List Char) :=
  [("path", query.path.toList), ("import", query.function.toList),
    ("arguments", query.arguments.toList), ("variableName", query.variableName.toList)]

/-- A query as it stands behind the `?` of a name. -/
def Query.render (query : Query) : List Char :=
  Text.join ['&'] (query.pairs.map fun pair => renderField pair.1 pair.2)

/-- The first value of a key. -/
def firstValue? (pairs : List (List Char × List Char)) (key : String) : Option (List Char) :=
  pairs.lookup key.toList

/-- A query as it stands in a name, with or without its `?`.  All four fields must be
there, and the first of several values counts. -/
def Query.read? (text : List Char) : Option Query := do
  let pairs := Text.Percent.queryPairs ((Text.after? ['?'] text).getD text)
  return {
    path := String.ofList (← firstValue? pairs "path")
    function := String.ofList (← firstValue? pairs "import")
    arguments := String.ofList (← firstValue? pairs "arguments")
    variableName := String.ofList (← firstValue? pairs "variableName") }

/-- The part of a name before its first `?`. -/
def pathPart (id : List Char) : List Char :=
  id.takeWhile (· != '?')

/-- The part of a name from its first `?` on. -/
def queryPart (id : List Char) : List Char :=
  id.dropWhile (· != '?')

/-- The file name of every stylesheet. -/
def fileName : List Char := "target.css".toList

/-- Two parts of a path with one separator between them. -/
def joinPath (base segment : List Char) : List Char :=
  if base.isEmpty then segment
  else Text.dropEndWhile (· == '/') base ++ '/' :: segment.dropWhile (· == '/')

/-- The name of a stylesheet. -/
structure Id where
  /-- The module of the loader. -/
  loader : String
  query : Query
  deriving DecidableEq, Repr

/-- The path of a stylesheet. -/
def Id.targetPath (id : Id) : List Char :=
  joinPath id.loader.toList fileName

/-- A name as it is written in an import. -/
def Id.render (id : Id) : List Char :=
  id.targetPath ++ '?' :: id.query.render

/-- A written name, also one whose path was resolved. -/
def Id.read? (text : List Char) : Option Id := do
  let directory ← Text.before? fileName (pathPart text)
  let query ← Query.read? (queryPart text)
  return ⟨String.ofList (Text.dropEndWhile (· == '/') directory), query⟩

/-- A name without what does not belong to the call: its path, and the fields that it
has, encoded anew and in order. -/
def normalize (id : List Char) : List Char :=
  let pairs := Text.Percent.queryPairs ((queryPart id).dropWhile (· == '?'))
  let kept := fieldKeys.filterMap fun key => (firstValue? pairs key).map (renderField key)
  if kept.isEmpty then pathPart id else pathPart id ++ '?' :: Text.join ['&'] kept

/-- The key that all spellings of a stylesheet's name share. -/
def key? (id : String) : Option String :=
  let id := id.toList
  (LoaderKind.ofTargetPath? (pathPart id)).map fun kind =>
    String.ofList (normalize (kind.targetPath.toList ++ queryPart id))

end FontHosting.Stylesheet
