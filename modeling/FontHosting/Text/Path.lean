import FontHosting.Text.Search

/-!
# File paths

A path is a text with `/` between its components.  Repeated separators count
once, and a `.` counts only in front of a relative path.  `parts` is the list of
components, in which the root directory is a component of its own; comparing
paths means comparing these lists.
-/

namespace FontHosting.Text.Path

/-- A component of a path. -/
inductive Part where
  | root
  | here
  | up
  | name (text : List Char)
  deriving DecidableEq, Repr

/-- The component that a piece between separators stands for. -/
def Part.ofPiece? (piece : List Char) : Option Part :=
  if piece = [] ∨ piece = ['.'] then none
  else if piece = ['.', '.'] then some .up
  else some (.name piece)

/-- The text of a component. -/
def Part.text : Part → List Char
  | .root => ['/']
  | .here => ['.']
  | .up => ['.', '.']
  | .name text => text

/-- Whether a path starts at the root directory. -/
def isAbsolute (path : List Char) : Bool :=
  path.head? = some '/'

/-- The components of a path. -/
def parts (path : List Char) : List Part :=
  let pieces := splitOn '/' path
  let tail := pieces.filterMap Part.ofPiece?
  if isAbsolute path then .root :: tail
  else if pieces.head? = some ['.'] then .here :: tail
  else tail

/-- Whether two paths are equal, whatever separators they are written with. -/
def same (a b : String) : Bool :=
  parts a.toList == parts b.toList

/-- The plainest text with the given components. -/
def ofParts : List Part → List Char
  | .root :: rest => '/' :: join ['/'] (rest.map Part.text)
  | rest => join ['/'] (rest.map Part.text)

/-- What is left of a list that starts with another. -/
def partsAfter? : List Part → List Part → Option (List Part)
  | [], rest => some rest
  | a :: start, b :: rest => if a = b then partsAfter? start rest else none
  | _ :: _, [] => none

/-- The pieces that follow the first `count` components. -/
def dropParts : Nat → List (List Char) → List (List Char)
  | 0, pieces => pieces
  | _ + 1, [] => []
  | count + 1, piece :: rest =>
      if (Part.ofPiece? piece).isNone then dropParts (count + 1) rest else dropParts count rest

/-- Pieces without those at the end that are no component. -/
def trimPieces (pieces : List (List Char)) : List (List Char) :=
  (pieces.reverse.dropWhile fun piece => (Part.ofPiece? piece).isNone).reverse

/-- The part of `path` below the directory `root`, as it is written in `path`, if it
lies there.  A first piece that stands for the root directory or for a leading `.`
is one component. -/
def below? (root path : List Char) : Option (List Char) := do
  let _ ← partsAfter? (parts root) (parts path)
  let pieces := splitOn '/' path
  match (parts root).length, parts path with
  | 0, _ => return join ['/'] (trimPieces pieces)
  | count + 1, .root :: _ | count + 1, .here :: _ =>
      return relative (dropParts count (pieces.drop 1))
  | count, _ => return relative (dropParts count pieces)
where
  /-- Pieces without those at both ends that are no component. -/
  relative (pieces : List (List Char)) : List Char :=
    join ['/'] (trimPieces (pieces.dropWhile fun piece => (Part.ofPiece? piece).isNone))

/-- The name of the file that a path ends in. -/
def fileName? (path : List Char) : Option (List Char) :=
  match (parts path).getLast? with
  | some (.name text) => some text
  | _ => none

/-- What stands after the last point of the file name, unless nothing stands before it. -/
def extension? (path : List Char) : Option (List Char) := do
  let name ← fileName? path
  match splitLast? '.' name with
  | none | some ([], _) => none
  | some (_, extension) => some extension

/-- The path of the directory that a path lies in. -/
def parent? (path : List Char) : Option (List Char) :=
  match (parts path).getLast? with
  | none | some .root => none
  | some _ => some (ofParts (parts path).dropLast)

/-- The path that `segment` denotes inside the directory `base`. -/
def joined (base segment : List Char) : List Char :=
  if isAbsolute segment then segment
  else if base.isEmpty then segment
  else if base.getLast? = some '/' then base ++ segment
  else base ++ '/' :: segment

/-- Components with each `..` resolved against the name before it; at the root a `..`
stays there.  The components so far are in reverse. -/
def resolve : List Part → List Part → List Part
  | done, [] => done.reverse
  | done, .here :: rest => resolve done rest
  | done, .up :: rest =>
      match done with
      | .name _ :: before => resolve before rest
      | .root :: _ => resolve done rest
      | _ => resolve (.up :: done) rest
  | done, part :: rest => resolve (part :: done) rest

/-- The shortest path to the same file by its text alone; `.` if nothing is left. -/
def clean (path : List Char) : List Char :=
  match resolve [] (parts path) with
  | [] => ['.']
  | parts => ofParts parts

end FontHosting.Text.Path
