import FontHosting.Text.Search

/-!
# Requests

A request is a method and the path that its target names.  `Request.read?` refuses
a method, a target or a header that HTTP does not allow.

The target is `*`, a path from the root on, a whole URL, or the bare name of a
server.  The query and the fragment do not matter here.
-/

namespace FontHosting.Http

/-- A request without a body. -/
structure Request where
  method : String
  /-- The path of the target; empty if the target is only the name of a server. -/
  path : String
  deriving DecidableEq, Repr

/-! ## Characters -/

/-- Characters of methods and of the names of headers. -/
def isTokenChar (c : Char) : Bool :=
  c.isAlphanum || "!#$%&'*+-.^_\x60|~".toList.contains c

/-- Characters of the values of headers: all but the control characters of ASCII, of which a
tabulator is allowed. -/
def isValueChar (c : Char) : Bool :=
  c = '\t' || (0x20 ≤ c.toNat && c.toNat != 0x7F)

/-- Characters of schemes. -/
def isSchemeChar (c : Char) : Bool :=
  c.isAlphanum || c = '+' || c = '-' || c = '.' || c = '~'

/-- Characters of the names of servers, a percent sign apart. -/
def isServerChar (c : Char) : Bool :=
  c.isAlphanum || "!$&'()*+,-.:;=@[]_~".toList.contains c

/-- Characters of paths. -/
def isPathChar (c : Char) : Bool :=
  let code := c.toNat
  code = 0x21 || code = 0x22 || (0x24 ≤ code && code ≤ 0x3B) || code = 0x3D ||
    (0x40 ≤ code && code ≤ 0x5F) || (0x61 ≤ code && code ≤ 0x7E) || 0x7F ≤ code

/-- Characters of queries. -/
def isQueryChar (c : Char) : Bool :=
  let code := c.toNat
  code = 0x21 || (0x24 ≤ code && code ≤ 0x3B) || code = 0x3D || 0x3F ≤ code

/-! ## Targets -/

/-- The longest target, in bytes. -/
def maximalTarget : Nat := 65534

/-- The path of a target that starts with it, in front of a query and a fragment. -/
def readPath? (target : List Char) : Option (List Char) :=
  let target := target.takeWhile (· != '#')
  let path := target.takeWhile (· != '?')
  let query := (target.dropWhile (· != '?')).drop 1
  if path.all isPathChar && query.all isQueryChar then some path else none

/-- How the name of a server has been read so far. -/
structure ServerScan where
  /-- The colons since the last `@` or `]`. -/
  colons : Nat
  isOpen : Bool
  isClosed : Bool
  hasPercent : Bool

/-- Read one more character of the name of a server. -/
def ServerScan.step (scan : ServerScan) (c : Char) : Option ServerScan :=
  if c = ':' then
    if scan.colons ≥ 8 then none else some { scan with colons := scan.colons + 1 }
  else if c = '[' then
    if scan.hasPercent || scan.isOpen then none else some { scan with isOpen := true }
  else if c = ']' then
    if !scan.isOpen || scan.isClosed then none
    else some { scan with isClosed := true, colons := 0, hasPercent := false }
  else if c = '@' then some { scan with colons := 0, hasPercent := false }
  else if c = '%' then some { scan with hasPercent := true }
  else if isServerChar c then some scan
  else none

/-- Whether a text is the name of a server, perhaps with a user in front and a number behind. -/
def isServer (name : List Char) : Bool :=
  match name.foldlM ServerScan.step ⟨0, false, false, false⟩ with
  | none => false
  | some scan =>
      scan.isOpen == scan.isClosed && scan.colons ≤ 1 && !scan.hasPercent &&
        name.getLast? != some '@'

/-- The longest scheme. -/
def maximalScheme : Nat := 64

/-- What follows the scheme and the `://` of a URL; the whole text if it has none. -/
def afterScheme (target : List Char) : Option (Bool × List Char) :=
  let scheme := target.takeWhile isSchemeChar
  match Text.after? "://".toList (target.dropWhile isSchemeChar) with
  | none => some (false, target)
  | some rest => if scheme.length > maximalScheme then none else some (true, rest)

/-- The path of a target. -/
def targetPath? (target : List Char) : Option (List Char) :=
  if target.isEmpty || (String.ofList target).utf8ByteSize > maximalTarget then none
  else if target = ['*'] then some target
  else if target.head? = some '/' then readPath? target
  else do
    let (hasScheme, rest) ← afterScheme target
    let isEnd := fun c => c = '/' || c = '?' || c = '#'
    let server := rest.takeWhile fun c => !isEnd c
    let tail := rest.dropWhile fun c => !isEnd c
    if !isServer server || server.isEmpty then none
    else if !hasScheme then (if tail.isEmpty then some [] else none)
    else
      let path ← readPath? tail
      return if path.isEmpty then ['/'] else path

/-- The request of a method, a target and headers. -/
def Request.read? (method target : String) (headers : List (String × String)) :
    Option Request := do
  let path ← targetPath? target.toList
  let isToken := fun (text : String) => !text.isEmpty && text.toList.all isTokenChar
  let isHeader := fun (header : String × String) =>
    isToken header.1 && header.2.toList.all isValueChar
  if isToken method && headers.all isHeader then
    some ⟨method, String.ofList path⟩
  else none

end FontHosting.Http
