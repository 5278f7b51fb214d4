import FontHosting.Script.Grammar.Statements

/-!
# Imports and exports

What a script takes from other modules and what it gives to them.
-/

namespace FontHosting.Script

open FontHosting.Script.Parser

/-! ## Imports -/

/-- The string that names a module. -/
def moduleSource : Parser String := do
  match ← textNode with
  | .text value _ => return value
  | _ => fail

/-- One attribute of an import. -/
def importAttribute : Parser Node := do
  let start ← startHere
  let key ← moduleName
  expect ":"
  let value ← textNode
  form start .importSetting [key, value]

/-- The attributes behind the name of a module, if there are any. -/
def importAttributes : Parser (List Node) := do
  let token ← token
  if token.isKeyword "with" || (token.isKeyword "assert" && !token.afterLineEnd) then
    advance
    expect "\x7b"
    commaList "\x7d" importAttribute
  else return []

/-- The name behind `as`, or the imported name itself, which then must be one that can be
bound. -/
def importedAs (imported : Node) : Parser Node := do
  if ← eatKeyword "as" then bindingName
  else
    match imported with
    | .word name span =>
        require (mayName (← read) name)
        return .binding name span
    | _ => fail

/-- What a name between modules takes. -/
def importedOf : Node → Imported
  | .word name _ | .text name _ => .named name
  | _ => .default

/-- Whether the word `type` here only says that a type is meant.  It does so if a name
follows that is not its own other name. -/
def typeIsMark : Parser Bool := do
  let token ← token
  if !token.isKeyword "type" || !(← typed) then return false
  else
    fits do
      advance
      let second ← Parser.token
      if second.isKeyword "as" then
        -- `type as`, `type as as b` mean the type `as`; `type as b`, `type as as` the value `type`
        advance
        let third ← Parser.token
        if third.isKeyword "as" then
          advance
          require (← Parser.token).isWord
        else require (!third.isWord)
      else require (second.isWord || (second.kind matches .text _))

/-- One name that is imported from a module. -/
def importSpecifier : Parser Node := do
  let start ← startHere
  if ← typeIsMark then advance
  let imported ← moduleName
  let target ← importedAs imported
  return .importSpecifier (importedOf imported) target (← spanFrom start)

/-- All of a module under one name. -/
def importEverything : Parser Node := do
  let start ← startHere
  expect "*"
  expectKeyword "as"
  let target ← bindingName
  return .importSpecifier .everything target (← spanFrom start)

/-- What stands between `import` and `from`. -/
def importClause : Parser (List Node) := do
  if ← at? "*" then return [← importEverything]
  else if ← eat "\x7b" then commaList "\x7d" importSpecifier
  else
    let start ← startHere
    let target ← bindingName
    let first := Node.importSpecifier .default target (← spanFrom start)
    if ← eat "," then
      if ← at? "*" then return [first, ← importEverything]
      else
        expect "\x7b"
        return first :: (← commaList "\x7d" importSpecifier)
    else return [first]

/-- What a name stands for after an equals sign: a module, or a name with points. -/
def importTarget : Parser Node := do
  let start ← startHere
  if (← atKeyword "require") && (← peek).isPunctuator "(" then
    advance
    advance
    let source ← textNode
    expect ")"
    form start .externalModule [source]
  else typeName

/-- Whether the word after `import` only says that types are meant. -/
def importTypeIsMark : Parser Bool := do
  if !(← atKeyword "type") || !(← typed) then return false
  else
    let following ← peek
    if following.isPunctuator "\x7b" || following.isPunctuator "*" then return true
    else if following.isKeyword "from" then
      fits do
        advance
        advance
        require ((← atKeyword "from") || (← at? "="))
    else return following.isWord

/-- Whether a word after `import` says when the module is to be run. -/
def importPhase : Parser Bool := do
  let following ← peek
  if ← atKeyword "defer" then return following.isPunctuator "*"
  else if ← atKeyword "source" then
    fits do
      advance
      let _ ← bindingName
      expectKeyword "from"
      require ((← token).kind matches .text _)
  else return false

/-- An import that started at `start`, from its keyword on. -/
def importDeclaration (start : Nat) (isExported : Bool) : Parser Node := do
  expectKeyword "import"
  if (← token).kind matches .text _ then
    let source ← moduleSource
    let attributes ← importAttributes
    semicolon
    return .importFrom false [] source attributes (← spanFrom start)
  else
    let typeOnly ← importTypeIsMark
    if typeOnly || (← importPhase) then advance
    if (← typed) && (← atName) && (← peek).isPunctuator "=" then
      let name ← bindingName
      advance
      let target ← importTarget
      semicolon
      form start (.importEquals isExported typeOnly) [name, target]
    else
      require !isExported
      let specifiers ← importClause
      expectKeyword "from"
      let source ← moduleSource
      let attributes ← importAttributes
      semicolon
      return .importFrom typeOnly specifiers source attributes (← spanFrom start)

/-! ## Exports -/

/-- One name that is exported. -/
def exportSpecifier : Parser Node := do
  let start ← startHere
  let typeOnly ← typeIsMark
  if typeOnly then advance
  let name ← moduleName
  let shown ← if ← eatKeyword "as" then moduleName else pure name
  form start (.exportName typeOnly) [name, shown]

/-- An exported name of this script: it refers to a binding. -/
def localName? : Node → Option Node
  | .form (.exportName typeOnly) [.word name span, shown] whole =>
      if isReserved name then none
      else some (.form (.exportName typeOnly) [.reference name span, shown] whole)
  | _ => none

/-- The names in braces that are exported, from this script or from another module. -/
def exportNames (start : Nat) (typeOnly : Bool) : Parser Node := do
  expect "\x7b"
  let names ← commaList "\x7d" exportSpecifier
  if ← eatKeyword "from" then
    let source ← textNode
    let attributes ← importAttributes
    semicolon
    form start (.exportNames typeOnly) (names ++ source :: attributes)
  else
    match names.mapM localName? with
    | none => fail
    | some names =>
        semicolon
        form start (.exportNames typeOnly) names

/-- Everything of another module. -/
def exportAll (start : Nat) (typeOnly : Bool) : Parser Node := do
  expect "*"
  let name ← if ← eatKeyword "as" then pure [← moduleName] else pure []
  expectKeyword "from"
  let source ← textNode
  let attributes ← importAttributes
  semicolon
  form start (.exportAll typeOnly) (name ++ source :: attributes)

/-- What a script exports without a name. -/
def exportDefault (recur : Recur) (start : Nat) : Parser Node := do
  expectKeyword "default"
  let valueStart ← startHere
  let following ← peek
  let isTyped ← typed
  let value ←
    if ← atKeyword "function" then functionForm recur valueStart false true false
    else if ← asyncFunctionStarts then
      advance
      functionForm recur valueStart true true false
    else if (← atKeyword "class") || (← at? "@") then recur .classDefinition
    else if isTyped && (← atKeyword "abstract") && following.isKeyword "class" then
      advance
      classForm recur valueStart []
    else if isTyped && (← atKeyword "interface") && following.isWord && !following.afterLineEnd then
      interface recur valueStart
    else
      let value ← within enclosed (recur .assignment)
      semicolon
      pure value
  form start .exportDefault [value]

/-- Whether a statement is a declaration, so that it can be exported. -/
def isDeclaration : Node → Bool
  | .variables .. => true
  | .form (.function ..) .. | .form .classDefinition .. | .form .typeAlias .. | .form .interface ..
  | .form (.enumeration _) .. | .form (.namespace _) .. | .form .declared .. => true
  | _ => false

/-- Whether names or a star follow the word `type` after `export`. -/
def exportTypeIsMark : Parser Bool := do
  let following ← peek
  return (← atKeyword "type") && (← typed) &&
    (following.isPunctuator "\x7b" || following.isPunctuator "*")

/-- An export. -/
def exportDeclaration (recur : Recur) : Parser Node := do
  let start ← startHere
  expectKeyword "export"
  let isTyped ← typed
  let following ← peek
  let typeOnly ← exportTypeIsMark
  if typeOnly then advance
  if ← at? "*" then exportAll start typeOnly
  else if ← at? "\x7b" then exportNames start typeOnly
  else if ← atKeyword "default" then exportDefault recur start
  else if isTyped && (← at? "=") then
    advance
    let value ← within enclosed (recur .expression)
    semicolon
    form start .exportEquals [value]
  else if isTyped && (← atKeyword "as") && following.isKeyword "namespace" then
    advance
    advance
    let name ← plainWord
    semicolon
    form start .exportNamespace [name]
  else if ← atKeyword "import" then importDeclaration start true
  else
    let declaration ← recur .statement
    require (isDeclaration declaration)
    return .exported declaration (← spanFrom start)

/-- An exported class whose decorators stand before `export`. -/
def decoratedExport (recur : Recur) : Parser Node := do
  let start ← startHere
  let decorators ← decorators recur
  require (!decorators.isEmpty && (← atKeyword "export"))
  match ← exportDeclaration recur with
  | .exported declaration span =>
      return .exported (.form .classDefinition (decorators ++ [declaration]) declaration.span)
        ⟨start, span.stop⟩
  | .form kind parts span => return .form kind (decorators ++ parts) ⟨start, span.stop⟩
  | _ => fail

/-- Whether an import starts here, and no expression that imports. -/
def importStarts : Parser Bool := do
  let following ← peek
  return (← atKeyword "import") && !following.isPunctuator "(" && !following.isPunctuator "."

/-- A statement, an import or an export. -/
def item (recur : Recur) : Parser Node := do
  if ← importStarts then importDeclaration (← startHere) false
  else if ← atKeyword "export" then exportDeclaration recur
  else
    let decorated ← if ← at? "@" then attempt (decoratedExport recur) else pure none
    match decorated with
    | some node => return node
    | none => recur .statement

end FontHosting.Script
