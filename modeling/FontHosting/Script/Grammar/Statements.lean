import FontHosting.Script.Grammar.Expressions

/-!
# Statements

Statements and declarations.  A declaration may not stand alone where a single
statement is asked for; there only `subStatement` is tried.
-/

namespace FontHosting.Script

open FontHosting.Script.Parser

/-- A condition or a subject in brackets. -/
def inRoundBrackets (recur : Recur) : Parser Node := do
  expect "("
  let inner ← within enclosed (recur .expression)
  expect ")"
  return inner

/-- Statements up to a closing brace, which is passed. -/
def statementsInBraces (item : Parser Node) : Parser (List Node) := do
  expect "\x7b"
  let statements ← many do
    if ← at? "\x7d" then return none else return some (← item)
  expect "\x7d"
  return statements

/-- A block. -/
def block (recur : Recur) : Parser Node := do
  let start ← startHere
  let statements ← statementsInBraces (within enclosed (recur .statement))
  form start .blockStatement statements

/-- The statements of a function. -/
def functionBody (recur : Recur) : Parser Node := do
  let start ← startHere
  let statements ← statementsInBraces (recur .statement)
  form start .body statements

/-! ## Variables -/

/-- Whether a name follows a token on the same line. -/
def nameFollows (context : Context) (following : Token) : Bool :=
  !following.afterLineEnd && (match following.word? with
    | some word => mayName context word
    | none => false)

/-- The kind of the variable declaration that starts here, if one does. -/
def variableKind? : Parser (Option VariableKind) := do
  let token ← token
  let following ← peek
  let context ← read
  if token.isKeyword "var" then return some .function
  else if token.isKeyword "const" then
    return if following.isKeyword "enum" && context.language.typed then none else some .constant
  else if token.isKeyword "let" then
    let declares := following.isPunctuator "[" || following.isPunctuator "\x7b" ||
      following.word?.any (!isReserved ·)
    return if declares then some .block else none
  else if token.isKeyword "using" && nameFollows context following then
    return if following.isKeyword "of" then none else some .disposable
  else if token.isKeyword "await" && context.allowAwait && following.isKeyword "using" &&
      !following.afterLineEnd then
    let named ← fits do
      advance
      advance
      require ((← atName) && !(← Parser.token).afterLineEnd)
    return if named then some .asyncDisposable else none
  else return none

/-- One variable with its type and its initial value.  Unless it stands in the head of a
loop, a constant and a pattern must have a value. -/
def declarator (recur : Recur) (kind : VariableKind) (inHead : Bool) : Parser Node := do
  let start ← startHere
  let target ← recur .bindingTarget
  let isName := target matches .binding ..
  if ← typed then
    if isName && (← at? "!") && !(← token).afterLineEnd then advance
    let _ ← eat "?"
  let type ← typeAfterColon recur
  let initial ← if ← eat "=" then pure [← recur .assignment] else pure []
  let needsValue := !inHead && (!isName || (kind != .function && kind != .block))
  require (!initial.isEmpty || !needsValue || (← read).ambient)
  return .declarator target type initial (← spanFrom start)

/-- A list of variables from its keyword on, without its end. -/
def variableList (recur : Recur) (kind : VariableKind) (inHead : Bool) : Parser (List Node) := do
  if kind = .asyncDisposable then advance
  advance
  commaSeparated (declarator recur kind inHead)

/-- A variable declaration that started at `start`, with its end. -/
def variableStatement (recur : Recur) (start : Nat) (kind : VariableKind) : Parser Node := do
  let declarators ← variableList recur kind false
  semicolon
  return .variables kind declarators (← spanFrom start)

/-! ## Loops and choices -/

/-- The rest of the head of a loop that has a condition and a step. -/
def countedHead (recur : Recur) : Parser (List Node) := do
  expect ";"
  let condition ← if ← at? ";" then pure [] else pure [← within enclosed (recur .expression)]
  expect ";"
  let step ← if ← at? ")" then pure [] else pure [← within enclosed (recur .expression)]
  return condition ++ step

/-- The rest of the head of a loop after what it starts with, and the kind of the loop. -/
def headRest (recur : Recur) (isAwait : Bool) (first : Node) (mayRun : Bool) :
    Parser (Form × List Node) := do
  if (← atKeyword "of") && mayRun then
    advance
    let values ← within enclosed (recur .assignment)
    return (.forOf isAwait, [first, values])
  else if (← atKeyword "in") && mayRun then
    require !isAwait
    advance
    let values ← within enclosed (recur .expression)
    return (.forIn, [first, values])
  else
    require !isAwait
    return (.forStatement, first :: (← countedHead recur))

/-- What stands between the brackets of a loop. -/
def loopHead (recur : Recur) (isAwait : Bool) : Parser (Form × List Node) := do
  let start ← startHere
  if ← at? ";" then
    require !isAwait
    return (.forStatement, ← countedHead recur)
  else
    match ← variableKind? with
    | some kind =>
        let declarators ← within (fun context => { context with allowIn := false })
          (variableList recur kind true)
        let first := Node.variables kind declarators (← spanFrom start)
        headRest recur isAwait first true
    | none =>
        let bareAsync := (← atKeyword "async") && !isAwait && (← peek).isKeyword "of"
        let first ← within (fun context => { enclosed context with allowIn := false })
          (recur .expression)
        if (← atKeyword "of") || (← atKeyword "in") then
          match toTarget? first with
          | some target => headRest recur isAwait target (!bareAsync)
          | none => fail
        else headRest recur isAwait first false

/-- A loop that starts with `for`. -/
def forLoop (recur : Recur) : Parser Node := do
  let start ← startHere
  expectKeyword "for"
  let isAwait ← if (← read).allowAwait then eatKeyword "await" else pure false
  expect "("
  let (kind, head) ← loopHead recur isAwait
  expect ")"
  let body ← recur .subStatement
  form start kind (head ++ [body])

/-- A loop whose condition stands behind its body. -/
def doLoop (recur : Recur) : Parser Node := do
  let start ← startHere
  expectKeyword "do"
  let body ← recur .subStatement
  expectKeyword "while"
  let condition ← inRoundBrackets recur
  let _ ← eat ";"
  form start .doWhile [body, condition]

/-- One case of a choice with its statements. -/
def switchCase (recur : Recur) : Parser Node := do
  let start ← startHere
  let isDefault ← eatKeyword "default"
  let value ←
    if isDefault then pure []
    else
      expectKeyword "case"
      pure [← within enclosed (recur .expression)]
  expect ":"
  let statements ← many do
    if (← at? "\x7d") || (← atKeyword "case") || (← atKeyword "default") then return none
    else return some (← recur .statement)
  form start (.switchCase isDefault) (value ++ statements)

/-- A choice between cases. -/
def switchStatement (recur : Recur) : Parser Node := do
  let start ← startHere
  expectKeyword "switch"
  let subject ← inRoundBrackets recur
  let cases ← statementsInBraces (switchCase recur)
  form start .switchStatement (subject :: cases)

/-- The clause that takes up a failure. -/
def catchClause (recur : Recur) : Parser (List Node) := do
  let start ← startHere
  if ← eatKeyword "catch" then
    let target ←
      if ← eat "(" then
        let target ← recur .bindingTarget
        let type ← typeAfterColon recur
        expect ")"
        pure (target :: type)
      else pure []
    let body ← recur .block
    return [← form start .catchClause (target ++ [body])]
  else return []

/-- A block with what is done when it fails and when it ends. -/
def tryStatement (recur : Recur) : Parser Node := do
  let start ← startHere
  expectKeyword "try"
  let body ← recur .block
  let handler ← catchClause recur
  let finish ←
    if ← eatKeyword "finally" then pure [← recur .block] else pure []
  require (!handler.isEmpty || !finish.isEmpty)
  form start .tryStatement (body :: handler ++ finish)

/-- A jump out of a loop or a labeled statement. -/
def jump (kind : Form) : Parser Node := do
  let start ← startHere
  advance
  let label ← if ← mayEnd then pure [] else pure [← plainWord]
  semicolon
  form start kind label

/-- The statements that start with a keyword of their own. -/
def keywordStatement (recur : Recur) (start : Nat) (word : String) : Parser Node := do
  match word with
  | "if" =>
      advance
      let condition ← inRoundBrackets recur
      let yes ← recur .subStatement
      let no ← if ← eatKeyword "else" then pure [← recur .subStatement] else pure []
      form start .ifStatement (condition :: yes :: no)
  | "for" => forLoop recur
  | "while" =>
      advance
      let condition ← inRoundBrackets recur
      form start .whileStatement [condition, ← recur .subStatement]
  | "do" => doLoop recur
  | "switch" => switchStatement recur
  | "try" => tryStatement recur
  | "break" => jump .breakStatement
  | "continue" => jump .continueStatement
  | "return" =>
      require (← read).allowReturn
      advance
      let value ← if ← mayEnd then pure [] else pure [← within enclosed (recur .expression)]
      semicolon
      form start .returnStatement value
  | "throw" =>
      advance
      require (!(← token).afterLineEnd)
      let value ← within enclosed (recur .expression)
      semicolon
      form start .throwStatement [value]
  | "with" =>
      advance
      let subject ← inRoundBrackets recur
      form start .withStatement [subject, ← recur .subStatement]
  | "debugger" =>
      advance
      semicolon
      form start .debuggerStatement []
  | _ => fail

/-- The keywords that such statements start with. -/
def statementWords : List String :=
  ["if", "for", "while", "do", "switch", "try", "break", "continue", "return", "throw", "with",
    "debugger"]

/-- An expression, or a statement with a label in front. -/
def expressionStatement (recur : Recur) : Parser Node := do
  let start ← startHere
  if (← atName) && (← peek).isPunctuator ":" then
    let label ← plainWord
    advance
    form start .labeled [label, ← recur .subStatement]
  else
    let value ← within enclosed (recur .expression)
    semicolon
    form start .expressionStatement [value]

/-- A statement that may stand alone in a loop or behind a condition. -/
def subStatement (recur : Recur) : Parser Node := do
  let start ← startHere
  let token ← token
  let kind ← variableKind?
  if token.isPunctuator "\x7b" then recur .block
  else if token.isPunctuator ";" then
    advance
    form start .emptyStatement []
  else if kind = some .function then variableStatement recur start .function
  else
    require kind.isNone
    match token.word? with
    | some word =>
        if token.escaped then expressionStatement recur
        else if statementWords.contains word then keywordStatement recur start word
        else if word == "function" then
          let function ← functionForm recur start false true true
          require (!(function matches .form (.function _ true) _ _))
          return function
        else
          require (word != "class" && !(← asyncFunctionStarts))
          expressionStatement recur
    | none => expressionStatement recur

/-! ## Typed declarations -/

/-- One member of an enumeration. -/
def enumMember (recur : Recur) : Parser Node := do
  let start ← startHere
  let (computed, key) ← propertyName recur false
  require (!computed || (key matches .text .. | .form .template ..))
  require (!(key matches .number .. | .form (.bigNumber _) ..))
  let value ← initialValue recur
  form start .enumMember (key :: value)

/-- An enumeration from its keyword on. -/
def enumeration (recur : Recur) (start : Nat) (isConst : Bool) : Parser Node := do
  expectKeyword "enum"
  let name ← bindingName
  expect "\x7b"
  let members ← commaList "\x7d" (enumMember recur)
  form start (.enumeration isConst) (name :: members)

/-- A name for a type. -/
def typeAlias (recur : Recur) (start : Nat) : Parser Node := do
  advance
  let name ← bindingName
  let typeParameters ← typeParametersHere recur
  expect "="
  let type ← recur .type
  semicolon
  form start .typeAlias (name :: typeParameters ++ [type])

/-- A parent of an interface. -/
def interfaceParent (recur : Recur) : Parser Node := do
  let parent ← recur .member
  let arguments ← typeArgumentsHere recur
  form parent.start .heritage (parent :: arguments)

/-- An interface from its keyword on. -/
def interface (recur : Recur) (start : Nat) : Parser Node := do
  advance
  let name ← bindingName
  let typeParameters ← typeParametersHere recur
  let parents ←
    if ← eatKeyword "extends" then commaSeparated (interfaceParent recur) else pure []
  let body ← objectType recur
  form start .interface (name :: typeParameters ++ parents ++ [body])

/-- The items of a namespace in their braces. -/
def namespaceBody (recur : Recur) : Parser Node := do
  let start ← startHere
  let items ← statementsInBraces (within enclosed (recur .item))
  form start .body items

/-- A namespace, or a module named by a string, from its keyword on. -/
def namespaceForm (recur : Recur) (start : Nat) (keyword : String) : Parser Node := do
  advance
  match (← token).kind with
  | .text _ =>
      require (keyword == "module")
      let name ← textNode
      if ← at? "\x7b" then form start (.namespace keyword) [name, ← namespaceBody recur]
      else
        semicolon
        form start (.namespace keyword) [name]
  | _ =>
      let first ← bindingName
      let others ← many do
        if ← eat "." then return some (← bindingName) else return none
      form start (.namespace keyword) (first :: others ++ [← namespaceBody recur])

/-- The words that may start a typed declaration. -/
inductive TypedStart where
  | alias
  | interface
  | namespace (keyword : String)
  | global
  | enumeration
  | constEnumeration
  | abstractClass
  | declared

/-- The typed declaration that starts here, if one does. -/
def typedStart? : Parser (Option TypedStart) := do
  let token ← token
  let following ← peek
  let context ← read
  let named := nameFollows context following
  if !context.language.typed || token.escaped then return none
  else
    match token.word? with
    | some "type" => return if named then some .alias else none
    | some "interface" => return if named then some .interface else none
    | some "namespace" => return if named then some (.namespace "namespace") else none
    | some "module" =>
        let quoted := following.kind matches .text _
        return if named || (quoted && !following.afterLineEnd) then some (.namespace "module")
          else none
    | some "global" =>
        return if following.isPunctuator "\x7b" && !following.afterLineEnd then some .global
          else none
    | some "enum" => return some .enumeration
    | some "const" => return if following.isKeyword "enum" then some .constEnumeration else none
    | some "abstract" =>
        return if following.isKeyword "class" && !following.afterLineEnd then some .abstractClass
          else none
    | some "declare" =>
        let declares := ["const", "let", "var", "function", "async", "class", "abstract", "enum",
          "type", "interface", "namespace", "module", "global", "import", "using"].any
          following.isKeyword
        return if declares && !following.afterLineEnd then some .declared else none
    | _ => return none

/-- A typed declaration.  A declared variable is a variable all the same. -/
def typedDeclaration (recur : Recur) (start : Nat) (kind : TypedStart) : Parser Node := do
  match kind with
  | .alias => typeAlias recur start
  | .interface => interface recur start
  | .namespace keyword => namespaceForm recur start keyword
  | .global =>
      let name ← plainWord
      form start (.namespace "global") [name, ← namespaceBody recur]
  | .enumeration => enumeration recur start false
  | .constEnumeration =>
      advance
      enumeration recur start true
  | .abstractClass =>
      advance
      classForm recur start []
  | .declared =>
      advance
      let inner ← within (fun context => { context with ambient := true }) (recur .item)
      match inner with
      | .variables kind declarators span => return .variables kind declarators ⟨start, span.stop⟩
      | inner => form start .declared [inner]

/-! ## Statements -/

/-- A declaration or a statement. -/
def statement (recur : Recur) : Parser Node := do
  let start ← startHere
  match ← typedStart? with
  | some kind => typedDeclaration recur start kind
  | none =>
      match ← variableKind? with
      | some kind => variableStatement recur start kind
      | none =>
          if ← atKeyword "class" then classForm recur start []
          else if ← at? "@" then
            let decorators ← decorators recur
            let _ ← eatKeyword "abstract"
            classForm recur start decorators
          else if ← atKeyword "function" then functionForm recur start false true true
          else if ← asyncFunctionStarts then
            advance
            functionForm recur start true true true
          else recur .subStatement

end FontHosting.Script
