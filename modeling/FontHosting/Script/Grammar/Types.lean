import FontHosting.Script.Grammar.Targets

/-!
# Types

Signatures, object types and the operators on types.  A closing bracket that ends
a list of type arguments is a token of its own, so nested lists need no care.
-/

namespace FontHosting.Script

open FontHosting.Script.Parser

/-- Run a parser where a conditional type may stand again. -/
def inBrackets {α : Type} (parser : Parser α) : Parser α :=
  within (fun context => { context with allowConditional := true, allowIn := true }) parser

/-- A list of type arguments, at least one. -/
def typeArguments (recur : Recur) : Parser (List Node) := do
  expect "<"
  let items ← inBrackets (commaList ">" (recur .type))
  require (!items.isEmpty)
  return items

/-- Type arguments, if the language has them and they follow on the same line. -/
def typeArgumentsHere (recur : Recur) : Parser (List Node) := do
  let token ← token
  if token.isPunctuator "<" && !token.afterLineEnd && (← typed) then typeArguments recur
  else return []

/-- One type parameter: modifiers, a name, a bound and a default. -/
def typeParameter (recur : Recur) : Parser Node := do
  let start ← startHere
  let modifiers ← many do
    let token ← token
    let following ← peek
    if ["const", "in", "out"].any token.isKeyword && following.isWord &&
        !following.isKeyword "extends" then
      advance
      return token.word?
    else return none
  let name ← bindingName
  let bound ← if ← eatKeyword "extends" then pure [← recur .type] else pure []
  let initial ← if ← eat "=" then pure [← recur .type] else pure []
  form start (.typeParameter modifiers) (name :: bound ++ initial)

/-- Type parameters, if the language has them and they are written. -/
def typeParametersHere (recur : Recur) : Parser (List Node) := do
  if (← at? "<") && (← typed) then
    let start ← startHere
    advance
    let items ← inBrackets (commaList ">" (typeParameter recur))
    require (!items.isEmpty)
    return [← form start .typeParameters items]
  else return []

/-- The first word in the name of a type.  It refers to a binding unless it is `this`. -/
def typeRoot : Parser Node := do
  let word ← plainWord
  match word with
  | .word "this" span => return .form .this [] span
  | .word name _ =>
      require (!isReserved name || name == "const")
      return word.asReference
  | _ => fail

/-- The name of a type: words with points between them. -/
def typeName : Parser Node := do
  let start ← startHere
  let first ← typeRoot
  let others ← many do
    if ← eat "." then return some (← plainWord) else return none
  let stop ← lastStop
  return others.foldl (fun left right => .form .qualified [left, right] ⟨start, stop⟩) first

/-- A named type with its arguments. -/
def typeReference (recur : Recur) : Parser Node := do
  let start ← startHere
  let name ← typeName
  let arguments ← typeArgumentsHere recur
  form start .typeReference (name :: arguments)

/-- A type that a function answers: a type, or what it tells about a parameter. -/
def resultType (recur : Recur) : Parser Node := do
  let start ← startHere
  let first ← token
  let following ← peek
  if first.isKeyword "asserts" && (following.isWord) && !following.afterLineEnd then
    advance
    let subject ← plainWord
    let type ← if ← eatKeyword "is" then pure [← recur .type] else pure []
    form start (.predicate true) (subject :: type)
  else if first.isWord && following.isKeyword "is" && !following.afterLineEnd then
    let subject ← plainWord
    advance
    let type ← recur .type
    form start (.predicate false) [subject, type]
  else recur .type

/-- A result type after a colon, in a typed language. -/
def resultAfterColon (recur : Recur) : Parser (List Node) := do
  if (← at? ":") && (← typed) then
    advance
    return [← resultType recur]
  else return []

/-- The type of a function: its parameters, an arrow and its result. -/
def functionType (recur : Recur) (kind : Form) : Parser Node := do
  let start ← startHere
  if kind matches .constructorType true then expectKeyword "abstract"
  if !(kind matches .functionType) then expectKeyword "new"
  let typeParameters ← typeParametersHere recur
  let parameters ← inBrackets (parameters recur)
  expect "=>"
  let result ← resultType recur
  form start kind (typeParameters ++ [parameters, result])

/-! ## Members of object types -/

/-- The end of a member: a semicolon, a comma, or a line end. -/
def memberEnd : Parser Unit := do
  if !((← eat ",") || (← eat ";")) then require (← mayEnd)

/-- The parameters and the result of a member that can be called. -/
def signature (recur : Recur) : Parser (List Node) := do
  let typeParameters ← typeParametersHere recur
  let parameters ← parameters recur
  let result ← resultAfterColon recur
  return typeParameters ++ parameters :: result

/-- Whether an index signature starts here: a bracket, a name and a colon. -/
def indexSignatureStarts : Parser Bool :=
  fits do
    expect "["
    let _ ← plainWord
    expect ":"

/-- An index signature without its end. -/
def indexSignature (recur : Recur) : Parser (List Node) := do
  expect "["
  let name ← plainWord
  expect ":"
  let key ← recur .type
  expect "]"
  let value ← typeAfterColon recur
  return name :: key :: value

/-- Pass over a word that is a modifier here: it is followed by a property name on the
same line. -/
def memberModifier (words : List String) : Parser (Option String) := do
  let token ← token
  let following ← peek
  let continues := (match following.kind with
    | .word _ | .text _ | .number _ | .bigNumber _ | .privateWord _ => true
    | .punctuator text => text == "[" || text == "*" || text == "\x7b"
    | _ => false)
  if words.any token.isKeyword && continues && !following.afterLineEnd then
    advance
    return token.word?
  else return none

/-- One member of an object type. -/
def typeMember (recur : Recur) : Parser Node := do
  let start ← startHere
  let first ← token
  let following ← peek
  if first.isPunctuator "(" || first.isPunctuator "<" then
    let parts ← signature recur
    memberEnd
    form start (.typeMember "call") parts
  else if first.isKeyword "new" && (following.isPunctuator "(" || following.isPunctuator "<") then
    advance
    let parts ← signature recur
    memberEnd
    form start (.typeMember "new") parts
  else
    let _ ← memberModifier ["readonly"]
    if ← indexSignatureStarts then
      let parts ← indexSignature recur
      memberEnd
      form start (.typeMember "index") parts
    else
      let accessor ← memberModifier ["get", "set"]
      let (_, key) ← propertyName recur false
      let _ ← eat "?"
      if (← at? "(") || (← at? "<") then
        let parts ← signature recur
        memberEnd
        form start (.typeMember (accessor.getD "method")) (key :: parts)
      else
        require accessor.isNone
        let type ← typeAfterColon recur
        memberEnd
        form start (.typeMember "property") (key :: type)

/-- The members of an object type in their braces. -/
def objectType (recur : Recur) : Parser Node := do
  let start ← startHere
  expect "\x7b"
  let members ← inBrackets (many do
    if ← at? "\x7d" then return none else return some (← typeMember recur))
  expect "\x7d"
  form start .objectType members

/-- A sign and a word in a mapped type, such as `-readonly`. -/
def mappedMark (mark : Parser Unit) : Parser Unit := do
  if (← eat "+") || (← eat "-") then mark
  else let _ ← attempt mark

/-- An object type that runs over the keys of another. -/
def mappedType (recur : Recur) : Parser Node := do
  let start ← startHere
  expect "\x7b"
  mappedMark (expectKeyword "readonly")
  expect "["
  let name ← bindingName
  expectKeyword "in"
  let keys ← recur .type
  let renamed ← if ← eatKeyword "as" then pure [← recur .type] else pure []
  expect "]"
  mappedMark (expect "?")
  let value ← typeAfterColon recur
  let _ ← eat ";"
  expect "\x7d"
  form start .mappedType (name :: keys :: renamed ++ value)

/-! ## Single types -/

/-- A template made of types. -/
def templateType (recur : Recur) : Parser Node := do
  let start ← startHere
  let rec pieces : Nat → List Node → Parser (List Node)
    | 0, _ => fail
    | fuel + 1, done => do
        match (← token).kind with
        | .templatePiece value last =>
            let piece := Node.form (.templatePiece value) [] (← tokenSpan)
            advance
            if last then return (piece :: done).reverse
            else
              let type ← recur .type
              require (← at? "\x7d")
              reread Source.templatePiece?
              pieces fuel (type :: piece :: done)
        | _ => fail
  let parts ← pieces ((← place).rest.length + 1) []
  form start .templateType parts

/-- The label of a member of a tuple, and whether the member may be missing. -/
def tupleLabel : Parser (Node × Bool) := do
  let label ← plainWord
  let optional ← eat "?"
  expect ":"
  return (label, optional)

/-- One member of a tuple, with a label in front of it or not. -/
def tupleMember (recur : Recur) : Parser Node := do
  let start ← startHere
  let isRest ← eat "..."
  match ← attempt tupleLabel with
  | some (label, optional) =>
      let type ← recur .type
      form start (.tupleMember optional isRest) [label, type]
  | none =>
      let type ← recur .type
      let optional ← eat "?"
      form start (.tupleMember optional isRest) [type]

/-- A type taken from another module. -/
def importType (recur : Recur) : Parser Node := do
  let start ← startHere
  expectKeyword "import"
  expect "("
  let source ← recur .type
  let options ←
    if ← eat "," then
      let options ← recur .assignment
      require (options matches .object ..)
      let _ ← eat ","
      pure [options]
    else pure []
  expect ")"
  let names ← many do
    if ← eat "." then return some (← plainWord) else return none
  let arguments ← typeArgumentsHere recur
  form start .importType (source :: options ++ names ++ arguments)

/-- The words that stand for types of their own. -/
def typeWords : List String :=
  ["any", "unknown", "string", "number", "bigint", "symbol", "boolean", "undefined", "never",
    "object", "intrinsic"]

/-- A type without operators. -/
def primaryType (recur : Recur) : Parser Node := do
  let start ← startHere
  let span ← tokenSpan
  let following ← peek
  match (← token).kind with
  | .text value =>
      advance
      return .text value span
  | .number value =>
      advance
      return .number value span
  | .bigNumber digits =>
      advance
      return .form (.bigNumber digits) [] span
  | .templatePiece _ _ => templateType recur
  | .punctuator "-" => do
      advance
      require (match (← token).kind with
        | .number _ | .bigNumber _ => true
        | _ => false)
      advance
      form start .typeLiteral []
  | .punctuator "\x7b" => do
      match ← attempt (inBrackets (mappedType recur)) with
      | some mapped => return mapped
      | none => objectType recur
  | .punctuator "[" => do
      advance
      let items ← inBrackets (commaList "]" (tupleMember recur))
      form start .tupleType items
  | .punctuator "(" => do
      advance
      let inner ← inBrackets (recur .type)
      expect ")"
      form start .parenthesizedType [inner]
  | .word word => do
      if (← token).escaped then typeReference recur
      else if word == "import" then importType recur
      else if word == "typeof" then
        advance
        if ← atKeyword "import" then
          let subject ← importType recur
          form start .typeQuery [subject]
        else
          let name ← typeName
          let arguments ← typeArgumentsHere recur
          form start .typeQuery (name :: arguments)
      else if word == "this" || word == "null" || word == "void" then
        advance
        form start (.typeKeyword word) []
      else if word == "true" || word == "false" then
        advance
        return .boolean (word == "true") span
      else if typeWords.contains word && !following.isPunctuator "." then
        advance
        form start (.typeKeyword word) []
      else typeReference recur
  | _ => fail

/-- A single type followed by brackets. -/
def postfixType (recur : Recur) : Parser Node := do
  let start ← startHere
  let first ← primaryType recur
  let rec loop : Nat → Node → Parser Node
    | 0, type => return type
    | fuel + 1, type => do
        let token ← token
        if token.isPunctuator "[" && !token.afterLineEnd then
          advance
          if ← eat "]" then loop fuel (← form start .arrayType [type])
          else
            let index ← inBrackets (recur .type)
            expect "]"
            loop fuel (← form start .indexedType [type, index])
        else return type
  loop ((← place).rest.length + 1) first

/-- A type with operators in front of it. -/
def operatorType (recur : Recur) : Parser Node := do
  let start ← startHere
  let token ← token
  let following ← peek
  let operand := following.isWord || (match following.kind with
    | .text _ | .number _ | .templatePiece _ _ => true
    | .punctuator text => text == "(" || text == "\x7b" || text == "["
    | _ => false)
  if ["keyof", "unique", "readonly"].any token.isKeyword && operand then
    advance
    let type ← recur .postfixType
    form start (.typeOperator (token.word?.getD "")) [type]
  else if token.isKeyword "infer" && following.isWord then
    advance
    let name ← bindingName
    let bound ← attempt do
      expectKeyword "extends"
      let bound ← within (fun context => { context with allowConditional := false }) (recur .type)
      require (!(← read).allowConditional || !(← at? "?"))
      return bound
    form start .inferType (name :: bound.toList)
  else postfixType recur

/-- Types with an operator between them; one may also stand in front of the first. -/
def operatorList (operator : String) (kind : Form) (item : Parser Node) : Parser Node := do
  let start ← startHere
  let leading ← eat operator
  let first ← item
  let others ← many do
    if ← eat operator then return some (← item) else return none
  if others.isEmpty && !leading then return first
  else form start kind (first :: others)

/-- Whether the type of a function starts here. -/
def functionTypeStarts : Parser Bool := do
  if ← at? "<" then return true
  else if ← at? "(" then
    fits do
      advance
      if (← at? ")") || (← at? "...") then return ()
      else
        let rec passModifiers : Nat → Parser Unit
          | 0 => return ()
          | fuel + 1 => do
              let following ← peek
              if (← token).isWord && following.isWord then
                advance
                passModifiers fuel
        passModifiers 4
        if (← token).isWord then advance
        else if (← at? "\x7b") || (← at? "[") then
          -- a pattern: pass over it by matching brackets
          let rec passPattern : Nat → Nat → Parser Unit
            | 0, _ => fail
            | fuel + 1, depth => do
                let opens := (← at? "\x7b") || (← at? "[") || (← at? "(")
                let closes := (← at? "\x7d") || (← at? "]") || (← at? ")")
                require (!(← atFinish))
                advance
                let depth := if opens then depth + 1 else if closes then depth - 1 else depth
                if depth = 0 then return () else passPattern fuel depth
          passPattern ((← place).rest.length + 1) 0
        else fail
        if (← at? ":") || (← at? ",") || (← at? "?") || (← at? "=") then return ()
        else
          expect ")"
          expect "=>"
  else return false

/-- A type without a choice. -/
def unconditionalType (recur : Recur) : Parser Node := do
  let following ← peek
  if ← functionTypeStarts then functionType recur .functionType
  else if ← atKeyword "new" then functionType recur (.constructorType false)
  else if (← atKeyword "abstract") && following.isKeyword "new" then
    functionType recur (.constructorType true)
  else
    operatorList "|" .unionType (operatorList "&" .intersectionType (do
      if ← functionTypeStarts then functionType recur .functionType else operatorType recur))

/-- A type. -/
def anyType (recur : Recur) : Parser Node := do
  let start ← startHere
  let checked ← unconditionalType recur
  let token ← token
  if (← read).allowConditional && token.isKeyword "extends" && !token.afterLineEnd then
    advance
    let bound ← within (fun context => { context with allowConditional := false }) (recur .type)
    expect "?"
    let yes ← inBrackets (recur .type)
    expect ":"
    let no ← inBrackets (recur .type)
    form start .conditionalType [checked, bound, yes, no]
  else return checked

end FontHosting.Script
