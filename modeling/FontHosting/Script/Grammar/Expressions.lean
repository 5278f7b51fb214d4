import FontHosting.Script.Grammar.Markup

/-!
# Expressions

From single values up to sequences.  Two things are only known later than they are
read.  Brackets may turn out to be the parameters of an arrow function, so that is
tried first.  And an object or an array may turn out to be the target of an
assignment; `toTarget?` then reads it once more as a pattern.
-/

namespace FontHosting.Script

open FontHosting.Script.Parser

/-- The surroundings inside brackets. -/
def enclosed (context : Context) : Context :=
  { context with allowIn := true, allowConditional := true, arrowNeedsColon := false }

/-! ## Targets of assignments -/

/-- Whether a chain of accesses contains an optional one. -/
def isOptionalChain : Node → Bool
  | .form (.member optional) (object :: _) _ => optional || isOptionalChain object
  | .form (.index optional) (object :: _) _ => optional || isOptionalChain object
  | .form .nonNull (object :: _) _ => isOptionalChain object
  | .call optional callee _ _ _ => optional || isOptionalChain callee
  | _ => false

/-- Whether something can be assigned to as a whole. -/
def isSimpleTarget : Node → Bool
  | .reference .. => true
  | .form (.member optional) (object :: _) _ => !optional && !isOptionalChain object
  | .form (.index optional) (object :: _) _ => !optional && !isOptionalChain object
  | .form .nonNull (inner :: _) _ => isSimpleTarget inner
  | .form (.asType _) (inner :: _) _ => isSimpleTarget inner
  | .form .typeAssertion [_, inner] _ => isSimpleTarget inner
  | .parenthesized inner _ => isSimpleTarget inner
  | _ => false

mutual

/-- An expression read as a target.  Objects and arrays become patterns. -/
def toTarget? : Node → Option Node
  | .object properties span => (toTargetProperties? properties).map fun parts =>
      .form .objectTarget parts span
  | .array items span => (toTargetItems? items).map fun parts => .form .arrayTarget parts span
  | node => if isSimpleTarget node then some node else none

/-- A target that may carry an initial value. -/
def toDefaulted? : Node → Option Node
  | .form (.assignment "=") [target, initial] span =>
      -- the left side became a target when the assignment was read
      some (.form .defaulted [target, initial] span)
  | .object properties span => (toTargetProperties? properties).map fun parts =>
      .form .objectTarget parts span
  | .array items span => (toTargetItems? items).map fun parts => .form .arrayTarget parts span
  | node => if isSimpleTarget node then some node else none

/-- The properties of an object read as parts of a pattern. -/
def toTargetProperties? : List Node → Option (List Node)
  | [] => some []
  | .spread inner span :: rest => do
      if rest.isEmpty && isSimpleTarget inner then return [.form .rest [inner] span] else none
  | .property .plain computed key value span :: rest => do
      let value ← match value with
        | .form .coverDefault parts valueSpan => some (.form .defaulted parts valueSpan)
        | value => toDefaulted? value
      return .form (.targetProperty computed) [key, value] span :: (← toTargetProperties? rest)
  | _ :: _ => none

/-- The items of an array read as parts of a pattern. -/
def toTargetItems? : List Node → Option (List Node)
  | [] => some []
  | .hole span :: rest => return .hole span :: (← toTargetItems? rest)
  | .spread inner span :: rest => do
      if rest.isEmpty then return [.form .rest [← toTarget? inner] span] else none
  | item :: rest => return (← toDefaulted? item) :: (← toTargetItems? rest)

end

mutual

/-- Whether an object still holds an initial value that only a pattern may hold. -/
def hasCover : Node → Bool
  | .form kind parts _ => kind matches .coverDefault || anyCover parts
  | .parenthesized inner _ | .spread inner _ => hasCover inner
  | .array items _ => anyCover items
  | .property _ _ key value _ => hasCover key || hasCover value
  | .object properties _ => anyCover properties
  | .call _ callee _ arguments _ => hasCover callee || anyCover arguments
  | .declarator target _ initial _ => hasCover target || anyCover initial
  | .variables _ declarators _ => anyCover declarators
  | .exported declaration _ => hasCover declaration
  | _ => false

/-- Whether one of several trees has such a value. -/
def anyCover : List Node → Bool
  | [] => false
  | node :: rest => hasCover node || anyCover rest

end

/-! ## Literals -/

/-- A template.  If it has no tag, none of its pieces may contain an escape that means
nothing. -/
def templateLiteral (recur : Recur) (tagged : Bool) : Parser Node := do
  let start ← startHere
  let rec pieces : Nat → List Node → Parser (List Node)
    | 0, _ => fail
    | fuel + 1, done => do
        match (← token).kind with
        | .templatePiece value last =>
            require (tagged || value.isSome)
            let piece := Node.form (.templatePiece value) [] (← tokenSpan)
            advance
            if last then return (piece :: done).reverse
            else
              let inner ← within enclosed (recur .expression)
              require (← at? "\x7d")
              reread Source.templatePiece?
              pieces fuel (inner :: piece :: done)
        | _ => fail
  let parts ← pieces ((← place).rest.length + 1) []
  form start .template parts

/-- A spread or an expression. -/
def spreadOrValue (recur : Recur) : Parser Node := do
  let start ← startHere
  if ← eat "..." then
    let inner ← recur .assignment
    return .spread inner (← spanFrom start)
  else recur .assignment

/-- An array; a comma without an item before it leaves a hole. -/
def arrayLiteral (recur : Recur) : Parser Node := do
  let start ← startHere
  expect "["
  let items ← within enclosed (commaList "]" do
    if ← at? "," then return .hole (← tokenSpan) else spreadOrValue recur)
  return .array items (← spanFrom start)

/-- Whether a word before a property name changes what the property is: a name follows. -/
def marksProperty (word : String) : Parser Bool := do
  let token ← token
  let following ← peek
  let continues := (match following.kind with
    | .word _ | .text _ | .number _ | .bigNumber _ | .privateWord _ => true
    | .punctuator text => text == "[" || (text == "*" && word == "async")
    | _ => false)
  return token.isKeyword word && continues && (word != "async" || !following.afterLineEnd)

/-- The function of a method. -/
def methodValue (recur : Recur) (isAsync isGenerator : Bool) : Parser Node := do
  let start ← startHere
  let parts ← functionRest recur isAsync isGenerator false
  form start (.function isAsync isGenerator) parts

/-- One property of an object. -/
def objectProperty (recur : Recur) : Parser Node := do
  let start ← startHere
  if ← at? "..." then spreadOrValue recur
  else
    let isGetter ← marksProperty "get"
    let isSetter ← marksProperty "set"
    if isGetter || isSetter then
      advance
      let (computed, key) ← propertyName recur false
      let value ← methodValue recur false false
      return .property (if isGetter then .getter else .setter) computed key value (← spanFrom start)
    else
      let isAsync ← marksProperty "async"
      if isAsync then advance
      let isGenerator ← eat "*"
      let mayShorten := (← atName)
      let (computed, key) ← propertyName recur false
      if isAsync || isGenerator || (← at? "(") || (← at? "<") then
        let value ← methodValue recur isAsync isGenerator
        return .property .method computed key value (← spanFrom start)
      else if ← eat ":" then
        let value ← recur .assignment
        return .property .plain computed key value (← spanFrom start)
      else
        require mayShorten
        let value := key.asReference
        if ← eat "=" then
          let initial ← recur .assignment
          let cover ← form start .coverDefault [value, initial]
          return .property .plain false key cover (← spanFrom start)
        else return .property .plain false key value (← spanFrom start)

/-- An object. -/
def objectLiteral (recur : Recur) : Parser Node := do
  let start ← startHere
  expect "\x7b"
  let properties ← within enclosed (commaList "\x7d" (objectProperty recur))
  return .object properties (← spanFrom start)

/-- The arguments of a call in their brackets. -/
def callArguments (recur : Recur) : Parser (List Node) := do
  expect "("
  within enclosed (commaList ")" (spreadOrValue recur))

/-! ## Type arguments in expressions -/

/-- The punctuators that stand between two values. -/
def isBinaryPunctuator (text : String) : Bool :=
  ["??", "||", "&&", "|", "^", "&", "==", "!=", "===", "!==", "<", ">", "<=", "<<", "+", "-", "*",
    "/", "%", "**"].contains text

/-- Whether type arguments may end before the current token: what follows cannot be the
right side of a comparison. -/
def mayEndTypeArguments : Parser Bool := do
  let token ← token
  match token.kind with
  | .templatePiece _ _ => return true
  | .punctuator text =>
      if text == "(" then return true
      else if ["<", ">", "+", "-"].contains text then return false
      else
        let startsValue := ["[", "\x7b", "/", "/=", "!", "~", "++", "--", "@"].contains text
        return token.afterLineEnd || !startsValue || text == "/"
  | .word text =>
      return token.afterLineEnd || ["in", "instanceof", "as", "satisfies"].contains text
  | .finish => return true
  | _ => return token.afterLineEnd

/-- Type arguments inside an expression, if the text can only mean them. -/
def typeArgumentsInExpression (recur : Recur) : Parser (Option (List Node)) := do
  if (← at? "<") && (← typed) then
    attempt do
      let arguments ← typeArguments recur
      require (← mayEndTypeArguments)
      return arguments
  else return none

/-! ## Accesses and calls -/

/-- An access after a point. -/
def memberName : Parser Node := do
  match (← token).kind with
  | .privateWord _ => privateName
  | _ => plainWord

/-- Accesses, and calls where they are wanted, as long as they follow. -/
def accesses (recur : Recur) (calls : Bool) (start : Nat) : Nat → Node → Parser Node
  | 0, node => return node
  | fuel + 1, node => do
      let token ← token
      match token.kind with
      | .templatePiece _ _ =>
          require (!isOptionalChain node)
          let template ← templateLiteral recur true
          accesses recur calls start fuel (← form start .tagged [node, template])
      | .punctuator "." =>
          advance
          let name ← memberName
          accesses recur calls start fuel (← form start (.member false) [node, name])
      | .punctuator "?." =>
          if !calls then fail
          else
            advance
            let arguments? ← typeArgumentsInExpression recur
            if (← at? "(") then
              let arguments ← callArguments recur
              let span ← spanFrom start
              accesses recur calls start fuel
                (.call true node (arguments?.getD []) arguments span)
            else if ← eat "[" then
              let index ← within enclosed (recur .expression)
              expect "]"
              accesses recur calls start fuel (← form start (.index true) [node, index])
            else
              let name ← memberName
              accesses recur calls start fuel (← form start (.member true) [node, name])
      | .punctuator "[" =>
          advance
          let index ← within enclosed (recur .expression)
          expect "]"
          accesses recur calls start fuel (← form start (.index false) [node, index])
      | .punctuator "(" =>
          if !calls then return node
          else
            let arguments ← callArguments recur
            let span ← spanFrom start
            accesses recur calls start fuel (.call false node [] arguments span)
      | .punctuator "!" =>
          if (← typed) && !token.afterLineEnd then
            advance
            accesses recur calls start fuel (← form start .nonNull [node])
          else return node
      | .punctuator "<" =>
          match ← typeArgumentsInExpression recur with
          | none => return node
          | some types =>
              if (← at? "(") && calls then
                let arguments ← callArguments recur
                let span ← spanFrom start
                accesses recur calls start fuel (.call false node types arguments span)
              else
                accesses recur calls start fuel (← form start .instantiation (node :: types))
      | _ => return node

/-- A call that creates an object. -/
def creation (recur : Recur) (value : Parser Node) : Parser Node := do
  let start ← startHere
  expectKeyword "new"
  if ← eat "." then
    let name ← plainWord
    require (name matches .word "target" _)
    form start .metaProperty [name]
  else
    let calleeStart ← startHere
    require (!(← atKeyword "import"))
    let callee ← value
    let callee ← accesses recur false calleeStart ((← place).rest.length + 1) callee
    let arguments ← if ← at? "(" then callArguments recur else pure []
    form start .creation (callee :: arguments)

/-- A function that starts with `async` on the same line. -/
def asyncFunctionStarts : Parser Bool := do
  let following ← peek
  return (← atKeyword "async") && following.isKeyword "function" && !following.afterLineEnd

/-- A single value, with `new` taking another one. -/
def value (recur : Recur) : Nat → Parser Node
  | 0 => fail
  | fuel + 1 => do
      let start ← startHere
      let span ← tokenSpan
      match (← token).kind with
      | .text value =>
          advance
          return .text value span
      | .number value =>
          advance
          return .number value span
      | .bigNumber digits =>
          advance
          return .form (.bigNumber digits) [] span
      | .templatePiece _ _ => templateLiteral recur false
      | .privateWord _ => do
          let name ← privateName
          require ((← atKeyword "in") && (← read).allowIn)
          return name
      | .punctuator "(" => do
          advance
          let inner ← within enclosed (recur .expression)
          expect ")"
          return .parenthesized inner (← spanFrom start)
      | .punctuator "[" => arrayLiteral recur
      | .punctuator "\x7b" => objectLiteral recur
      | .punctuator "@" => recur .classDefinition
      | .punctuator "/" | .punctuator "/=" => do
          reread Source.pattern?
          match (← token).kind with
          | .pattern body flags =>
              let span ← tokenSpan
              advance
              return .form (.pattern body flags) [] span
          | _ => fail
      | .punctuator "<" => do
          require (← language).markup
          let element ← recur .markup
          advance
          return element
      | .word word => do
          if (← token).escaped then referenceName
          else if word == "true" || word == "false" then
            advance
            return .boolean (word == "true") span
          else if word == "null" then
            advance
            return .null span
          else if word == "this" then
            advance
            return .form .this [] span
          else if word == "function" then functionForm recur start false false false
          else if ← asyncFunctionStarts then
            advance
            functionForm recur start true false false
          else if word == "class" then recur .classDefinition
          else if word == "new" then creation recur (value recur fuel)
          else if word == "super" then
            advance
            require ((← at? "(") || (← at? ".") || (← at? "["))
            return .form .super [] span
          else if word == "import" then
            advance
            if ← eat "." then
              let name ← plainWord
              require (name matches .word "meta" _)
              form start .metaProperty [name]
            else
              let arguments ← callArguments recur
              require (arguments.length == 1 || arguments.length == 2)
              form start .importCall arguments
          else referenceName
      | _ => fail

/-- A value with the accesses and calls behind it. -/
def callChain (recur : Recur) : Parser Node := do
  let start ← startHere
  let fuel := (← place).rest.length + 1
  let first ← value recur fuel
  accesses recur true start fuel first

/-! ## Operators -/

/-- The signs and words that stand before a value. -/
def isUnaryOperator (token : Token) : Bool :=
  ["+", "-", "!", "~"].any token.isPunctuator || ["delete", "typeof", "void"].any token.isKeyword

/-- The text of an operator. -/
def operatorText (token : Token) : String :=
  match token.kind with
  | .punctuator text => text
  | .word text => text
  | _ => ""

/-- A value with the operators directly before and behind it. -/
def unary (recur : Recur) : Parser Node := do
  let start ← startHere
  let token ← token
  if isUnaryOperator token then
    advance
    let inner ← recur .unary
    form start (.unary (operatorText token)) [inner]
  else if token.isPunctuator "++" || token.isPunctuator "--" then
    advance
    let inner ← recur .unary
    require (isSimpleTarget inner)
    form start (.update (operatorText token) true) [inner]
  else if token.isKeyword "await" && (← read).allowAwait then
    advance
    let inner ← recur .unary
    form start .await [inner]
  else if token.isPunctuator "<" && (← typed) && !(← language).markup then
    advance
    let type ← within enclosed (recur .type)
    expect ">"
    let inner ← recur .unary
    form start .typeAssertion [type, inner]
  else
    let inner ← callChain recur
    let following ← Parser.token
    if (following.isPunctuator "++" || following.isPunctuator "--") && !following.afterLineEnd then
      require (isSimpleTarget inner)
      advance
      form start (.update (operatorText following) false) [inner]
    else return inner

/-- The operator at a place whose first token is a closing bracket. -/
def bracketOperator (rest : List Char) : String :=
  match rest with
  | '>' :: '>' :: '>' :: '=' :: _ => ">>>="
  | '>' :: '>' :: '>' :: _ => ">>>"
  | '>' :: '>' :: '=' :: _ => ">>="
  | '>' :: '>' :: _ => ">>"
  | '>' :: '=' :: _ => ">="
  | _ => ">"

/-- The operator that the current token starts. -/
def operatorHere : Parser String := do
  let token ← token
  match token.kind with
  | .punctuator ">" => return bracketOperator (← place).rest
  | .punctuator text => return text
  | .word text => return if token.escaped then "" else text
  | _ => return ""

/-- Pass over an operator, which may be longer than the current token. -/
def passOperator (operator : String) : Parser Unit :=
  passOver operator.length

/-- How tightly an operator binds; zero for what is none. -/
def precedence (operator : String) : Nat :=
  if operator == "??" then 1
  else if operator == "||" then 2
  else if operator == "&&" then 3
  else if operator == "|" then 4
  else if operator == "^" then 5
  else if operator == "&" then 6
  else if ["==", "!=", "===", "!=="].contains operator then 7
  else if ["<", ">", "<=", ">=", "instanceof", "in"].contains operator then 8
  else if ["<<", ">>", ">>>"].contains operator then 9
  else if ["+", "-"].contains operator then 10
  else if ["*", "/", "%"].contains operator then 11
  else if operator == "**" then 12
  else 0

/-- Whether a tree is a binary form with one of these operators. -/
def isBinaryOf (operators : List String) : Node → Bool
  | .form (.binary operator) _ _ => operators.contains operator
  | _ => false

/-- Whether an operator may stand between two operands: the choice of a default does
not mix with the logical operators, and a power has no signed base. -/
def mayCombine (operator : String) (left right : Node) : Bool :=
  if operator == "??" then
    !isBinaryOf ["||", "&&"] left && !isBinaryOf ["||", "&&"] right
  else if operator == "||" || operator == "&&" then
    !isBinaryOf ["??"] left && !isBinaryOf ["??"] right
  else if operator == "**" then
    !(left matches .form (.unary _) _ _ | .form .typeAssertion _ _)
  else true

/-- Operators that bind tighter than `minimum`, as long as they follow. -/
def binaryRest (recur : Recur) (minimum start : Nat) : Nat → Node → Parser Node
  | 0, left => return left
  | fuel + 1, left => do
      let token ← token
      let operator ← operatorHere
      if (operator == "as" || operator == "satisfies") && (← typed) && !token.afterLineEnd then
        if minimum < 8 then
          advance
          let type ← within enclosed (recur .type)
          binaryRest recur minimum start fuel (← form start (.asType operator) [left, type])
        else return left
      else
        let tightness := precedence operator
        let blocked := operator == "in" && !(← read).allowIn
        if tightness = 0 || tightness ≤ minimum || blocked then return left
        else
          passOperator operator
          let right ← recur (.binary (if operator == "**" then tightness - 1 else tightness))
          require (mayCombine operator left right)
          binaryRest recur minimum start fuel (← form start (.binary operator) [left, right])

/-- Values with operators between them that bind tighter than `minimum`. -/
def binary (recur : Recur) (minimum : Nat) : Parser Node := do
  let start ← startHere
  let left ← unary recur
  binaryRest recur minimum start ((← place).rest.length + 1) left

/-! ## Arrow functions -/

/-- Whether a list of type parameters starts here, and no element.  Where elements are
written, a bound, a comma or a default must follow the first name. -/
def arrowTypesStart : Parser Bool := do
  if !(← typed) || !(← at? "<") then return false
  else if !(← language).markup then return true
  else
    fits do
      advance
      let following ← peek
      if (← atKeyword "const") && following.isWord then advance
      let _ ← plainWord
      if ← eatKeyword "extends" then
        require (!((← at? "=") || (← at? ">") || (← at? "/")))
      else require ((← at? ",") || (← at? "="))

/-- The body of an arrow function. -/
def arrowBody (recur : Recur) (isAsync : Bool) : Parser Node := do
  if ← at? "\x7b" then within (inFunction isAsync false) (recur .functionBody)
  else
    within (fun context => { context with allowAwait := isAsync, allowYield := false })
      (recur .assignment)

/-- An arrow function with parameters in brackets. -/
def bracketedArrow (recur : Recur) : Parser Node := do
  let start ← startHere
  let following ← peek
  let isAsync := (← atKeyword "async") && !following.afterLineEnd &&
    (following.isPunctuator "(" || following.isPunctuator "<")
  if isAsync then advance
  let withTypes ← arrowTypesStart
  require (withTypes || (← at? "("))
  let typeParameters ← typeParametersHere recur
  let parameters ← within (fun context =>
    { enclosed context with allowAwait := context.allowAwait || isAsync }) (parameters recur)
  let result ← within (fun context => { context with allowConditional := true })
    (resultAfterColon recur)
  require (!(← token).afterLineEnd)
  expect "=>"
  let body ← arrowBody recur isAsync
  require (result.isEmpty || !(← read).arrowNeedsColon || (← at? ":"))
  form start (.arrow isAsync) (typeParameters ++ parameters :: result ++ [body])

/-- An arrow function whose only parameter is a name. -/
def namedArrow (recur : Recur) : Parser Node := do
  let start ← startHere
  let following ← peek
  let isAsync := (← atKeyword "async") && following.isWord && !following.afterLineEnd
  if isAsync then advance
  let nameStart ← startHere
  let name ← within (fun context => { context with allowAwait := context.allowAwait || isAsync })
    bindingName
  let parameter ← form nameStart (.parameter []) [name]
  let parameters ← form nameStart .parameters [parameter]
  require (!(← token).afterLineEnd)
  expect "=>"
  let body ← arrowBody recur isAsync
  form start (.arrow isAsync) [parameters, body]

/-- Whether an arrow function may start here. -/
def arrowMayStart : Parser Bool := do
  let token ← token
  return token.isPunctuator "(" || token.isPunctuator "<" || token.isWord

/-- An arrow function, if the text is one. -/
def arrow? (recur : Recur) : Parser (Option Node) := do
  let following ← peek
  if !(← arrowMayStart) then return none
  else if following.isPunctuator "=>" then attempt (namedArrow recur)
  else
    let isAsync ← atKeyword "async"
    if (← at? "(") || (← at? "<") || (isAsync && !following.isWord) then
      attempt (bracketedArrow recur)
    else if isAsync then attempt (namedArrow recur)
    else return none

/-! ## Assignments and sequences -/

/-- The operators of assignments. -/
def isAssignmentOperator (operator : String) : Bool :=
  ["=", "+=", "-=", "*=", "/=", "%=", "**=", "<<=", ">>=", ">>>=", "&=", "|=", "^=", "&&=", "||=",
    "??="].contains operator

/-- A `yield` with its value, if it has one. -/
def yieldForm (recur : Recur) : Parser Node := do
  let start ← startHere
  advance
  let next ← token
  let delegate := next.isPunctuator "*" && !next.afterLineEnd
  if delegate then advance
  let ends := ["\x7d", ")", "]", ",", ";", ":"].any (← token).isPunctuator ||
    (← atFinish) || (← atKeyword "in") || (← atKeyword "of") || next.afterLineEnd
  if ends && !delegate then form start (.yield false) []
  else
    let value ← recur .assignment
    form start (.yield delegate) [value]

/-- The choice between two values after a condition. -/
def conditionalRest (recur : Recur) (start : Nat) (condition : Node) : Parser Node := do
  if ← eat "?" then
    let yes ← within (fun context => { context with allowIn := true, arrowNeedsColon := true })
      (recur .assignment)
    expect ":"
    let no ← recur .assignment
    form start .conditional [condition, yes, no]
  else return condition

/-- An expression without a comma. -/
def assignment (recur : Recur) : Parser Node := do
  if (← read).allowYield && (← atKeyword "yield") then yieldForm recur
  else
    match ← arrow? recur with
    | some arrow => return arrow
    | none =>
        let start ← startHere
        let left ← recur (.binary 0)
        let operator ← operatorHere
        if isAssignmentOperator operator then
          let target? := if operator == "=" then toTarget? left
            else if isSimpleTarget left then some left else none
          match target? with
          | none => fail
          | some target =>
              passOperator operator
              let right ← recur .assignment
              form start (.assignment operator) [target, right]
        else conditionalRest recur start left

/-- Expressions with commas between them. -/
def expression (recur : Recur) : Parser Node := do
  let start ← startHere
  let first ← recur .assignment
  let others ← many do
    if ← eat "," then return some (← recur .assignment) else return none
  if others.isEmpty then return first else form start .sequence (first :: others)

end FontHosting.Script
