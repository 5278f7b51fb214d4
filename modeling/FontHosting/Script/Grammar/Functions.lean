import FontHosting.Script.Grammar.Types

/-!
# Functions and classes

Everything with a body of its own.  A body fixes anew whether `await`, `yield` and
`return` may stand in it.
-/

namespace FontHosting.Script

open FontHosting.Script.Parser

/-- The surroundings inside a function. -/
def inFunction (isAsync isGenerator : Bool) (context : Context) : Context :=
  { context with
    allowIn := true, allowAwait := isAsync, allowYield := isGenerator, allowReturn := true,
    allowConditional := true, arrowNeedsColon := false }

/-- The surroundings of parameters. -/
def inParameters (isAsync isGenerator : Bool) (context : Context) : Context :=
  { context with allowIn := true, allowAwait := isAsync, allowYield := isGenerator }

/-- The parameters and the result of a function, and its body.  A typed function may be
declared without a body. -/
def functionRest (recur : Recur) (isAsync isGenerator mayOmitBody : Bool) :
    Parser (List Node) := do
  let typeParameters ← typeParametersHere recur
  let parameters ← within (inParameters isAsync isGenerator) (parameters recur)
  let result ← resultAfterColon recur
  if ← at? "\x7b" then
    let body ← within (inFunction isAsync isGenerator) (recur .functionBody)
    return typeParameters ++ parameters :: result ++ [body]
  else
    require (mayOmitBody && (← typed))
    semicolon
    return typeParameters ++ parameters :: result

/-- A function from its keyword on, the word `async` before it already passed.  A
declaration has a name unless it is a default export. -/
def functionForm (recur : Recur) (start : Nat) (isAsync isStatement needsName : Bool) :
    Parser Node := do
  expectKeyword "function"
  let isGenerator ← eat "*"
  let named ← atName
  let name ←
    if named then
      if isStatement then pure [← bindingName]
      else
        pure [← within (fun context =>
          { context with allowAwait := isAsync, allowYield := isGenerator }) bindingName]
    else pure []
  require (named || !needsName)
  let parts ← functionRest recur isAsync isGenerator isStatement
  form start (.function isAsync isGenerator) (name ++ parts)

/-! ## Classes -/

/-- The words that may stand before a member, in a plain and in a typed language. -/
def memberWords (typed : Bool) : List String :=
  if typed then
    ["static", "accessor", "public", "private", "protected", "abstract", "override", "readonly",
      "declare"]
  else ["static", "accessor"]

/-- The rest of a member after its name: a method or a field. -/
def memberRest (recur : Recur) (isAsync isGenerator mustCall : Bool) : Parser (List Node) := do
  if (← at? "(") || (← at? "<") then functionRest recur isAsync isGenerator true
  else
    require (!mustCall && !isAsync && !isGenerator)
    let type ← typeAfterColon recur
    let initial ←
      if ← eat "=" then
        pure [← within (fun context =>
          { context with allowIn := true, allowYield := false, allowAwait := false })
          (recur .assignment)]
      else pure []
    semicolon
    return type ++ initial

/-- Whether a member is named `constructor` and may not be what the flags say. -/
def isBadConstructor (computed isSpecial : Bool) (key : Node) : Bool :=
  !computed && isSpecial && (match key with
    | .word name _ => name == "constructor"
    | .text value _ => value == "constructor"
    | _ => false)

/-- One member of a class. -/
def classMember (recur : Recur) : Parser Node := do
  let start ← startHere
  let decorators ← decorators recur
  let following ← peek
  if (← atKeyword "static") && following.isPunctuator "\x7b" then
    advance
    let body ← within (fun context => { inFunction false false context with allowReturn := false })
      (recur .block)
    form start .staticBlock [body]
  else
    let modifiers ← many (memberModifier (memberWords (← typed)))
    if (← typed) && (← indexSignatureStarts) then
      let parts ← indexSignature recur
      semicolon
      form start (.typeMember "index") parts
    else
      let accessor ← memberModifier ["get", "set"]
      let isAsync := (← memberModifier ["async"]).isSome
      let isGenerator ← eat "*"
      let (computed, key) ← propertyName recur true
      require (!isBadConstructor computed (accessor.isSome || isAsync || isGenerator) key ||
        modifiers.contains "static")
      if ← typed then
        let optional ← eat "?"
        if !optional && !(← token).afterLineEnd then let _ ← eat "!"
      let isField := !((← at? "(") || (← at? "<"))
      require (!isBadConstructor computed isField key)
      let rest ← memberRest recur isAsync isGenerator accessor.isSome
      form start (.classMember (modifiers ++ accessor.toList) computed) (decorators ++ key :: rest)

/-- The members of a class in their braces. -/
def classBody (recur : Recur) : Parser Node := do
  let start ← startHere
  expect "\x7b"
  let members ← many do
    let _ ← many do
      if ← eat ";" then return some () else return none
    if ← at? "\x7d" then return none else return some (← classMember recur)
  expect "\x7d"
  form start .classBody members

/-- A class from its keyword on. -/
def classForm (recur : Recur) (start : Nat) (decorators : List Node) : Parser Node := do
  expectKeyword "class"
  let named ← atName
  let isName := named && !((← atKeyword "implements") && (← typed))
  let name ← if isName then pure [← bindingName] else pure []
  let typeParameters ← typeParametersHere recur
  let parent ←
    if ← eatKeyword "extends" then
      let parent ← recur .member
      let arguments ← typeArgumentsHere recur
      pure [← form parent.start .heritage (parent :: arguments)]
    else pure []
  let implemented ←
    if (← typed) && (← atKeyword "implements") then
      advance
      commaSeparated (typeReference recur)
    else pure []
  let body ← classBody recur
  form start .classDefinition
    (decorators ++ name ++ typeParameters ++ parent ++ implemented ++ [body])

/-- A class with the decorators before it. -/
def decoratedClass (recur : Recur) : Parser Node := do
  let start ← startHere
  let decorators ← decorators recur
  classForm recur start decorators

end FontHosting.Script
