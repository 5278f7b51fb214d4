import FontHosting.Script.Parser

/-!
# Targets and parameters

What a declaration or a function binds: a name, or a pattern of names in brackets
or braces, with types and initial values where they may stand.
-/

namespace FontHosting.Script

open FontHosting.Script.Parser

/-- A value that a target starts with, after its equals sign. -/
def initialValue (recur : Recur) : Parser (List Node) := do
  if ← eat "=" then
    return [← within (fun context => { context with allowIn := true }) (recur .assignment)]
  else return []

/-- A type after a colon, in a typed language. -/
def typeAfterColon (recur : Recur) : Parser (List Node) := do
  if ← pure (← typed) <&&> at? ":" then
    advance
    return [← within (fun context => { context with allowConditional := true }) (recur .type)]
  else return []

/-- A target with its initial value. -/
def defaultedTarget (recur : Recur) : Parser Node := do
  let start ← startHere
  let target ← recur .bindingTarget
  match ← initialValue recur with
  | [] => return target
  | values => form start .defaulted (target :: values)

/-- One part of a pattern in braces. -/
def bindingProperty (recur : Recur) : Parser Node := do
  let start ← startHere
  if ← eat "..." then
    let target ← bindingName
    require (← at? "\x7d")
    form start .rest [target]
  else
    let following ← peek
    let shorthand := !following.isPunctuator ":" && !(← at? "[")
    if shorthand then
      let target ← bindingName
      let value ← match ← initialValue recur with
        | [] => pure target
        | values => form start .defaulted (target :: values)
      form start (.targetProperty false) [target.asWord, value]
    else
      let (computed, key) ← propertyName recur false
      expect ":"
      let value ← defaultedTarget recur
      form start (.targetProperty computed) [key, value]

/-- One part of a pattern in brackets. -/
def bindingItem (recur : Recur) : Parser Node := do
  let start ← startHere
  if ← at? "," then return .hole (← tokenSpan)
  else if ← eat "..." then
    let target ← recur .bindingTarget
    require (← at? "]")
    form start .rest [target]
  else defaultedTarget recur

/-- A name or a pattern. -/
def bindingTarget (recur : Recur) : Parser Node := do
  let start ← startHere
  if ← eat "\x7b" then
    let parts ← commaList "\x7d" (bindingProperty recur)
    form start .objectTarget parts
  else if ← eat "[" then
    let parts ← commaList "]" (bindingItem recur)
    form start .arrayTarget parts
  else bindingName

/-- Decorators before a declaration or a member. -/
def decorators (recur : Recur) : Parser (List Node) :=
  many do
    if ← at? "@" then
      let start ← startHere
      advance
      let value ← within (fun context => { context with allowYield := context.allowYield })
        (recur .member)
      return some (← form start .decorator [value])
    else return none

/-- Words that may stand before the name of a parameter. -/
def parameterModifiers : Parser (List String) :=
  many do
    let token ← token
    let following ← peek
    let isModifier := ["public", "private", "protected", "readonly", "override"].any token.isKeyword
    let continues := following.isWord || following.isPunctuator "\x7b" || following.isPunctuator "["
    if isModifier && continues && (← typed) then
      advance
      return token.word?
    else return none

/-- One parameter of a function. -/
def parameter (recur : Recur) : Parser Node := do
  let start ← startHere
  let decorators ← decorators recur
  if ← eat "..." then
    let target ← recur .bindingTarget
    let type ← typeAfterColon recur
    require (← at? ")")
    form start .rest (decorators ++ target :: type)
  else if (← atKeyword "this") && (← typed) then
    let span ← tokenSpan
    advance
    let type ← typeAfterColon recur
    form start (.parameter []) (.form .this [] span :: type)
  else
    let modifiers ← parameterModifiers
    let target ← recur .bindingTarget
    if ← typed then let _ ← eat "?"
    let type ← typeAfterColon recur
    let initial ← initialValue recur
    form start (.parameter modifiers) (decorators ++ target :: type ++ initial)

/-- The parameters of a function in their brackets. -/
def parameters (recur : Recur) : Parser Node := do
  let start ← startHere
  expect "("
  let items ← commaList ")" (parameter recur)
  form start .parameters items

end FontHosting.Script
