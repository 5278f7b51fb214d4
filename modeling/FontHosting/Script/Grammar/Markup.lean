import FontHosting.Script.Grammar.Functions

/-!
# Markup elements

An element has a name, attributes and children.  A name that starts with a capital
letter, or that is the first of several with points between them, refers to a
binding; other names do not.
-/

namespace FontHosting.Script

open FontHosting.Script.Parser

/-- One word of a markup name, which may contain `-`. -/
def markupWord : Parser (String × Span) := do
  require (← token).isWord
  let name ← inspect fun state => state.reading.markupName
  let start ← startHere
  passOver name.length
  return (String.ofList name, ← spanFrom start)

/-- Whether a markup name that stands alone refers to a binding. -/
def refersToBinding (name : String) : Bool :=
  match name.toList with
  | [] => false
  | c :: rest => !c.isLower && !(c :: rest).contains '-'

/-- The name of an element. -/
def markupName : Parser Node := do
  let start ← startHere
  let (name, span) ← markupWord
  if ← eat ":" then
    let (member, memberSpan) ← markupWord
    form start .markupNamespaced [.word name span, .word member memberSpan]
  else if ← at? "." then
    let root := if name == "this" then Node.form .this [] span else .reference name span
    let members ← many do
      if ← eat "." then
        let (member, span) ← markupWord
        return some (Node.word member span)
      else return none
    form start .markupMember (root :: members)
  else if name == "this" then return .form .this [] span
  else if refersToBinding name then return .reference name span
  else return .word name span

mutual

/-- Whether two names are written alike. -/
def sameName : Node → Node → Bool
  | .reference a _, .reference b _ => a == b
  | .word a _, .word b _ => a == b
  | .form a parts _, .form b others _ => a == b && sameNames parts others
  | _, _ => false

/-- Whether two lists of names are written alike. -/
def sameNames : List Node → List Node → Bool
  | [], [] => true
  | a :: rest, b :: others => sameName a b && sameNames rest others
  | _, _ => false

end

/-- An expression in braces, as an attribute value; it may not be missing. -/
def markupExpression (recur : Recur) : Parser Node := do
  let start ← startHere
  expect "\x7b"
  let value ← within (inBrackets) (recur .expression)
  expect "\x7d"
  form start .markupContainer [value]
where
  /-- Inside braces everything may stand again. -/
  inBrackets (context : Context) : Context :=
    { context with allowIn := true, allowConditional := true, arrowNeedsColon := false }

/-- The value of an attribute. -/
def markupValue (recur : Recur) : Parser Node := do
  match (← token).kind with
  | .text _ | .invalid =>
      reread Source.markupString?
      textNode
  | .punctuator "\x7b" => markupExpression recur
  | .punctuator "<" => do
      let element ← recur .markup
      advance
      return element
  | _ => fail

/-- One attribute. -/
def markupAttribute (recur : Recur) : Parser Node := do
  let start ← startHere
  if ← eat "\x7b" then
    expect "..."
    let value ← recur .assignment
    expect "\x7d"
    form start .markupSpread [value]
  else
    let (name, span) ← markupWord
    let name ←
      if ← eat ":" then
        let (member, memberSpan) ← markupWord
        form start .markupNamespaced [.word name span, .word member memberSpan]
      else pure (.word name span)
    if ← at? "=" then
      -- the value is read anew, since a string in markup knows no escapes
      advance
      let value ← markupValue recur
      form start .markupAttribute [name, value]
    else form start .markupAttribute [name]

/-- The state behind a closing bracket, at the child that follows. -/
def toChild : Parser Unit := do
  require (← at? ">")
  advanceTo Source.markupText

/-- The state behind a closing brace, at the child that follows. -/
def toNextChild : Parser Unit := do
  require (← at? "\x7d")
  advanceTo Source.markupText

/-- The children of an element, up to the `<` of the closing name.  The current token is
the text, possibly empty, before the next child. -/
def markupChildren (recur : Recur) : Nat → List Node → Parser (List Node)
  | 0, _ => fail
  | fuel + 1, done => do
      match (← token).kind with
      | .markupText value =>
          let span ← tokenSpan
          let done := if value.isEmpty then done else .form (.markupText value) [] span :: done
          advance
          if ← at? "<" then
            let following ← peek
            if following.isPunctuator "/" then return done.reverse
            else
              let child ← recur .markup
              -- the child left its closing bracket as the current token
              toChild
              markupChildren recur fuel (child :: done)
          else
            let start ← startHere
            expect "\x7b"
            let child ←
              if ← at? "\x7d" then form start .markupContainer []
              else if ← eat "..." then
                let value ← recur .expression
                form start .markupSpread [value]
              else
                let value ← within markupExpression.inBrackets (recur .expression)
                form start .markupContainer [value]
            toNextChild
            markupChildren recur fuel (child :: done)
      | _ => fail

/-- An element or a fragment, up to its closing bracket, which stays the current token. -/
def markupElement (recur : Recur) : Parser Node := do
  let start ← startHere
  expect "<"
  if ← at? ">" then
    toChild
    let children ← markupChildren recur ((← place).rest.length + 1) []
    expect "<"
    expect "/"
    require (← at? ">")
    let stop := (← token).stop
    return .form .markupFragment children ⟨start, stop⟩
  else
    let name ← markupName
    let arguments ← if (← at? "<") && (← typed) then typeArguments recur else pure []
    let attributes ← many do
      if (← at? ">") || (← at? "/") then return none
      else return some (← markupAttribute recur)
    if ← eat "/" then
      require (← at? ">")
      let stop := (← token).stop
      return .form .markupElement (name :: arguments ++ attributes) ⟨start, stop⟩
    else
      toChild
      let children ← markupChildren recur ((← place).rest.length + 1) []
      expect "<"
      expect "/"
      let closing ← markupName
      require (sameName name closing)
      require (← at? ">")
      let stop := (← token).stop
      return .form .markupElement (name :: arguments ++ attributes ++ children ++ [closing])
        ⟨start, stop⟩

end FontHosting.Script
