import FontHosting.Script.Grammar.Modules

/-!
# Parsing scripts

The circle of the grammar's rules is closed here, by recursion on a number of
levels that every text fits into.
-/

namespace FontHosting.Script

open FontHosting.Script.Parser

/-- What each goal stands for, the rules one level below being given. -/
def rule (recur : Recur) : Goal → Parser Node
  | .expression => expression recur
  | .assignment => assignment recur
  | .binary minimum => binary recur minimum
  | .unary => unary recur
  | .member => callChain recur
  | .bindingTarget => bindingTarget recur
  | .statement => statement recur
  | .subStatement => subStatement recur
  | .item => item recur
  | .block => block recur
  | .functionBody => functionBody recur
  | .classDefinition => decoratedClass recur
  | .type => anyType recur
  | .postfixType => operatorType recur
  | .markup => markupElement recur

/-- The grammar with a number of levels of nesting. -/
def grammar : Nat → Recur
  | 0, _ => fail
  | depth + 1, goal => rule (grammar depth) goal

/-- The surroundings at the top of a script. -/
def topLevel (language : Language) : Context :=
  { language, allowIn := true, allowAwait := language.isModule, allowYield := false,
    allowReturn := false, ambient := language.ambient, allowConditional := true,
    arrowNeedsColon := false }

/-- Pass over a first line that names the program to run a script with. -/
def withoutFirstLine (text : List Char) : List Char :=
  match text with
  | '#' :: '!' :: rest => rest.dropWhile fun c => !isLineEnd c
  | _ => text

/-- Whether a statement is nothing but a string, as directives are. -/
def isDirective : Node → Bool
  | .form .expressionStatement [.text _ _] _ => true
  | _ => false

/-- The item that starts at a state, and the place behind its last token.  An item starts
with a token and passes a character. -/
def itemAt? (language : Language) (depth : Nat) (state : State) : Option (Node × Source) :=
  match state.token.kind with
  | .invalid => none
  | _ => do
      let reply ← grammar depth .item (topLevel language) state
      let next := reply.after.previous
      if next.rest.length < state.here.rest.length then return (reply.value, next) else none

/-- The items of a script from a place on.  There are no more of them than characters. -/
def scriptItems (language : Language) (depth : Nat) : Nat → Source → Option (List Node)
  | 0, _ => none
  | fuel + 1, source =>
      let state := stateAt source
      match state.token.kind with
      | .finish => some []
      | _ => do
          let (node, next) ← itemAt? language depth state
          return node :: (← scriptItems language depth fuel next)

/-- How deep the forms of a text may be nested. -/
def depthOf (text : List Char) : Nat :=
  4 * text.length + 16

/-- Where the first item of a text is looked for. -/
def scriptStart (text : List Char) : Source :=
  (Source.mk text 0).moveTo (withoutFirstLine text)

/-- A text read as a script, if it is one. -/
def Program.read? (language : Language) (text : String) : Option Program := do
  let characters := text.toList
  let items ← scriptItems language (depthOf characters) (characters.length + 1)
    (scriptStart characters)
  if anyCover items then none
  else
    let directives := items.takeWhile isDirective
    return ⟨directives, items.drop directives.length⟩

end FontHosting.Script
