import FontHosting.Script.Language
import FontHosting.Script.Lexer
import FontHosting.Script.Node

/-!
# Parsers

A parser reads from the current token on and answers a value with the state
after it, or nothing if the text does not fit.  Since the state is a plain value,
trying a parser and going back costs nothing: `attempt` answers `none` and leaves
the state as it was.  No parser moves back in the text: the type of the answer says
so, so that it holds of every rule of the grammar.

The rules of the grammar call each other in circles.  They are therefore written
against a table `Recur` that answers every `Goal`, and the circle is closed in one
place, by a recursion that hands each rule the table of the level below.
-/

namespace FontHosting.Script

/-- What the surroundings of a form allow in it. -/
structure Context where
  language : Language
  /-- Whether `in` may be an operator. -/
  allowIn : Bool
  allowAwait : Bool
  allowYield : Bool
  allowReturn : Bool
  ambient : Bool
  /-- Whether a type may go on with `extends` and a choice. -/
  allowConditional : Bool
  /-- Whether an arrow function with a result type must be followed by a colon, as it
  must be between the marks of a conditional. -/
  arrowNeedsColon : Bool
  deriving Repr

/-- The current token and its surroundings. -/
structure State where
  here : Source
  reading : Reading here
  /-- The place behind the token before the current one. -/
  previous : Source
  leads : previous.Leads here

/-- The current token of a state. -/
def State.token (state : State) : Token := state.reading.token

/-- The place behind the current token. -/
def State.after (state : State) : Source := state.reading.after

/-- What the state after a parser may be: still at the same token, which may have been read
in another way, or with a place passed at or behind it. -/
def State.Reaches (before after : State) : Prop :=
  after.here = before.here ∧ after.previous = before.previous ∨ before.here.Leads after.previous

theorem State.Reaches.refl (state : State) : state.Reaches state := .inl ⟨rfl, rfl⟩

theorem State.Reaches.trans {first second third : State} (hfirst : first.Reaches second)
    (hsecond : second.Reaches third) : first.Reaches third := by
  rcases hsecond with ⟨hhere, hprevious⟩ | hsecond
  · rcases hfirst with hfirst | hfirst
    · exact .inl ⟨hhere.trans hfirst.1, hprevious.trans hfirst.2⟩
    · exact .inr (hprevious ▸ hfirst)
  · rcases hfirst with ⟨hhere, -⟩ | hfirst
    · exact .inr (hhere ▸ hsecond)
    · exact .inr ((hfirst.trans second.leads).trans hsecond)

/-- What a parser answers: a value and the state after it. -/
structure Reply (state : State) (α : Type) where
  value : α
  after : State
  reaches : state.Reaches after

/-- A parser. -/
def Parser (α : Type) : Type := Context → (state : State) → Option (Reply state α)

instance : Monad Parser where
  pure value := fun _ state => some ⟨value, state, .refl state⟩
  bind parser next := fun context state =>
    match parser context state with
    | none => none
    | some first =>
        match next first.value context first.after with
        | none => none
        | some last => some ⟨last.value, last.after, first.reaches.trans last.reaches⟩

instance : MonadReaderOf Context Parser where
  read := fun context state => some ⟨context, state, .refl state⟩

/-- The forms that rules ask each other for. -/
inductive Goal where
  | expression
  | assignment
  | binary (minimum : Nat)
  | unary
  | member
  | bindingTarget
  | statement
  | subStatement
  /-- A statement, or what only modules and namespaces may contain. -/
  | item
  | block
  | functionBody
  | classDefinition
  | type
  | postfixType
  | markup
  deriving DecidableEq, Repr

/-- The rules one level below. -/
abbrev Recur := Goal → Parser Node

namespace Parser

/-- The text does not fit. -/
def fail {α : Type} : Parser α := fun _ _ => none

/-- Go on only if a condition holds. -/
def require (condition : Bool) : Parser Unit :=
  if condition then pure () else fail

/-- What can be seen of the state. -/
def inspect {α : Type} (view : State → α) : Parser α := fun _ state =>
  some ⟨view state, state, .refl state⟩

/-- The current token. -/
def token : Parser Token := inspect State.token

/-- The place where the current token starts. -/
def place : Parser Source := inspect State.here

/-- The state at the first token of a source. -/
def stateAt (source : Source) : State :=
  let found := source.next
  ⟨found.here, found.reading, source, found.leads⟩

/-- Go on to the next token. -/
def advance : Parser Unit := fun _ state =>
  some ⟨(), stateAt state.after, .inr state.reading.leads⟩

/-- Go on to the token behind some characters. -/
def passOver (count : Nat) : Parser Unit := fun _ state =>
  some ⟨(), stateAt (state.here.skip count), .inr ⟨count, rfl⟩⟩

/-- Go on to the next token, which is read in a special way. -/
def advanceTo (reader : (source : Source) → Reading source) : Parser Unit := fun _ state =>
  some ⟨(), ⟨state.after, reader state.after, state.after, .refl state.after⟩,
    .inr state.reading.leads⟩

/-- The token after the current one. -/
def peek : Parser Token := inspect fun state => state.after.next.reading.token

/-- Read the current token anew in a special way. -/
def reread (reader : (source : Source) → Option (Reading source)) : Parser Unit :=
  fun _ state =>
    match reader state.here with
    | some reading => some ⟨(), { state with reading }, .inl ⟨rfl, rfl⟩⟩
    | none => none

/-- Run a parser; if it does not fit, go back and answer nothing. -/
def attempt {α : Type} (parser : Parser α) : Parser (Option α) := fun context state =>
  match parser context state with
  | some reply => some ⟨some reply.value, reply.after, reply.reaches⟩
  | none => some ⟨none, state, .refl state⟩

/-- Whether a parser would fit here. -/
def fits {α : Type} (parser : Parser α) : Parser Bool := fun context state =>
  some ⟨(parser context state).isSome, state, .refl state⟩

/-- Run a parser in other surroundings. -/
def within {α : Type} (change : Context → Context) (parser : Parser α) : Parser α :=
  fun context state => parser (change context) state

/-- The language of the script. -/
def language : Parser Language := return (← read).language

/-- Whether types may be written. -/
def typed : Parser Bool := return (← read).language.typed

/-- Whether the current token is a punctuator. -/
def at? (text : String) : Parser Bool := return (← token).isPunctuator text

/-- Whether the current token is a keyword. -/
def atKeyword (text : String) : Parser Bool := return (← token).isKeyword text

/-- Pass over a punctuator if it is there. -/
def eat (text : String) : Parser Bool := do
  if ← at? text then
    advance
    return true
  else return false

/-- Pass over a keyword if it is there. -/
def eatKeyword (text : String) : Parser Bool := do
  if ← atKeyword text then
    advance
    return true
  else return false

/-- Pass over a punctuator that must be there. -/
def expect (text : String) : Parser Unit := do require (← eat text)

/-- Pass over a keyword that must be there. -/
def expectKeyword (text : String) : Parser Unit := do require (← eatKeyword text)

/-- Where the current token starts. -/
def startHere : Parser Nat := return (← token).start

/-- Where the last token passed ended. -/
def lastStop : Parser Nat := inspect fun state => state.previous.offset

/-- The range from a start to the end of the last token passed. -/
def spanFrom (start : Nat) : Parser Span := return ⟨start, ← lastStop⟩

/-- The range of the current token. -/
def tokenSpan : Parser Span := do
  let token ← token
  return ⟨token.start, token.stop⟩

/-- A form from a start to the last token passed. -/
def form (start : Nat) (kind : Form) (parts : List Node) : Parser Node :=
  return .form kind parts (← spanFrom start)

/-- Whether a statement may end here without a semicolon. -/
def mayEnd : Parser Bool := do
  let token ← token
  return token.afterLineEnd || token.isPunctuator ";" || token.isPunctuator "\x7d" ||
    (match token.kind with
      | .finish => true
      | _ => false)

/-- The end of a statement: a semicolon, or a place where it may be left out. -/
def semicolon : Parser Unit := do
  require (← mayEnd)
  let _ ← eat ";"

/-- Whether the text ends here. -/
def atFinish : Parser Bool := do
  match (← token).kind with
  | .finish => return true
  | _ => return false

/-- Run a parser until it answers nothing; the answers so far are in reverse. -/
def collect {α : Type} (step : Parser (Option α)) : Nat → List α → Parser (List α)
  | 0, done => return done.reverse
  | fuel + 1, done => do
      match ← step with
      | none => return done.reverse
      | some value => collect step fuel (value :: done)

/-- Run a parser until it answers nothing.  Each answer passes a token, so there are no
more of them than characters. -/
def many {α : Type} (step : Parser (Option α)) : Parser (List α) := do
  collect step ((← place).rest.length + 1) []

/-- Items with commas between them up to a closing punctuator, which is passed.  A comma
may stand after the last item. -/
def commaList {α : Type} (close : String) (item : Parser α) : Parser (List α) := do
  let items ← many do
    if ← at? close then return none
    else
      let value ← item
      if !(← at? close) then expect ","
      return some value
  expect close
  return items

/-- At least one item, with commas between them. -/
def commaSeparated {α : Type} (item : Parser α) : Parser (List α) := do
  let first ← item
  let others ← many do
    if ← eat "," then return some (← item) else return none
  return first :: others

/-- A parser that runs only if a condition holds. -/
def optionally (condition : Bool) (parser : Parser (List Node)) : Parser (List Node) :=
  if condition then parser else return []

end Parser

/-! ## Names -/

open FontHosting.Script.Parser

/-- Whether a word may be a name here: it is not reserved, and `await` and `yield` are
names only where they are no operators. -/
def mayName (context : Context) (word : String) : Bool :=
  !isReserved word && !(word == "await" && context.allowAwait) &&
    !(word == "yield" && context.allowYield)

/-- Whether the current token may be a name. -/
def atName : Parser Bool := do
  match (← token).word? with
  | some word => return mayName (← read) word
  | none => return false

/-- A name that refers to a binding. -/
def referenceName : Parser Node := do
  require (← atName)
  let span ← tokenSpan
  let word := (← token).word?.getD ""
  advance
  return .reference word span

/-- A name that introduces a binding. -/
def bindingName : Parser Node := do
  require (← atName)
  let span ← tokenSpan
  let word := (← token).word?.getD ""
  advance
  return .binding word span

/-- Any word, reserved or not. -/
def plainWord : Parser Node := do
  let span ← tokenSpan
  match (← token).word? with
  | some word =>
      advance
      return .word word span
  | none => fail

/-- A string. -/
def textNode : Parser Node := do
  let span ← tokenSpan
  match (← token).kind with
  | .text value =>
      advance
      return .text value span
  | _ => fail

/-- A word or a string, as the names between modules may be. -/
def moduleName : Parser Node := do
  match (← token).kind with
  | .text _ => textNode
  | _ => plainWord

/-- A name after `#`. -/
def privateName : Parser Node := do
  let span ← tokenSpan
  match (← token).kind with
  | .privateWord word =>
      advance
      return .form (.privateWord word) [] span
  | _ => fail

/-- Whether the current token may start the name of a property. -/
def atPropertyName : Parser Bool := do
  match (← token).kind with
  | .word _ | .text _ | .number _ | .bigNumber _ | .privateWord _ => return true
  | .punctuator text => return text == "["
  | _ => return false

/-- The name of a property, and whether it is computed. -/
def propertyName (recur : Recur) (allowPrivate : Bool) : Parser (Bool × Node) := do
  let span ← tokenSpan
  match (← token).kind with
  | .text _ => return (false, ← textNode)
  | .number value =>
      advance
      return (false, .number value span)
  | .bigNumber digits =>
      advance
      return (false, .form (.bigNumber digits) [] span)
  | .privateWord _ =>
      require allowPrivate
      return (false, ← privateName)
  | .punctuator "[" =>
      advance
      let key ← within (fun context => { context with allowIn := true }) (recur .assignment)
      expect "]"
      return (true, key)
  | _ => return (false, ← plainWord)

end FontHosting.Script
