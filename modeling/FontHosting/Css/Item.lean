import FontHosting.Css.Token

/-!
# Values with their brackets

Tokens between brackets belong together.  What is not closed is closed at the end, and
a closing bracket that nothing opened stands for itself.
-/

namespace FontHosting.Css

/-- A token, or tokens between brackets. -/
inductive Item where
  | token (token : Token)
  /-- Brackets, told by the opening one. -/
  | block (opening : Char) (items : List Item)
  | call (name : List Char) (items : List Item)

/-- The bracket that closes another. -/
def closingOf (opening : Char) : Char :=
  if opening = '(' then ')' else if opening = '[' then ']' else '\x7d'

/-- The items up to the bracket that closes them, those before them in reverse. -/
def readItems : Nat → Option Char → List Item → List Token → List Item × List Token
  | 0, _, done, rest => (done.reverse, rest)
  | _, _, done, [] => (done.reverse, [])
  | fuel + 1, close, done, token :: rest =>
      match token.kind with
      | .closing c =>
          if some c = close then (done.reverse, rest)
          else readItems fuel close (.token token :: done) rest
      | .opening c =>
          let (inner, rest) := readItems fuel (some (closingOf c)) [] rest
          readItems fuel close (.block c inner :: done) rest
      | .call name =>
          let (inner, rest) := readItems fuel (some ')') [] rest
          readItems fuel close (.call name inner :: done) rest
      | _ => readItems fuel close (.token token :: done) rest

/-- The items of a text. -/
def items (text : List Char) : List Item :=
  let tokens := tokens text
  (readItems (tokens.length + 1) none [] tokens).1

/-- Whether an item is blank. -/
def Item.isBlank : Item → Bool
  | .token ⟨.blank, _⟩ => true
  | _ => false

/-- Whether an item is this mark. -/
def Item.isMark (mark : Char) : Item → Bool
  | .token ⟨.mark c, _⟩ => c == mark
  | _ => false

/-- Items without blanks at both ends. -/
def trimItems (items : List Item) : List Item :=
  ((items.dropWhile Item.isBlank).reverse.dropWhile Item.isBlank).reverse

/-- Items without any blanks. -/
def solidItems (items : List Item) : List Item :=
  items.filter fun item => !item.isBlank

/-- The items between the occurrences of a mark. -/
def splitItems (mark : Char) : List Item → List (List Item)
  | [] => [[]]
  | item :: rest =>
      if item.isMark mark then [] :: splitItems mark rest
      else
        match splitItems mark rest with
        | [] => [[item]]
        | first :: others => (item :: first) :: others

mutual

/-- Whether a string or an address is not ended as it should be. -/
def Item.isBad : Item → Bool
  | .token ⟨.bad, _⟩ | .token ⟨.closing _, _⟩ => true
  | .token _ => false
  | .block _ items | .call _ items => anyBad items

/-- Whether one of the items is bad. -/
def anyBad : List Item → Bool
  | [] => false
  | item :: rest => item.isBad || anyBad rest

end

end FontHosting.Css
