/-!
# Tokens

A token knows its place in the text, counted in bytes, and whether a line ended
before it.  Keywords are not told apart from names here: which words are names
depends on where they stand, so the grammar decides.
-/

namespace FontHosting.Script

/-- The kinds of tokens. -/
inductive TokenKind where
  /-- A name or a keyword, with its escapes undone. -/
  | word (text : String)
  /-- `#` and a name. -/
  | privateWord (text : String)
  | punctuator (text : String)
  | number (value : Float)
  | bigNumber (digits : String)
  | text (value : String)
  /-- A piece of a template up to the next substitution or, if `last`, up to the closing
  mark.  It has no value if it contains an escape that means nothing. -/
  | templatePiece (value : Option String) (last : Bool)
  | pattern (body flags : String)
  | markupText (value : String)
  | finish
  /-- Text that starts no token. -/
  | invalid
  deriving Repr, Inhabited

/-- A token in its place. -/
structure Token where
  kind : TokenKind
  start : Nat
  stop : Nat
  /-- Whether a line ended between the token before and this one. -/
  afterLineEnd : Bool
  /-- Whether a name was written with an escape, so that it is no keyword. -/
  escaped : Bool
  deriving Repr, Inhabited

/-- Whether the token is this punctuator. -/
def Token.isPunctuator (token : Token) (text : String) : Bool :=
  match token.kind with
  | .punctuator found => found == text
  | _ => false

/-- Whether the token is this keyword, written plainly. -/
def Token.isKeyword (token : Token) (text : String) : Bool :=
  match token.kind with
  | .word found => found == text && !token.escaped
  | _ => false

/-- Whether the token is a name or a keyword. -/
def Token.isWord (token : Token) : Bool :=
  match token.kind with
  | .word _ => true
  | _ => false

/-- The text of a name or a keyword. -/
def Token.word? (token : Token) : Option String :=
  match token.kind with
  | .word text => some text
  | _ => none

/-- The words that are never names. -/
def reservedWords : List String := [
  "break", "case", "catch", "class", "const", "continue", "debugger", "default", "delete", "do",
  "else", "enum", "export", "extends", "false", "finally", "for", "function", "if", "import", "in",
  "instanceof", "new", "null", "return", "super", "switch", "this", "throw", "true", "try",
  "typeof", "var", "void", "while", "with"]

/-- Whether a word is never a name. -/
def isReserved (word : String) : Bool :=
  reservedWords.contains word

end FontHosting.Script
