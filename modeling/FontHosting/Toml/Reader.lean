import FontHosting.Toml.Quoted
import FontHosting.Toml.Tree

/-!
# Reading TOML

`read?` gives the entries of a TOML document, and nothing for a text that is none.
-/

namespace FontHosting.Toml

/-- Whether a character is a blank within a line. -/
def isGap (c : Char) : Bool := c = ' ' || c = '\t'

/-- A text without the blanks it starts with. -/
def skipGap (text : List Char) : List Char := text.dropWhile isGap

/-- What follows a comment, if the text starts with one. -/
def skipComment? (text : List Char) : Option (List Char) :=
  match text with
  | '#' :: rest =>
      let comment := rest.takeWhile fun c => c != '\n' && c != '\r'
      if comment.any isControl then none else some (rest.drop comment.length)
  | _ => some text

/-- What follows the end of a line, with the blanks and the comment before it. -/
def endLine? (text : List Char) : Option (List Char) := do
  match ← skipComment? (skipGap text) with
  | [] => some []
  | '\n' :: rest => some rest
  | '\r' :: '\n' :: rest => some rest
  | _ => none

/-- What follows blanks, line ends and comments.  `fuel` bounds the number of lines. -/
def skipLines? : Nat → List Char → Option (List Char)
  | 0, _ => none
  | fuel + 1, text =>
      match skipGap text with
      | [] => some []
      | c :: rest =>
          if c = '#' || c = '\n' || c = '\r' then do
            skipLines? fuel (← endLine? (c :: rest))
          else some (c :: rest)

/-! ## Keys -/

/-- Whether a character may stand in a key without quotes. -/
def isBare (c : Char) : Bool := c.isAlphanum || c = '_' || c = '-'

/-- One part of a key. -/
def readKeyPart? (text : List Char) : Option (String × List Char) :=
  match text with
  | '"' :: rest => readShort? '"' rest
  | '\'' :: rest => readShort? '\'' rest
  | _ =>
      let part := text.takeWhile isBare
      if part.isEmpty then none else some (String.ofList part, text.drop part.length)

/-- A key with points between its parts.  `fuel` bounds their number. -/
def readKey? : Nat → List Char → Option (List String × List Char)
  | 0, _ => none
  | fuel + 1, text => do
      let (part, rest) ← readKeyPart? (skipGap text)
      match skipGap rest with
      | '.' :: rest => do
          let (parts, rest) ← readKey? fuel rest
          return (part :: parts, rest)
      | rest => return ([part], rest)

/-! ## Values -/

/-- Whether a character ends a value without quotes and brackets. -/
def isStop (c : Char) : Bool :=
  isGap c || c = '\n' || c = '\r' || c = ',' || c = ']' || c = '\x7d' || c = '#'

/-- A value without quotes and brackets.  The blank between a date and a time belongs to it. -/
def readWord? (text : List Char) : Option (Value × List Char) :=
  let word := text.takeWhile fun c => !isStop c
  let rest := text.drop word.length
  let longer := match afterDate? word, rest with
    | some [], ' ' :: next =>
        let time := next.takeWhile fun c => !isStop c
        if (time.headD ' ').isDigit then word ++ ' ' :: time else word
    | _, _ => word
  (readPlain? longer).map fun value => (value, text.drop longer.length)

mutual

/-- A value. -/
def readValue? : Nat → List Char → Option (Value × List Char)
  | 0, _ => none
  | fuel + 1, text =>
      match text with
      | '"' :: rest => (readText? '"' rest).map fun (value, rest) => (.text value, rest)
      | '\'' :: rest => (readText? '\'' rest).map fun (value, rest) => (.text value, rest)
      | '[' :: rest => do
          let (items, rest) ← readItems? fuel [] rest
          return (.list items, rest)
      | '\x7b' :: rest =>
          match skipGap rest with
          | '\x7d' :: rest => some (.table [], rest)
          | rest => do
              let (entries, rest) ← readPairs? fuel [] rest
              return (.table (entryValues entries), rest)
      | _ => readWord? text

/-- The items of a list up to its bracket, those before them in reverse. -/
def readItems? : Nat → List Value → List Char → Option (List Value × List Char)
  | 0, _, _ => none
  | fuel + 1, done, text => do
      match ← skipLines? (text.length + 1) text with
      | ']' :: rest => return (done.reverse, rest)
      | text =>
          let (item, rest) ← readValue? fuel text
          match ← skipLines? (rest.length + 1) rest with
          | ',' :: rest => readItems? fuel (item :: done) rest
          | ']' :: rest => return ((item :: done).reverse, rest)
          | _ => none

/-- The entries of a table in braces, up to its brace. -/
def readPairs? : Nat → Entries → List Char → Option (Entries × List Char)
  | 0, _, _ => none
  | fuel + 1, entries, text => do
      let (key, rest) ← readKey? (text.length + 1) text
      let (value, rest) ← readValue? fuel (skipGap (← Text.after? ['='] rest))
      let entries ← assign value key entries
      match skipGap rest with
      | ',' :: rest => readPairs? fuel entries rest
      | '\x7d' :: rest => return (entries, rest)
      | _ => none

end

/-! ## Documents -/

/-- The entry of a line, in the table at `path`. -/
def readPair? (root : Entries) (path : List String) (text : List Char) :
    Option (Entries × List Char) := do
  let (key, rest) ← readKey? (text.length + 1) text
  let rest := skipGap (← Text.after? ['='] rest)
  let (value, rest) ← readValue? (2 * rest.length + 2) rest
  return (← within (assign value key) path root, rest)

/-- The header of a table, after its bracket: the path it names and whether the table is one
of a list. -/
def readHeader? (text : List Char) : Option (List String × Bool × List Char) :=
  match text with
  | '[' :: rest => do
      let (path, rest) ← readKey? (rest.length + 1) rest
      return (path, true, ← Text.after? [']', ']'] rest)
  | _ => do
      let (path, rest) ← readKey? (text.length + 1) text
      return (path, false, ← Text.after? [']'] rest)

/-- The lines of a document; the table of the last header is at `path`.  `fuel` bounds their
number. -/
def readLinesFrom? : Nat → Entries → List String → List Char → Option Entries
  | 0, _, _, _ => none
  | fuel + 1, root, path, text => do
      match ← skipLines? (text.length + 1) text with
      | [] => return root
      | '[' :: rest =>
          let (path, isListed, rest) ← readHeader? rest
          let root ← if isListed then startListed path root else startTable path root
          readLinesFrom? fuel root path (← endLine? rest)
      | text =>
          let (root, rest) ← readPair? root path text
          readLinesFrom? fuel root path (← endLine? rest)

/-- The entries of a document. -/
def read? (text : List Char) : Option (List (String × Value)) :=
  let text := (Text.after? ['\uFEFF'] text).getD text
  (readLinesFrom? (text.length + 1) [] [] text).map entryValues

end FontHosting.Toml
