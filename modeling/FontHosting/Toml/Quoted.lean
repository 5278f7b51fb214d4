import FontHosting.Text.Hex

/-!
# Quoted texts of TOML

A text stands between double quotes, where a backslash starts an escape, or between
single quotes, where every character stands for itself.  Three quotes instead of one
allow line breaks.
-/

namespace FontHosting.Toml

/-- Whether a character may not stand in a text of one line. -/
def isControl (c : Char) : Bool :=
  (c.toNat < 0x20 && c != '\t') || c.toNat = 0x7F

/-- The character with the number that `count` hexadecimal digits give, and the rest. -/
def readNumbered? (count : Nat) (written : List Char) : Option (Char × List Char) := do
  let digits := written.take count
  let values ← digits.mapM Text.Hex.value?
  let code := values.foldl (fun code value => 16 * code + value) 0
  if digits.length = count ∧ code.isValidChar then some (Char.ofNat code, written.drop count)
  else none

/-- The character of an escape, after its backslash. -/
def readEscape? : List Char → Option (Char × List Char)
  | 'b' :: rest => some ('\x08', rest)
  | 't' :: rest => some ('\t', rest)
  | 'n' :: rest => some ('\n', rest)
  | 'f' :: rest => some ('\x0c', rest)
  | 'r' :: rest => some ('\r', rest)
  | '"' :: rest => some ('"', rest)
  | '\\' :: rest => some ('\\', rest)
  | 'u' :: rest => readNumbered? 4 rest
  | 'U' :: rest => readNumbered? 8 rest
  | _ => none

/-- What follows the first line break of a text, if it starts with one. -/
def skipBreak : List Char → List Char
  | '\r' :: '\n' :: rest => rest
  | '\n' :: rest => rest
  | rest => rest

/-- What follows a backslash at the end of a line: the next character that is no blank. -/
def skipFold? (written : List Char) : Option (List Char) :=
  match written.dropWhile fun c => c = ' ' || c = '\t' with
  | '\n' :: rest | '\r' :: '\n' :: rest =>
      some (rest.dropWhile fun c => c = ' ' || c = '\t' || c = '\n' || c = '\r')
  | _ => none

/-- The rest of a text of one line up to its quote, those before it in reverse.  `fuel` bounds
the number of characters. -/
def readLine? (quote : Char) : Nat → List Char → List Char → Option (List Char × List Char)
  | 0, _, _ => none
  | fuel + 1, done, written =>
      match written with
      | [] => none
      | c :: rest =>
          if c = quote then some (done.reverse, rest)
          else if isControl c then none
          else if c = '\\' && quote = '"' then do
            let (c, rest) ← readEscape? rest
            readLine? quote fuel (c :: done) rest
          else readLine? quote fuel (c :: done) rest

/-- The rest of a text of several lines up to its three quotes. -/
def readLines? (quote : Char) : Nat → List Char → List Char → Option (List Char × List Char)
  | 0, _, _ => none
  | fuel + 1, done, written =>
      match written with
      | [] => none
      | '\r' :: '\n' :: rest => readLines? quote fuel ('\n' :: done) rest
      | c :: rest =>
          if c = quote then
            let quotes := (c :: rest).takeWhile (· = quote)
            if quotes.length < 3 then readLines? quote fuel (c :: done) rest
            else if quotes.length > 5 then none
            else some (done.reverse ++ quotes.drop 3, (c :: rest).drop quotes.length)
          else if c != '\n' && isControl c then none
          else if c = '\\' && quote = '"' then
            match skipFold? rest with
            | some rest => readLines? quote fuel done rest
            | none => do
                let (c, rest) ← readEscape? rest
                readLines? quote fuel (c :: done) rest
          else readLines? quote fuel (c :: done) rest

/-- A text of one line, after its quote. -/
def readShort? (quote : Char) (written : List Char) : Option (String × List Char) :=
  (readLine? quote (written.length + 1) [] written).map fun (characters, rest) =>
    (String.ofList characters, rest)

/-- A text, after its first quote. -/
def readText? (quote : Char) (written : List Char) : Option (String × List Char) :=
  match written with
  | a :: b :: rest =>
      if a = quote ∧ b = quote then
        (readLines? quote (rest.length + 1) [] (skipBreak rest)).map fun (characters, rest) =>
          (String.ofList characters, rest)
      else readShort? quote written
  | _ => readShort? quote written

end FontHosting.Toml
