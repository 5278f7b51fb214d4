import FontHosting.Script.Characters
import FontHosting.Script.Token
import FontHosting.Decimal.Reading
import FontHosting.Text.Hex
import FontHosting.Text.Utf8
import FontHosting.Text.Search

/-!
# Reading tokens

`Source.next` reads the token after the blanks and comments that a source starts
with.  Three kinds of tokens depend on where they stand and have readers of
their own, which start at the first character of the token: patterns between
slashes, the pieces of a template, and the text between markup elements.

A closing angle bracket is always read alone; the grammar puts operators such as
`>>=` together, because in a type the brackets close one list each.
-/

namespace FontHosting.Script

/-- A place in a text: what is left, and how many bytes stand before it. -/
structure Source where
  rest : List Char
  offset : Nat
  deriving Repr

/-- The number of bytes of a character. -/
def width (c : Char) : Nat :=
  (Text.Utf8.encodeChar c).length

/-- Move over the first `count` characters. -/
def Source.skip : Nat → Source → Source
  | 0, source => source
  | count + 1, ⟨[], offset⟩ => Source.skip count ⟨[], offset⟩
  | count + 1, ⟨c :: rest, offset⟩ => Source.skip count ⟨rest, offset + width c⟩

/-- Move to what is left of the same text. -/
def Source.moveTo (source : Source) (rest : List Char) : Source :=
  source.skip (source.rest.length - rest.length)

/-- Whether another place is reached by moving over characters. -/
def Source.Leads (source later : Source) : Prop :=
  ∃ count, later = source.skip count

theorem Source.skip_add (first second : Nat) (source : Source) :
    source.skip (first + second) = (source.skip first).skip second := by
  induction first generalizing source with
  | zero => rw [Nat.zero_add]; rfl
  | succ first ih =>
      rw [Nat.succ_add]
      obtain ⟨_ | ⟨c, rest⟩, offset⟩ := source
      · exact ih ⟨[], offset⟩
      · exact ih ⟨rest, offset + width c⟩

theorem Source.Leads.refl (source : Source) : source.Leads source := ⟨0, rfl⟩

theorem Source.Leads.trans {first second third : Source} (hfirst : first.Leads second)
    (hsecond : second.Leads third) : first.Leads third := by
  obtain ⟨m, rfl⟩ := hfirst
  obtain ⟨n, rfl⟩ := hsecond
  exact ⟨m + n, (Source.skip_add m n first).symm⟩

theorem Source.leads_moveTo (source : Source) (rest : List Char) :
    source.Leads (source.moveTo rest) := ⟨_, rfl⟩

/-! ## Blanks and comments -/

/-- What the reader of blanks is inside. -/
inductive Trivia where
  | blank
  | line
  /-- Between the two characters that open a comment. -/
  | opening
  | block
  /-- Between the two characters that close a comment. -/
  | closing
  deriving DecidableEq

/-- Skip blanks and comments.  Answers what is left and whether a line ended; nothing
if a comment is not closed. -/
def skipTrivia : Trivia → Bool → List Char → Option (List Char × Bool)
  | .blank, ended, [] | .line, ended, [] => some ([], ended)
  | _, _, [] => none
  | .line, ended, c :: rest =>
      if isLineEnd c then skipTrivia .blank true rest else skipTrivia .line ended rest
  | .opening, ended, _ :: rest => skipTrivia .block ended rest
  | .block, ended, c :: rest =>
      if c = '*' ∧ rest.head? = some '/' then skipTrivia .closing ended rest
      else skipTrivia .block (ended || isLineEnd c) rest
  | .closing, ended, _ :: rest => skipTrivia .blank ended rest
  | .blank, ended, c :: rest =>
      if isLineEnd c then skipTrivia .blank true rest
      else if isSpacing c then skipTrivia .blank ended rest
      else if c = '/' ∧ rest.head? = some '/' then skipTrivia .line ended rest
      else if c = '/' ∧ rest.head? = some '*' then skipTrivia .opening ended rest
      else some (c :: rest, ended)

/-! ## Escapes -/

/-- What a string holds: characters, and halves of pairs that stand alone. -/
inductive StringUnit where
  | character (c : Char)
  | lone (half : Nat)
  deriving DecidableEq, Repr

/-- The unit of a code point. -/
def StringUnit.ofCode (code : Nat) : StringUnit :=
  if 0xD800 ≤ code ∧ code < 0xE000 then .lone code else .character (Char.ofNat code)

/-- Exactly `count` hexadecimal digits. -/
def hexDigits? : Nat → Nat → List Char → Option (Nat × List Char)
  | 0, value, text => some (value, text)
  | _ + 1, _, [] => none
  | count + 1, value, c :: rest => do
      let digit ← Text.Hex.value? c
      hexDigits? count (16 * value + digit) rest

/-- The code point of `\u` after these two characters: four digits, or digits in braces. -/
def codePoint? : List Char → Option (Nat × List Char)
  | '\x7b' :: rest =>
      let digits := rest.takeWhile fun c => (Text.Hex.value? c).isSome
      match rest.drop digits.length with
      | '\x7d' :: after =>
          let value := digits.foldl (fun value c => 16 * value + (Text.Hex.value? c).getD 0) 0
          if digits.isEmpty ∨ value > 0x10FFFF then none else some (value, after)
      | _ => none
  | text => hexDigits? 4 0 text

/-- The unit of `\u` after these two characters; two halves in a row make one character. -/
def unicodeEscape? (text : List Char) : Option (StringUnit × List Char) := do
  let (code, rest) ← codePoint? text
  let isHalf := 0xD800 ≤ code && code < 0xDC00 && text.head? != some '\x7b'
  match isHalf, rest with
  | true, '\\' :: 'u' :: after =>
      match hexDigits? 4 0 after with
      | some (low, after) =>
          if 0xDC00 ≤ low ∧ low < 0xE000 then
            let whole := 0x10000 + (code - 0xD800) * 1024 + (low - 0xDC00)
            return (.character (Char.ofNat whole), after)
          else return (.lone code, rest)
      | none => return (.lone code, rest)
  | _, _ => return (StringUnit.ofCode code, rest)

/-- Whether a character is an octal digit. -/
def isOctal (c : Char) : Bool := '0' ≤ c && c ≤ '7'

/-- The digits of an old octal escape: up to three, and below 256. -/
def octalEscape (text : List Char) : Nat × List Char :=
  let digits := (text.take 3).takeWhile isOctal
  let count := if digits.length = 3 ∧ (digits.headD '0') > '3' then 2 else digits.length
  (Nat.ofDigitChars 8 (digits.take count) 0, text.drop count)

/-- The units of an escape after its backslash, and what is left.  In a template digits
mean nothing except a zero that stands alone. -/
def escape? (inTemplate : Bool) : List Char → Option (List StringUnit × List Char)
  | [] => none
  | c :: rest =>
      let one (value : Char) := some ([.character value], rest)
      if c = 'n' then one '\n'
      else if c = 'r' then one '\r'
      else if c = 't' then one '\t'
      else if c = 'b' then one (Char.ofNat 8)
      else if c = 'f' then one (Char.ofNat 12)
      else if c = 'v' then one (Char.ofNat 11)
      else if c = 'x' then (hexDigits? 2 0 rest).map fun (code, rest) => ([.ofCode code], rest)
      else if c = 'u' then (unicodeEscape? rest).map fun (value, rest) => ([value], rest)
      else if c = '\r' then
        match rest with
        | '\n' :: rest => some ([], rest)
        | rest => some ([], rest)
      else if isLineEnd c then some ([], rest)
      else if c = '0' ∧ !(rest.headD ' ').isDigit then one (Char.ofNat 0)
      else if c.isDigit ∧ inTemplate then none
      else if isOctal c then
        let (code, rest) := octalEscape (c :: rest)
        some ([.ofCode code], rest)
      else one c

/-- The text of units.  A half of a pair becomes U+FFFD and its four digits, and beside
such a half a U+FFFD of the text itself becomes U+FFFD and `fffd`. -/
def unitsText (units : List StringUnit) : String :=
  let marked := units.any fun
    | .lone _ => true
    | .character _ => false
  String.ofList <| units.flatMap fun
    | .lone half => Text.Utf8.replacement :: Text.Hex.ofNat half
    | .character c =>
        if marked && c == Text.Utf8.replacement then c :: "fffd".toList else [c]

/-! ## Strings, templates and patterns -/

/-- The units of a string up to its closing quote, those before them in reverse. -/
def readUnits (quote : Char) : Nat → List StringUnit → List Char →
    Option (List StringUnit × List Char)
  | 0, _, _ => none
  | fuel + 1, done, text =>
      match text with
      | [] => none
      | '\\' :: rest => do
          let (units, rest) ← escape? false rest
          readUnits quote fuel (units.reverse ++ done) rest
      | c :: rest =>
          if c = quote then some (done.reverse, rest)
          else if c = '\n' ∨ c = '\r' then none
          else readUnits quote fuel (.character c :: done) rest

/-- The units of a template piece.  `cooked` is lost at the first escape that means
nothing; the piece still ends where it ends. -/
def readTemplate : Nat → Option (List StringUnit) → List Char →
    Option (Option (List StringUnit) × Bool × List Char)
  | 0, _, _ => none
  | fuel + 1, cooked, text =>
      match text with
      | [] => none
      | '\x60' :: rest => some (cooked.map List.reverse, true, rest)
      | '$' :: '\x7b' :: rest => some (cooked.map List.reverse, false, rest)
      | '\\' :: rest =>
          match escape? true rest with
          | some (units, rest) => readTemplate fuel (cooked.map (units.reverse ++ ·)) rest
          | none => readTemplate fuel none (rest.drop 1)
      | '\r' :: '\n' :: rest => readTemplate fuel (cooked.map (.character '\n' :: ·)) rest
      | '\r' :: rest => readTemplate fuel (cooked.map (.character '\n' :: ·)) rest
      | c :: rest => readTemplate fuel (cooked.map (.character c :: ·)) rest

/-- The body of a pattern up to its closing slash, those before it in reverse. -/
def readPattern (inClass : Bool) (done : List Char) : List Char → Option (List Char × List Char)
  | [] => none
  | c :: rest =>
      if isLineEnd c then none
      else if c = '\\' then
        match rest with
        | [] => none
        | next :: rest =>
            if isLineEnd next then none else readPattern inClass (next :: c :: done) rest
      else if c = '/' ∧ !inClass then some (done.reverse, rest)
      else if c = '[' then readPattern true (c :: done) rest
      else if c = ']' then readPattern false (c :: done) rest
      else readPattern inClass (c :: done) rest

/-- Flags of a pattern are known letters, each once. -/
def areFlags (flags : List Char) : Bool :=
  flags.all (fun c => "dgimsuvy".toList.contains c) && flags.eraseDups.length == flags.length

/-! ## Numbers -/

/-- The two kinds of numbers. -/
inductive Number where
  | plain (value : Float)
  | big (digits : String)

/-- A number as a token. -/
def Number.kind : Number → TokenKind
  | .plain value => .number value
  | .big digits => .bigNumber digits

/-- Digits with single underscores between them: the digits, and the rest.  Nothing if
an underscore stands elsewhere. -/
def readDigits? (isDigit : Char → Bool) (text : List Char) : Option (List Char × List Char) :=
  let run := text.takeWhile fun c => isDigit c || c == '_'
  let rest := text.drop run.length
  let pieces := Text.splitOn '_' run
  if run.isEmpty then some ([], rest)
  else if pieces.any List.isEmpty then none
  else some (pieces.flatten, rest)

/-- A number in another base after its two marks. -/
def readBased? (base : Nat) (isDigit : Char → Bool) (text : List Char) :
    Option (Number × List Char) := do
  let (digits, rest) ← readDigits? isDigit text
  if digits.isEmpty then none
  else
    let value := digits.foldl (fun value c => base * value + (Text.Hex.value? c).getD 0) 0
    match rest with
    | 'n' :: rest => return (.big (toString value), rest)
    | rest => return (.plain (Decimal.nearestFloat value 0), rest)

/-- The exponent of a number, if there is one. -/
def readNumberExponent? (text : List Char) : Option (Int × List Char) :=
  match text with
  | 'e' :: rest | 'E' :: rest => do
      let (negative, rest) := Decimal.splitSign rest
      let (digits, rest) ← readDigits? Char.isDigit rest
      if digits.isEmpty then none
      else
        let value : Int := Decimal.digitsValue digits
        return (if negative then -value else value, rest)
  | _ => some (0, text)

/-- A number in base ten. -/
def readDecimal? (text : List Char) : Option (Number × List Char) := do
  let (whole, rest) ← readDigits? Char.isDigit text
  match whole, rest with
  | _ :: _, 'n' :: rest => return (.big (String.ofList whole), rest)
  | _, _ =>
      let (fraction, rest) ← match rest with
        | '.' :: rest =>
            if rest.head? = some '_' then none else readDigits? Char.isDigit rest
        | _ => some ([], rest)
      let (exponent, rest) ← readNumberExponent? rest
      let value := Decimal.nearestFloat (Decimal.digitsValue (whole ++ fraction))
        (exponent - fraction.length)
      return (.plain value, rest)

/-- A number that starts with a zero and another digit: octal, or, if a digit is 8 or 9,
in base ten. -/
def readOldOctal? (text : List Char) : Option (Number × List Char) :=
  let (digits, rest) := Decimal.spanDigits text
  if rest.head? = some '_' ∨ rest.head? = some 'n' then none
  else if digits.all isOctal then
    some (.plain (Decimal.nearestFloat (Nat.ofDigitChars 8 digits 0) 0), rest)
  else readDecimal? text

/-- A number.  No name and no digit may follow it directly. -/
def readNumber? (text : List Char) : Option (Number × List Char) := do
  let (number, rest) ← match text with
    | '0' :: mark :: after =>
        if mark = 'x' ∨ mark = 'X' then readBased? 16 (fun c => (Text.Hex.value? c).isSome) after
        else if mark = 'o' ∨ mark = 'O' then readBased? 8 isOctal after
        else if mark = 'b' ∨ mark = 'B' then readBased? 2 (fun c => c == '0' || c == '1') after
        else if mark.isDigit then readOldOctal? text
        else if mark = '_' then none
        else readDecimal? text
    | _ => readDecimal? text
  match rest with
  | [] => return (number, rest)
  | c :: _ => if isNameStart c ∨ c.isDigit ∨ c = '\\' then none else return (number, rest)

/-! ## Names and punctuators -/

/-- The characters of a name, those before them in reverse, and whether one was escaped. -/
def readName : Nat → List Char → Bool → List Char → Option (List Char × Bool × List Char)
  | 0, _, _, _ => none
  | fuel + 1, done, escaped, text =>
      match text with
      | '\\' :: 'u' :: rest => do
          let (code, rest) ← codePoint? rest
          let c := Char.ofNat code
          let fits := if done.isEmpty then isNameStart c else isNameContinue c
          if fits then readName fuel (c :: done) true rest else none
      | '\\' :: _ => none
      | c :: rest =>
          let fits := if done.isEmpty then isNameStart c else isNameContinue c
          if fits then readName fuel (c :: done) escaped rest
          else some (done.reverse, escaped, text)
      | [] => some (done.reverse, escaped, text)

/-- Whether characters make up a name. -/
def isName : List Char → Bool
  | [] => false
  | c :: rest => isNameStart c && rest.all isNameContinue

theorem isName_append {name : List Char} {c : Char} (hname : isName name)
    (hc : isNameContinue c) : isName (name ++ [c]) := by
  cases name with
  | nil => cases hname
  | cons first rest => simp_all [isName]

/-- What has been read of a name stays the beginning of a name. -/
theorem isName_readName {fuel : Nat} {done text name rest : List Char} {escaped marked : Bool}
    (hdone : isName done.reverse)
    (hread : readName fuel done escaped text = some (name, marked, rest)) : isName name := by
  have hempty : done.isEmpty = false := by
    cases done with
    | nil => cases hdone
    | cons _ _ => rfl
  induction fuel generalizing done escaped text with
  | zero => cases hread
  | succ fuel ih =>
      have hnext (c : Char) (hc : isNameContinue c) : isName (c :: done).reverse := by
        rw [List.reverse_cons]
        exact isName_append hdone hc
      unfold readName at hread
      split at hread
      · obtain ⟨⟨code, after⟩, -, hread⟩ := Option.bind_eq_some_iff.mp hread
        simp only [hempty, Bool.false_eq_true, if_false] at hread
        split at hread
        · exact ih (hnext _ ‹_›) hread rfl
        · cases hread
      · cases hread
      · simp only [hempty, Bool.false_eq_true, if_false] at hread
        split at hread
        · exact ih (hnext _ ‹_›) hread rfl
        · cases hread
          exact hdone
      · cases hread
        exact hdone

/-- A name that starts with a start of a name or with an escape is one. -/
theorem isName_of_readName {fuel : Nat} {c : Char} {text name rest : List Char} {marked : Bool}
    (hc : isNameStart c ∨ c = '\\')
    (hread : readName fuel [] false (c :: text) = some (name, marked, rest)) : isName name := by
  cases fuel with
  | zero => cases hread
  | succ fuel =>
      have hfirst (d : Char) (hd : isNameStart d) : isName [d].reverse := by
        simp [isName, hd]
      unfold readName at hread
      split at hread
      · obtain ⟨⟨code, after⟩, -, hread⟩ := Option.bind_eq_some_iff.mp hread
        simp only [List.isEmpty_nil, if_true] at hread
        split at hread
        · exact isName_readName (hfirst _ ‹_›) hread
        · cases hread
      · cases hread
      · rename_i d after hesc hne heq
        cases heq
        simp only [List.isEmpty_nil, if_true] at hread
        split at hread
        · exact isName_readName (hfirst _ ‹_›) hread
        · rename_i hno
          rcases hc with hc | rfl
          · exact absurd hc hno
          · exact (hne rfl).elim
      · rename_i heq
        cases heq

/-- The punctuators, longer ones before their beginnings. -/
def punctuators : List String := [
  "...", "===", "!==", "**=", "<<=", "&&=", "||=", "??=",
  "=>", "==", "!=", "<=", "++", "--", "<<", "&&", "||", "??", "?.", "+=", "-=", "*=", "/=", "%=",
  "&=", "|=", "^=", "**",
  "\x7b", "\x7d", "(", ")", "[", "]", ";", ",", "<", ">", "+", "-", "*", "/", "%", "&", "|", "^",
  "!", "~", "?", ":", "=", ".", "@"]

/-- The longest punctuator that a text starts with.  `?.` before a digit is a `?`. -/
def readPunctuator? (text : List Char) : Option (String × List Char) :=
  match text with
  | '?' :: '.' :: c :: _ =>
      if c.isDigit then some ("?", text.drop 1) else some ("?.", text.drop 2)
  | _ =>
      punctuators.findSome? fun punctuator =>
        (Text.after? punctuator.toList text).map fun rest => (punctuator, rest)

/-- The kind of the token that a text starts with, whether it was escaped, and the rest. -/
def readKind (text : List Char) : TokenKind × Bool × List Char :=
  let fuel := text.length + 1
  match text with
  | [] => (.finish, false, [])
  | c :: rest =>
      let found? : Option (TokenKind × Bool × List Char) :=
        if c = '"' ∨ c = '\'' then
          (readUnits c fuel [] rest).map fun (units, rest) => (.text (unitsText units), false, rest)
        else if c = '\x60' then
          (readTemplate fuel (some []) rest).map fun (units, last, rest) =>
            (.templatePiece (units.map unitsText) last, false, rest)
        else if c.isDigit ∨ (c = '.' ∧ (rest.headD ' ').isDigit) then
          (readNumber? text).map fun (number, rest) => (number.kind, false, rest)
        else if isNameStart c ∨ c = '\\' then
          (readName fuel [] false text).map fun (name, escaped, rest) =>
            (.word (String.ofList name), escaped, rest)
        else if c = '#' then do
          let (name, escaped, rest) ← readName fuel [] false rest
          if name.isEmpty then none else return (.privateWord (String.ofList name), escaped, rest)
        else
          (readPunctuator? text).map fun (punctuator, rest) => (.punctuator punctuator, false, rest)
      found?.getD (.invalid, false, [])

/-- A character starts a token, and only names are words. -/
theorem readKind_cons (c : Char) (text : List Char) :
    (readKind (c :: text)).1 ≠ .finish ∧
      ∀ word, (readKind (c :: text)).1 = .word word → isName word.toList := by
  dsimp only [readKind]
  split
  · cases readUnits c ((c :: text).length + 1) [] text <;> exact ⟨nofun, nofun⟩
  · split
    · cases readTemplate ((c :: text).length + 1) (some []) text <;> exact ⟨nofun, nofun⟩
    · split
      · rcases readNumber? (c :: text) with _ | ⟨_ | _, _⟩ <;> exact ⟨nofun, nofun⟩
      · split
        · cases hname : readName ((c :: text).length + 1) [] false (c :: text) with
          | none => exact ⟨nofun, nofun⟩
          | some name =>
              refine ⟨nofun, ?_⟩
              rintro _ ⟨⟩
              rw [String.toList_ofList]
              exact isName_of_readName ‹_› hname
        · split
          · cases readName ((c :: text).length + 1) [] false text with
            | none => exact ⟨nofun, nofun⟩
            | some name =>
                dsimp only [bind, Option.bind]
                split <;> exact ⟨nofun, nofun⟩
          · cases readPunctuator? (c :: text) <;> exact ⟨nofun, nofun⟩

theorem eq_nil_of_finish {text : List Char} (h : (readKind text).1 = .finish) : text = [] := by
  cases text with
  | nil => rfl
  | cons c text => exact absurd h (readKind_cons c text).1

theorem isName_of_word {text : List Char} {word : String} (h : (readKind text).1 = .word word) :
    isName word.toList := by
  cases text with
  | nil => cases h
  | cons c text => exact (readKind_cons c text).2 word h

/-- A token read at a place, and the place behind it. -/
structure Reading (here : Source) where
  token : Token
  after : Source
  start_eq : token.start = here.offset
  stop_eq : token.stop = after.offset
  leads : here.Leads after
  spelled : ∀ word, token.word? = some word → ∃ rest,
    readKind here.rest = (.word word, token.escaped, rest) ∧ after = here.moveTo rest

/-- A word is a name. -/
theorem Reading.named {here : Source} (reading : Reading here) {word : String}
    (hword : reading.token.word? = some word) : isName word.toList := by
  obtain ⟨rest, hread, -⟩ := reading.spelled word hword
  exact isName_of_word (congrArg Prod.fst hread)

/-- The token of a kind that reaches up to what is left.  It is read in a way of its own, so
it is no name. -/
def Source.special (source : Source) (kind : TokenKind) (rest : List Char)
    (hkind : ∀ word, kind ≠ .word word) : Reading source :=
  let after := source.moveTo rest
  { token := ⟨kind, source.offset, after.offset, false, false⟩
    after
    start_eq := rfl
    stop_eq := rfl
    leads := source.leads_moveTo rest
    spelled := fun word hword => by
      cases kind <;> simp_all [Token.word?] }

/-- The token that starts at a place. -/
def Source.tokenHere (source : Source) (afterLineEnd : Bool) : Reading source :=
  let found := readKind source.rest
  let after := source.moveTo found.2.2
  { token := ⟨found.1, source.offset, after.offset, afterLineEnd, found.2.1⟩
    after
    start_eq := rfl
    stop_eq := rfl
    leads := source.leads_moveTo found.2.2
    spelled := fun word hword => by
      have hkind : found.1 = .word word := by
        cases hfound : found.1 <;> simp_all [Token.word?]
      exact ⟨found.2.2, Prod.ext hkind rfl, rfl⟩ }

/-- A place with the token that starts there, at or behind another place. -/
structure Found (source : Source) where
  here : Source
  reading : Reading here
  leads : source.Leads here

/-- The next token.  A comment that is not closed is no token, up to the end of the text. -/
def Source.next (source : Source) : Found source :=
  match skipTrivia .blank false source.rest with
  | none => ⟨source, source.special .invalid [] nofun, .refl source⟩
  | some (rest, ended) =>
      let here := source.moveTo rest
      ⟨here, here.tokenHere ended, source.leads_moveTo rest⟩

/-- The pattern that starts at a place with its opening slash. -/
def Source.pattern? (source : Source) : Option (Reading source) := do
  let (body, rest) ← readPattern false [] (source.rest.drop 1)
  let flags := rest.takeWhile isNameContinue
  if !areFlags flags then none
  else
    return source.special (.pattern (String.ofList body) (String.ofList flags))
      (rest.drop flags.length) nofun

/-- The piece of a template that starts at a place with the brace before it. -/
def Source.templatePiece? (source : Source) : Option (Reading source) := do
  let (units, last, rest) ← readTemplate (source.rest.length + 1) (some []) (source.rest.drop 1)
  return source.special (.templatePiece (units.map unitsText) last) rest nofun

/-- The text between markup elements, which ends before a brace or an opening bracket.
The closing ones may not stand in it. -/
def Source.markupText (source : Source) : Reading source :=
  let text := source.rest.takeWhile fun c => c != '\x7b' && c != '<'
  let rest := source.rest.drop text.length
  if text.any (fun c => c == '\x7d' || c == '>') then source.special .invalid rest nofun
  else source.special (.markupText (String.ofList text)) rest nofun

/-- A quoted value of a markup attribute, in which nothing is escaped and lines may end. -/
def Source.markupString? (source : Source) : Option (Reading source) :=
  match source.rest with
  | [] => none
  | quote :: rest =>
      if quote ≠ '"' ∧ quote ≠ '\'' then none
      else
        let text := rest.takeWhile (· != quote)
        match rest.drop text.length with
        | [] => none
        | _ :: rest => some (source.special (.text (String.ofList text)) rest nofun)

/-- The markup name that starts with a word: the word as it is written, with its escapes, and
what follows it over `-`. -/
def Reading.markupName {here : Source} (reading : Reading here) : List Char :=
  here.rest.take (here.rest.length - reading.after.rest.length) ++
    reading.after.rest.takeWhile fun c => isNameContinue c || c == '-'

end FontHosting.Script
