import FontHosting.Css.Write
import FontHosting.Text.Search
import FontHosting.Text.Utf8

/-!
# Values of font properties

The properties of fonts have values that can be written more briefly than they were:
a name without quotes, a weight as a number, a range of characters without zeros.  A value
that does not have the form of its property is left as it is.
-/

namespace FontHosting.Css

/-- A name in lower case. -/
def lowerName (name : List Char) : List Char := name.map Char.toLower

/-- The words that stand for a kind of family, and those that are reserved. -/
def genericFamilies : List String := [
  "serif", "sans-serif", "cursive", "fantasy", "monospace", "system-ui", "emoji", "math",
  "fangsong", "ui-serif", "ui-sans-serif", "ui-monospace", "ui-rounded", "initial", "inherit",
  "unset", "default", "revert", "revert-layer"]

/-- Whether a name is one of these words. -/
def isGeneric (name : List Char) : Bool :=
  genericFamilies.contains (String.ofList (lowerName name))

/-- A family that is named, without quotes if that is shorter. -/
def writeFamily (name : List Char) : List Char :=
  let words := Text.join [' '] ((Text.splitOn ' ' name).map writeName)
  let size (text : List Char) := Text.Utf8.size text
  if !name.isEmpty && !isGeneric name && size words < size name + 2 then words
  else writeString name

/-- The names of words with blanks between them. -/
def wordsOf? : List Item → Option (List (List Char))
  | [] => some []
  | .token ⟨.word name, _⟩ :: rest => (wordsOf? rest).map (name :: ·)
  | _ => none

/-- One family: a word that stands for a kind, a string, or several words. -/
def familyOf? (items : List Item) : Option (List Char) :=
  match solidItems items with
  | [.token ⟨.text name, _⟩] => some (writeFamily name)
  | [.token ⟨.word name, _⟩] => some (if isGeneric name then lowerName name else writeFamily name)
  | solid => do
      let names ← wordsOf? solid
      let first ← names.head?
      if isGeneric first then none else return writeFamily (Text.join [' '] names)

/-- Several families, each once. -/
def familiesOf? (items : List Item) : Option (List Char) := do
  let families ← (splitItems ',' items).mapM familyOf?
  return Text.join [','] families.eraseDups

/-- A weight. -/
def weightOf? : Item → Option (List Char)
  | .token ⟨.number numeral, _⟩ => some (writeNumber numeral.value.toFloat32)
  | .token ⟨.word name, _⟩ =>
      match String.ofList (lowerName name) with
      | "normal" => some "400".toList
      | "bold" => some "700".toList
      | "bolder" => some "bolder".toList
      | "lighter" => some "lighter".toList
      | _ => none
  | _ => none

/-- How wide a font is, in percent. -/
def stretchOf? : Item → Option (List Char)
  | .token ⟨.percentage numeral, _⟩ =>
      some (writeNumber ((numeral.value / 100.0).toFloat32 * 100.0) ++ ['%'])
  | .token ⟨.word name, _⟩ =>
      match String.ofList (lowerName name) with
      | "ultra-condensed" => some "50%".toList
      | "extra-condensed" => some "62.5%".toList
      | "condensed" => some "75%".toList
      | "semi-condensed" => some "87.5%".toList
      | "normal" => some "100%".toList
      | "semi-expanded" => some "112.5%".toList
      | "expanded" => some "125%".toList
      | "extra-expanded" => some "150%".toList
      | "ultra-expanded" => some "200%".toList
      | _ => none
  | _ => none

/-- One value, or two of which the second is left out if it is the same. -/
def pairOf? (single : Item → Option (List Char)) (items : List Item) : Option (List Char) := do
  match solidItems items with
  | [first] => single first
  | [first, second] =>
      let first ← single first
      let second ← single second
      return if first = second then first else first ++ ' ' :: second
  | _ => none

/-- An angle. -/
def angleOf? : Item → Option (List Char)
  | .token ⟨.dimension numeral unit, _⟩ =>
      if ["deg", "grad", "rad", "turn"].contains (String.ofList (lowerName unit)) then
        some (writeNumber numeral.value.toFloat32 ++ lowerName unit)
      else none
  | _ => none

/-- How a font is slanted. -/
def styleOf? (items : List Item) : Option (List Char) :=
  match solidItems items with
  | .token ⟨.word name, _⟩ :: angles =>
      match String.ofList (lowerName name), angles with
      | "normal", [] => some "normal".toList
      | "italic", [] => some "italic".toList
      | "oblique", [] => some "oblique".toList
      | "oblique", angles => (pairOf? angleOf? angles).map fun angles =>
          if angles = "14deg".toList then "oblique".toList else "oblique ".toList ++ angles
      | _, _ => none
  | _ => none

/-! ## Sources -/

/-- The format of a font file, in quotes. -/
def formatOf? (items : List Item) : Option (List Char) :=
  match solidItems items with
  | [.token ⟨.text format, _⟩] => some (writeString format)
  | [.token ⟨.word format, _⟩] => some (writeString (lowerName format))
  | _ => none

/-- What may be told about a font file behind its address. -/
def hintsOf? : List Item → Option (List Char)
  | [] => some []
  | .call name items :: rest => do
      let hints ← hintsOf? rest
      match String.ofList (lowerName name) with
      | "format" => return "format(".toList ++ (← formatOf? items) ++ ')' :: hints
      | "tech" => return "tech(".toList ++ writeValue items ++ ')' :: hints
      | _ => none
  | _ => none

/-- One source of a font: an address, or a font of the system. -/
def sourceOf? (items : List Item) : Option (List Char) :=
  match solidItems items with
  | .token ⟨.url address, _⟩ :: hints => (hintsOf? hints).map (writeUrl address ++ ·)
  | .call name inner :: hints =>
      match String.ofList (lowerName name), solidItems inner, hints with
      | "url", [.token ⟨.text address, _⟩], hints => (hintsOf? hints).map (writeUrl address ++ ·)
      | "local", _, [] => (familyOf? inner).map fun family => "local(".toList ++ family ++ [')']
      | _, _, _ => none
  | _ => none

/-- The sources of a font. -/
def sourcesOf? (items : List Item) : Option (List Char) := do
  return Text.join [','] (← (splitItems ',' items).mapM sourceOf?)

/-! ## Ranges of characters -/

mutual

/-- An item as it was spelled. -/
def Item.spelling : Item → List Char
  | .token token => token.spelling
  | .block opening items => opening :: spellingOf items ++ [closingOf opening]
  | .call name items => name ++ '(' :: spellingOf items ++ [')']

/-- Items as they were spelled. -/
def spellingOf : List Item → List Char
  | [] => []
  | item :: rest => item.spelling ++ spellingOf rest

end

/-- A number of at most six digits in base sixteen. -/
def hexNumber? (digits : List Char) : Option Nat :=
  if digits.isEmpty ∨ digits.length > 6 then none
  else digits.foldlM (fun value c => (Text.Hex.value? c).map fun digit => 16 * value + digit) 0

/-- The first and the last character of a range such as `U+0025-00FF` or `U+4??`. -/
def rangeBounds? (spelling : List Char) : Option (Nat × Nat) := do
  let rest ← match spelling with
    | 'u' :: '+' :: rest | 'U' :: '+' :: rest => some rest
    | _ => none
  match Text.splitOnce? ['-'] rest with
  | some (first, last) =>
      let first ← hexNumber? first
      let last ← hexNumber? last
      if first ≤ last ∧ last ≤ 0x10FFFF then return (first, last) else none
  | none =>
      let digits := rest.takeWhile (· != '?')
      let free := rest.drop digits.length
      if free.any (· != '?') then none
      else
        let first ← hexNumber? (digits ++ free.map fun _ => '0')
        let last ← hexNumber? (digits ++ free.map fun _ => 'F')
        if last ≤ 0x10FFFF then return (first, last) else none

/-- The number of digits in base sixteen at the end that a range leaves open: those from the
first one on in which its bounds differ. -/
def openDigits (first last : Nat) : Nat :=
  ((List.range 6).reverse.find? fun place =>
    first / Nat.pow 16 place != last / Nat.pow 16 place).map (· + 1) |>.getD 0

/-- A range of characters. -/
def writeRange (first last : Nat) : List Char :=
  let digits (value : Nat) := (Nat.toDigits 16 value).map Char.toUpper
  let count := openDigits first last
  let size := Nat.pow 16 count
  if first = last then "U+".toList ++ digits first
  else if first % size = 0 ∧ last % size = size - 1 then
    "U+".toList ++ (if first / size = 0 then [] else digits (first / size)) ++
      List.replicate count '?'
  else "U+".toList ++ digits first ++ '-' :: digits last

/-- Ranges of characters. -/
def rangesOf? (items : List Item) : Option (List Char) := do
  let ranges ← (splitItems ',' items).mapM fun items =>
    (rangeBounds? (spellingOf (trimItems items))).map fun bounds => writeRange bounds.1 bounds.2
  return Text.join [','] ranges

end FontHosting.Css
