import FontHosting.Css.Value

/-!
# Brief stylesheets

`minify` writes a stylesheet again with as few characters as its rules need.  Blanks and
comments go, and so do rules without declarations, except the rules of fonts.  A text that
is not made of rules is no stylesheet.

In the rule of a font the declarations keep their order.  In other rules those of the font
come last, in a fixed order of their own, and of several for one property only the last
counts.
-/

namespace FontHosting.Css

/-- A property with its value. -/
structure Declaration where
  property : List Char
  value : List Item

/-- The items before the first one that satisfies a condition, and the rest from there on. -/
def splitAt (stop : Item → Bool) (items : List Item) : List Item × List Item :=
  items.span fun item => !stop item

/-- The declaration that items before a semicolon make, if they make one. -/
def Declaration.ofItems? (items : List Item) : Option Declaration :=
  match items.dropWhile Item.isBlank with
  | .token ⟨.word property, _⟩ :: rest =>
      match rest.dropWhile Item.isBlank with
      | .token ⟨.mark ':', _⟩ :: value =>
          if anyBad value then none else some ⟨property, trimItems value⟩
      | _ => none
  | _ => none

/-- The pieces of a body between its semicolons, without those that are blank. -/
def bodyPieces (items : List Item) : List (List Item) :=
  (splitItems ';' items).filter fun piece => !piece.all Item.isBlank

/-- A property and its value as they are written. -/
def writeDeclaration (property value : List Char) : List Char :=
  property ++ ':' :: value

/-! ## Rules of fonts -/

/-- The value of a property in the rule of a font. -/
def faceValue? (property : List Char) (items : List Item) : Option (List Char) :=
  match String.ofList property with
  | "font-family" => familyOf? items
  | "src" => sourcesOf? items
  | "font-weight" => pairOf? weightOf? items
  | "font-stretch" => pairOf? stretchOf? items
  | "font-style" => styleOf? items
  | "unicode-range" => rangesOf? items
  | _ => none

/-- A declaration in the rule of a font. -/
def writeFaceDeclaration (declaration : Declaration) : List Char :=
  match faceValue? (lowerName declaration.property) declaration.value with
  | some value => writeDeclaration (lowerName declaration.property) value
  | none => writeDeclaration (writeName declaration.property) (writeValue declaration.value)

/-- The rule of a font.  What is no declaration is left out. -/
def writeFace (body : List Item) : List Char :=
  let declarations := (bodyPieces body).filterMap Declaration.ofItems?
  "@font-face\x7b".toList ++ Text.join [';'] (declarations.map writeFaceDeclaration) ++ ['\x7d']

/-! ## Other rules -/

/-- The properties of fonts in the order in which they are written. -/
def fontProperties : List String :=
  ["font-family", "font-size", "font-style", "font-weight", "font-stretch"]

/-- The value of a property of a font. -/
def fontValue? (property : List Char) (items : List Item) : Option (List Char) :=
  match String.ofList property with
  | "font-family" => familiesOf? items
  | "font-style" => styleOf? items
  | "font-weight" => match solidItems items with
      | [item] => weightOf? item
      | _ => none
  | "font-stretch" => match solidItems items with
      | [item] => stretchOf? item
      | _ => none
  | _ => none

/-- Give a property a value; the place of a property is that of its last value. -/
def replaceValue (written : List (List Char × List Char)) (property value : List Char) :
    List (List Char × List Char) :=
  written.filter (fun other => other.1 != property) ++ [(property, value)]

/-- The declarations of a rule, other ones before those of the font. -/
def orderDeclarations (declarations : List Declaration) : List (List Char × List Char) :=
  let written := declarations.foldl (fun written declaration =>
    let property := lowerName declaration.property
    match fontValue? property declaration.value with
    | some value => replaceValue written property value
    | none =>
        let name := if "--".toList.isPrefixOf property then declaration.property else property
        replaceValue written name (writeValue declaration.value)) []
  let isFont (property : List Char) := fontProperties.contains (String.ofList property)
  written.filter (fun pair => !isFont pair.1) ++
    fontProperties.flatMap fun property => written.filter fun pair => pair.1 == property.toList

/-- Whether an item may stand in a selector. -/
def fitsSelector : Item → Bool
  | .token token => match token.kind with
      | .blank | .word _ | .hash _ => true
      | .mark c => [',', '.', '>', '+', '~', '*', ':', '&', '|'].contains c
      | _ => false
  | .block opening _ => opening == '['
  | .call _ _ => true

/-- Whether blanks around an item mean nothing. -/
def isCombinator (item : Item) : Bool :=
  [',', '>', '+', '~'].any fun mark => item.isMark mark

/-- Items without the blanks beside combinators; `after` tells whether one was just passed. -/
def tightItems (after : Bool) : List Item → List Item
  | [] => []
  | item :: rest =>
      if item.isBlank then
        let nextIsCombinator := rest.head?.any isCombinator
        if after || nextIsCombinator then tightItems after rest else item :: tightItems false rest
      else item :: tightItems (isCombinator item) rest

/-- What a rule applies to. -/
def selectorOf? (items : List Item) : Option (List Char) :=
  let items := squeeze (trimItems items)
  let pieces := splitItems ',' items
  if items.all fitsSelector && pieces.all (fun piece => !piece.all Item.isBlank) then
    some (writeItems (tightItems false items))
  else none

/-- A rule with a selector.  One without declarations is empty. -/
def writeStyle? (selector body : List Item) : Option (List Char) := do
  let selector ← selectorOf? selector
  let declarations ← (bodyPieces body).mapM Declaration.ofItems?
  if declarations.isEmpty then return []
  else
    let written := (orderDeclarations declarations).map fun pair => writeDeclaration pair.1 pair.2
    return selector ++ '\x7b' :: Text.join [';'] written ++ ['\x7d']

/-- Whether a rule of this name contains rules. -/
def containsRules (name : List Char) : Bool :=
  ["media", "supports", "layer", "container", "scope", "starting-style"].contains
    (String.ofList name)

/-- Whether an item ends what stands in front of a rule's body. -/
def endsPrelude (item : Item) : Bool :=
  item.isMark ';' || (match item with
    | .block '\x7b' _ => true
    | _ => false)

/-- What stands in front of a rule's body, with a space before it if there is something. -/
def writePrelude (prelude : List Item) : List Char :=
  let written := writeItems (tightItems false (squeeze (trimItems prelude)))
  if written.isEmpty then [] else ' ' :: written

mutual

/-- The rules that items make, one after the other. -/
def writeRules? : Nat → List Item → Option (List Char)
  | 0, _ => none
  | fuel + 1, items =>
      match items.dropWhile Item.isBlank with
      | [] => some []
      | .token ⟨.atWord name, _⟩ :: rest =>
          let (prelude, rest) := splitAt endsPrelude rest
          do
            let written ← writeAtRule? fuel (lowerName name) prelude rest.head?
            return written ++ (← writeRules? fuel (rest.drop 1))
      | items =>
          let (selector, rest) := splitAt (fun item => item matches .block '\x7b' _) items
          match rest with
          | .block _ body :: rest => do
              let written ← writeStyle? selector body
              return written ++ (← writeRules? fuel rest)
          | _ => none

/-- A rule that starts with a word behind `@`. -/
def writeAtRule? : Nat → List Char → List Item → Option Item → Option (List Char)
  | 0, _, _, _ => none
  | fuel + 1, name, prelude, body =>
      match body with
      | some (.block _ body) =>
          if name = "font-face".toList then
            if prelude.all Item.isBlank then some (writeFace body) else none
          else if containsRules name then do
            let inner ← writeRules? fuel body
            if inner.isEmpty then return []
            else return '@' :: name ++ writePrelude prelude ++ '\x7b' :: inner ++ ['\x7d']
          else
            some ('@' :: name ++ writePrelude prelude ++ '\x7b' :: writeValue body ++ ['\x7d'])
      | _ =>
          if name = "charset".toList then some []
          else if name = "font-face".toList then none
          else if containsRules name && name != "layer".toList then none
          else some ('@' :: name ++ writePrelude prelude ++ [';'])

end

/-- A stylesheet with as few characters as its rules need. -/
def minify (css : List Char) : Option (List Char) :=
  writeRules? (css.length + 2) (items css)

end FontHosting.Css
