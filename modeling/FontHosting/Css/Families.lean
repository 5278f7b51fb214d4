import FontHosting.Text.Blank
import FontHosting.Text.Search

/-!
# Font families in a stylesheet

The rules of a loader name a font family, which has to be replaced by a name that
no other stylesheet uses.  So the stylesheet is cut into segments: the values of the
families, and all that stands between them.  Putting the segments together again gives
the stylesheet back, whatever it looks like, and replacing a family replaces its segment.

A rule starts with `@font-face` and has its body between braces.  In a body, a
declaration ends at a semicolon.  Neither a brace nor a semicolon counts between quotes,
and what is not closed goes on to the end.
-/

namespace FontHosting.Css

/-- A part of a stylesheet. -/
inductive Segment where
  | plain (text : List Char)
  /-- The value of a `font-family` declaration in a `@font-face` rule. -/
  | family (value : List Char)
  deriving DecidableEq, Repr

/-- A part as it stands in the stylesheet. -/
def Segment.text : Segment → List Char
  | .plain text => text
  | .family value => value

/-- Whether a character opens or closes a quotation. -/
def isQuote (c : Char) : Bool := c == '"' || c == '\''

/-- The quotation that is open after a character, if one is. -/
def quoteAfter (quote : Option Char) (c : Char) : Option Char :=
  match quote with
  | some mark => if c = mark then none else quote
  | none => if isQuote c then some c else none

/-- What stands before the first `mark` outside of quotes, and the rest from the mark on. -/
def splitUnquoted (mark : Char) (quote : Option Char) : List Char → List Char × List Char
  | [] => ([], [])
  | c :: rest =>
      if quote = none ∧ c = mark then ([], c :: rest)
      else
        let (before, after) := splitUnquoted mark (quoteAfter quote c) rest
        (c :: before, after)

theorem splitUnquoted_append (mark : Char) (quote : Option Char) (text : List Char) :
    (splitUnquoted mark quote text).1 ++ (splitUnquoted mark quote text).2 = text := by
  induction text generalizing quote with
  | nil => rfl
  | cons c rest ih =>
      simp only [splitUnquoted]
      split
      · rfl
      · simpa using ih (quoteAfter quote c)

/-! ## Declarations -/

/-- The value of a declaration of the property `font-family`, with what stands before and
behind it; blanks do not belong to a value. -/
def familyIn? (declaration : List Char) : Option (List Char × List Char × List Char) :=
  let (property, rest) := declaration.span (· != ':')
  match rest with
  | [] => none
  | colon :: rest =>
      if Text.trim property = "font-family".toList then
        let start := Text.trimStart rest
        let value := Text.trimEnd start
        if value.isEmpty then none
        else
          some (property ++ colon :: rest.take (rest.length - start.length), value,
            start.drop value.length)
      else none

/-- The first value of a family in a body, with what stands before and behind it.  `passed`
is what was passed already. -/
def splitBody (passed : List Char) : Nat → List Char → Option (List Char × List Char × List Char)
  | 0, _ => none
  | fuel + 1, body =>
      let (declaration, rest) := splitUnquoted ';' none body
      match familyIn? declaration with
      | some (before, value, after) => some (passed ++ before, value, after ++ rest)
      | none =>
          match rest with
          | [] => none
          | mark :: rest => splitBody (passed ++ declaration ++ [mark]) fuel rest

/-- The segments of a body. -/
def bodySegments (body : List Char) : List Segment :=
  match splitBody [] (body.length + 1) body with
  | some (before, value, after) => [.plain before, .family value, .plain after]
  | none => [.plain body]

/-! ## Rules -/

/-- What every rule for a font starts with. -/
def faceKeyword : List Char := "@font-face".toList

/-- The next rule of a stylesheet: what stands before its body, the body, and the rest from
the closing brace on. -/
def nextFace? (css : List Char) : Option (List Char × List Char × List Char) := do
  let before ← Text.find? faceKeyword css
  let (opening, rest) := (css.drop before).span (· != '\x7b')
  match rest with
  | [] => none
  | brace :: rest =>
      let (body, after) := splitUnquoted '\x7d' none rest
      return (css.take before ++ opening ++ [brace], body, after)

/-- The segments of a stylesheet.  The search for the next rule goes on behind the closing
brace of the one before. -/
def segmentsFrom : Nat → List Char → List Segment
  | 0, css => [.plain css]
  | fuel + 1, css =>
      match nextFace? css with
      | none => [.plain css]
      | some (before, body, after) =>
          .plain before :: bodySegments body ++
            .plain (after.take 1) :: segmentsFrom fuel (after.drop 1)

/-- The segments of a stylesheet. -/
def segments (css : List Char) : List Segment :=
  segmentsFrom (css.length + 1) css

/-- The value of a segment that is a family. -/
def Segment.family? : Segment → Option (List Char)
  | .plain _ => none
  | .family value => some value

/-- The segment with another family in place of its own. -/
def Segment.renamed (name : List Char) : Segment → List Char
  | .plain text => text
  | .family _ => name

/-- The name of a family without its quotes. -/
def unquoted (value : List Char) : List Char :=
  value.filter fun c => !isQuote c

/-- A stylesheet with every family replaced by a name that is made of the first one, together
with the first one; nothing if there is no family. -/
def renameFamilies (rename : List Char → List Char) (css : List Char) :
    Option (List Char × List Char) := do
  let segments := segments css
  let family := unquoted (← (segments.filterMap Segment.family?).head?)
  return (segments.flatMap (Segment.renamed (rename family)), family)

end FontHosting.Css
