import FontHosting.Text.Search

/-!
# Downloaded stylesheets

A stylesheet lists the files of a family, one rule for each subset of its letters.
A comment line in front of a rule names the subset.  This file finds the URLs of the
font files and decides which of them a page should load early.
-/

namespace FontHosting.Google

/-- A font file that a stylesheet refers to. -/
structure FontFile where
  url : String
  preload : Bool
  deriving DecidableEq, Repr

/-- A stylesheet up to its first rule for `body`, which does not belong to the fonts. -/
def fontRules (css : List Char) : List Char :=
  match Text.splitOnce? "body \x7b".toList css with
  | some (rules, _) => rules
  | none => css

/-- The shortest text, of at least one character, between an opening and a closing mark. -/
def between? (opening closing : String) (line : List Char) : Option (List Char) := do
  let (_, rest) ← Text.splitOnce? opening.toList line
  match rest with
  | [] => none
  | first :: rest =>
      let (inner, _) ← Text.splitOnce? closing.toList rest
      return first :: inner

/-- The subset that a comment line names. -/
def subsetOf? (line : List Char) : Option (List Char) := between? "/* " " */" line

/-- The URL of the file on a line. -/
def urlOf? (line : List Char) : Option (List Char) := between? "src: url(" ")" line

/-- What has been found up to a line. -/
structure Scan where
  /-- The subset that the next rules are for. -/
  subset : List Char
  files : List FontFile

/-- Take up a line.  A URL that was found before stays as it was found. -/
def Scan.line (preloaded : Option (List String)) (scan : Scan) (line : List Char) : Scan :=
  match subsetOf? line with
  | some subset => { scan with subset }
  | none =>
      match urlOf? line with
      | none => scan
      | some url =>
          let url := String.ofList url
          if scan.files.any fun file => file.url == url then scan
          else
            let preload := (preloaded.getD []).contains (String.ofList scan.subset)
            { scan with files := scan.files ++ [⟨url, preload⟩] }

/-- The font files of a stylesheet in the order in which they are found first.  Files of the
subsets in `preloaded` are to be loaded early. -/
def fontFiles (css : List Char) (preloaded : Option (List String)) : List FontFile :=
  ((Text.lines css).foldl (Scan.line preloaded) ⟨[], []⟩).files

end FontHosting.Google
