import FontHosting.FontCall.Literal
import FontHosting.FontCall.Settings
import FontHosting.Json.Writer
import FontHosting.Stylesheet.Id

/-!
# Font calls of a script

A font function is imported from a loader module and called once for each font,
as the first value of a constant at the top level.  So a script that imports
`Inter` may go on with `export const inter = Inter(…)`.

`collect` finds the imported functions, `replaceCalls` turns the calls into imports of
stylesheets, and `checkScope` makes sure that the functions are not used in any
other way.  Places are told by the byte where they start, since no two imports,
declarations or names start at the same byte.
-/

namespace FontHosting.FontCall

open Script (Node Program)

/-- Where a font function comes from. -/
structure Source where
  /-- The module, as it is named in the import. -/
  loader : String
  /-- The imported name, unless the import is the default one. -/
  function? : Option String
  deriving DecidableEq, Repr

/-- The import of a stylesheet. -/
structure Import where
  name : String
  specifier : String
  deriving DecidableEq, Repr

/-- What is known about the font calls of a script. -/
structure Analysis where
  /-- Where the statements start that are to be deleted. -/
  removable : List Nat
  /-- Where the names start that may name a font function. -/
  allowed : List Nat
  /-- The font functions under the names they have in the script. -/
  functions : Table Source
  imports : List Import
  /-- The constants that are to be exported again. -/
  exports : List String

/-- Nothing is known yet. -/
def Analysis.empty : Analysis := ⟨[], [], Table.empty, [], []⟩

/-! ## Imported functions -/

/-- Take up one imported name. -/
def collectSpecifier (source : String) (analysis : Analysis) : Node → Except Fault Analysis
  | .importSpecifier .everything _ span => .error ⟨.namespaceImport, span.start⟩
  | .importSpecifier imported (.binding name span) _ =>
      let function? := match imported with
        | .named function => some function
        | _ => none
      .ok { analysis with
        allowed := span.start :: analysis.allowed
        functions := analysis.functions.insert name ⟨source, function?⟩ }
  | _ => .ok analysis

/-- Take up a statement if it imports a loader module. -/
def collectStatement (settings : Settings) (analysis : Analysis) : Node → Except Fault Analysis
  | .importFrom false specifiers source _ span =>
      if settings.isLoader source then
        specifiers.foldlM (collectSpecifier source)
          { analysis with removable := span.start :: analysis.removable }
      else .ok analysis
  | _ => .ok analysis

/-- The font functions of a script. -/
def collect (settings : Settings) (program : Program) : Except Fault Analysis :=
  program.statements.foldlM (collectStatement settings) Analysis.empty

/-! ## Calls -/

/-- A call of a font function. -/
structure Call where
  source : Source
  /-- Where the name of the function starts. -/
  callee : Nat
  arguments : List Node

/-- The call of a font function that a declaration starts with. -/
def callOf? (functions : Table Source) : List Node → Option Call
  | .declarator _ _ [.call false (.reference name span) _ arguments _] _ :: _ =>
      (functions.get? name).map fun source => ⟨source, span.start, arguments⟩
  | _ => none

/-- The values of the arguments of a call. -/
def argumentValues : List Node → Except Fault (List Json.Value)
  | [] => .ok []
  | .spread _ span :: _ => .error ⟨.spreadArgument, span.start⟩
  | argument :: rest => do
      let value ← literal argument
      return value :: (← argumentValues rest)

/-- The name that the first of several variables binds. -/
def boundName : List Node → Except Fault String
  | .declarator (.binding name _) _ _ _ :: _ => .ok name
  | .declarator _ _ _ span :: _ => .error ⟨.notName, span.start⟩
  | node :: _ => .error ⟨.notName, node.start⟩
  | [] => .error ⟨.notName, 0⟩

/-- The stylesheet that a call stands for. -/
def specifierOf (settings : Settings) (module : String) (source : Source)
    (arguments : List Json.Value) (name : String) : String :=
  let id : Stylesheet.Id := {
    loader := settings.remap source.loader
    query := {
      path := module
      function := source.function?.getD ""
      arguments := (Json.Value.list arguments).toText
      variableName := name } }
  String.ofList id.render

/-- Imports with one more, unless it is there already. -/
def pushImport (imports : List Import) (added : Import) : List Import :=
  if imports.contains added then imports else imports ++ [added]

/-- Take up a declaration that starts at `start`; the answer is the bound name if it is a
font call. -/
def replaceInDeclaration (settings : Settings) (module : String) (analysis : Analysis)
    (kind : Script.VariableKind) (declarators : List Node) (start : Nat) :
    Except Fault (Analysis × Option String) :=
  match callOf? analysis.functions declarators with
  | none => .ok (analysis, none)
  | some call => do
      let arguments ← argumentValues call.arguments
      if kind = .constant then
        let name ← boundName declarators
        let added : Import := ⟨name, specifierOf settings module call.source arguments name⟩
        return ({ analysis with
          allowed := call.callee :: analysis.allowed
          imports := pushImport analysis.imports added }, some name)
      else .error ⟨.notConstant, start⟩

/-- Take up a statement if it is a font call, exported or not. -/
def replaceInStatement (settings : Settings) (module : String) (analysis : Analysis) :
    Node → Except Fault Analysis
  | .variables kind declarators span => do
      let (analysis, name?) ←
        replaceInDeclaration settings module analysis kind declarators span.start
      match name? with
      | some _ => return { analysis with removable := span.start :: analysis.removable }
      | none => return analysis
  | .exported (.variables kind declarators inner) span => do
      let (analysis, name?) ←
        replaceInDeclaration settings module analysis kind declarators inner.start
      match name? with
      | some name =>
          return { analysis with
            removable := span.start :: analysis.removable
            exports := analysis.exports ++ [name] }
      | none => return analysis
  | _ => .ok analysis

/-- The calls of the font functions that are known. -/
def replaceCalls (settings : Settings) (module : String) (analysis : Analysis) (program : Program) :
    Except Fault Analysis :=
  program.statements.foldlM (replaceInStatement settings module) analysis

/-! ## Other uses -/

/-- Whether a name stands for a font function where it may not. -/
def Analysis.forbids (analysis : Analysis) (occurrence : Script.Occurrence) : Bool :=
  analysis.functions.contains occurrence.name && !analysis.allowed.contains occurrence.start

/-- No font function is used in any other way than to be called for a constant. -/
def checkScope (analysis : Analysis) (program : Program) : Except Fault Unit :=
  match program.occurrences.find? analysis.forbids with
  | some occurrence => .error ⟨.outsideModuleScope, occurrence.start⟩
  | none => .ok ()

/-- The font calls of a script, if it imports a loader module at all. -/
def analyze (settings : Settings) (module : String) (program : Program) :
    Except Fault (Option Analysis) := do
  let analysis ← collect settings program
  if analysis.removable.isEmpty then return none
  else
    let analysis ← replaceCalls settings module analysis program
    checkScope analysis program
    return some analysis

end FontHosting.FontCall
