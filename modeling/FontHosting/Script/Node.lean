/-!
# Syntax trees of scripts

A font call touches few forms of the language: imports, variable declarations,
calls, and the literals that may stand in its arguments.  Those have constructors
of their own.  Every other form is a `form`: its kind and its parts, in the order
in which the parts are written.

What matters in all forms are the names.  A `reference` is a name that stands for
a binding, a `binding` introduces one, and a `word` is a name that does neither,
such as a property name or a label.
-/

namespace FontHosting.Script

/-- A range of a text, in bytes. -/
structure Span where
  start : Nat
  stop : Nat
  deriving DecidableEq, Repr, Inhabited

/-- The keyword that starts a variable declaration. -/
inductive VariableKind where
  | constant
  | block
  | function
  | disposable
  | asyncDisposable
  deriving DecidableEq, Repr

/-- What a property of an object is. -/
inductive PropertyKind where
  | plain
  | method
  | getter
  | setter
  deriving DecidableEq, Repr

/-- What an import specifier takes from a module. -/
inductive Imported where
  | default
  | everything
  | named (name : String)
  deriving DecidableEq, Repr

/-- The forms that are not looked into for font calls. -/
inductive Form where
  -- literals and words
  | pattern (body flags : String)
  | bigNumber (digits : String)
  | template
  | templatePiece (value : Option String)
  | this
  | super
  | metaProperty
  | privateWord (name : String)
  -- expressions
  | unary (operator : String)
  | update (operator : String) (before : Bool)
  | binary (operator : String)
  | assignment (operator : String)
  | conditional
  | sequence
  | await
  | yield (delegate : Bool)
  | member (optional : Bool)
  | index (optional : Bool)
  | creation
  | tagged
  | importCall
  | arrow (isAsync : Bool)
  | function (isAsync isGenerator : Bool)
  | classDefinition
  | coverDefault
  -- parts of functions, classes and targets
  | parameters
  | parameter (modifiers : List String)
  | defaulted
  | rest
  | objectTarget
  | arrayTarget
  | targetProperty (computed : Bool)
  | body
  | classBody
  | classMember (modifiers : List String) (computed : Bool)
  | staticBlock
  | decorator
  | heritage
  -- statements
  | expressionStatement
  | directive (value : String)
  | emptyStatement
  | blockStatement
  | ifStatement
  | forStatement
  | forIn
  | forOf (isAwait : Bool)
  | whileStatement
  | doWhile
  | continueStatement
  | breakStatement
  | returnStatement
  | withStatement
  | switchStatement
  | switchCase (isDefault : Bool)
  | labeled
  | throwStatement
  | tryStatement
  | catchClause
  | finallyClause
  | debuggerStatement
  -- modules
  | importSetting
  | importEquals (isExported typeOnly : Bool)
  | externalModule
  | exportNames (typeOnly : Bool)
  | exportName (typeOnly : Bool)
  | exportAll (typeOnly : Bool)
  | exportDefault
  | exportEquals
  | exportNamespace
  -- types
  | typeKeyword (name : String)
  | typeReference
  | qualified
  | typeArguments
  | typeParameters
  | typeParameter (modifiers : List String)
  | typeLiteral
  | arrayType
  | indexedType
  | tupleType
  | tupleMember (optional isRest : Bool)
  | unionType
  | intersectionType
  | functionType
  | constructorType (isAbstract : Bool)
  | objectType
  | mappedType
  | conditionalType
  | inferType
  | typeOperator (operator : String)
  | typeQuery
  | importType
  | parenthesizedType
  | predicate (asserts : Bool)
  | templateType
  | typeMember (kind : String)
  | asType (operator : String)
  | typeAssertion
  | nonNull
  | instantiation
  | typeAlias
  | interface
  | enumeration (isConst : Bool)
  | enumMember
  | namespace (keyword : String)
  | declared
  -- markup
  | markupElement
  | markupFragment
  | markupAttribute
  | markupSpread
  | markupContainer
  | markupText (value : String)
  | markupMember
  | markupNamespaced
  deriving DecidableEq, Repr

/-- A syntax tree. -/
inductive Node where
  | reference (name : String) (span : Span)
  | binding (name : String) (span : Span)
  | word (name : String) (span : Span)
  | text (value : String) (span : Span)
  | number (value : Float) (span : Span)
  | boolean (value : Bool) (span : Span)
  | null (span : Span)
  | parenthesized (inner : Node) (span : Span)
  | hole (span : Span)
  | spread (inner : Node) (span : Span)
  | array (items : List Node) (span : Span)
  | property (kind : PropertyKind) (computed : Bool) (key value : Node) (span : Span)
  | object (properties : List Node) (span : Span)
  | call (optional : Bool) (callee : Node) (typeArguments arguments : List Node) (span : Span)
  /-- A target with the type written behind it and the value it starts with. -/
  | declarator (target : Node) (type initial : List Node) (span : Span)
  | variables (kind : VariableKind) (declarators : List Node) (span : Span)
  | importSpecifier (imported : Imported) (target : Node) (span : Span)
  /-- Without a list of specifiers the module is only run. -/
  | importFrom (typeOnly : Bool) (specifiers : List Node) (source : String)
      (attributes : List Node) (span : Span)
  | exported (declaration : Node) (span : Span)
  | form (kind : Form) (parts : List Node) (span : Span)
  deriving Repr, Inhabited

/-- The place of a tree in its text. -/
def Node.span : Node → Span
  | .reference _ span | .binding _ span | .word _ span | .text _ span | .number _ span
  | .boolean _ span | .null span | .parenthesized _ span | .hole span | .spread _ span
  | .array _ span | .property _ _ _ _ span | .object _ span | .call _ _ _ _ span
  | .declarator _ _ _ span | .variables _ _ span | .importSpecifier _ _ span
  | .importFrom _ _ _ _ span | .exported _ span | .form _ _ span => span

/-- Where a tree starts. -/
def Node.start (node : Node) : Nat := node.span.start

/-- A name read as the name of a property. -/
def Node.asWord : Node → Node
  | .reference name span | .binding name span => .word name span
  | node => node

/-- The name of a property read as a reference, as it is where a property has no value. -/
def Node.asReference : Node → Node
  | .word name span => .reference name span
  | node => node

/-- A name in a script, with the place where it stands. -/
structure Occurrence where
  name : String
  start : Nat
  deriving DecidableEq, Repr

mutual

/-- Every reference and every binding in a tree, in the order of its parts. -/
def Node.occurrences : Node → List Occurrence
  | .reference name span => [⟨name, span.start⟩]
  | .binding name span => [⟨name, span.start⟩]
  | .word .. | .text .. | .number .. | .boolean .. | .null .. | .hole .. => []
  | .parenthesized inner _ => inner.occurrences
  | .spread inner _ => inner.occurrences
  | .array items _ => occurrencesIn items
  | .property _ _ key value _ => key.occurrences ++ value.occurrences
  | .object properties _ => occurrencesIn properties
  | .call _ callee typeArguments arguments _ =>
      callee.occurrences ++ occurrencesIn typeArguments ++ occurrencesIn arguments
  | .declarator target type initial _ =>
      target.occurrences ++ occurrencesIn type ++ occurrencesIn initial
  | .variables _ declarators _ => occurrencesIn declarators
  | .importSpecifier _ target _ => target.occurrences
  | .importFrom _ specifiers _ attributes _ =>
      occurrencesIn specifiers ++ occurrencesIn attributes
  | .exported declaration _ => declaration.occurrences
  | .form _ parts _ => occurrencesIn parts

/-- The occurrences in a list of trees, one tree after the other. -/
def occurrencesIn : List Node → List Occurrence
  | [] => []
  | node :: rest => node.occurrences ++ occurrencesIn rest

end

/-- A parsed script: the directives it starts with and its statements. -/
structure Program where
  directives : List Node
  statements : List Node
  deriving Repr, Inhabited

/-- Every reference and every binding of a script, in source order. -/
def Program.occurrences (program : Program) : List Occurrence :=
  occurrencesIn program.statements

end FontHosting.Script
