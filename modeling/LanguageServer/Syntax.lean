import LanguageServer.Ty

/-!
# Syntax trees

What the parser makes of a file. A tree keeps its tokens, so that the place of every name, operator
and bracket can be told. After a compilation, expressions also carry their type and the definition
they refer to.

* `Reference`: what a name refers to, as a place in the tables of the compiler's result;
* `TypeSyntax`, `Expr`: written types and expressions;
* `Statement`, `VariableDefinition`, `Block`;
* `FunctionDefinition`, `StructDefinition`, `AliasDefinition`, `Using`: what stands at the top of a
  file;
* `SourceFile`: a whole file.
-/

namespace LanguageServer

/-! ### References -/

/-- As much of the declaration of a variable as describes and locates it. -/
structure VariableReference where
  file : Option Uri
  modifiers : List Token
  type : Ty
  name : Token

/-- What a name refers to. Numbers are places in the tables of the result the tree came from; a call
of a template carries the arguments found for it. -/
inductive Reference
  | function (index : Nat) (arguments : Option (List (String × Ty)))
  | struct (index : Nat)
  | field (struct : Nat) (field : Nat)
  | parameter (function : Nat) (parameter : Nat)
  | variable (v : VariableReference)
  | constant (index : Nat)
  | alias (index : Nat)

/-! ### Types and expressions -/

/-- An opening and a closing bracket. -/
structure Brackets where
  opening : Token
  closing : Token

/-- The span from one bracket to the other. -/
def Brackets.range (b : Brackets) : Range := b.opening.range.union b.closing.range

/-- What every expression has: its span and, after a compilation, its type. -/
structure Annotation where
  range : Range
  type : Option Ty

mutual

/-- A type as it is written. `named` is a plain name, `applied` a name with template arguments;
`array` has the length the compiler found if no size is written; `missing` stands where the parser
found no type. -/
inductive TypeSyntax
  | named (name : Token) (range : Range)
  | applied (name : Token) (arguments : List TypeSyntax) (range : Range)
  | pointer (target : TypeSyntax) (operator : Token) (range : Range)
  | array (element : TypeSyntax) (size : Option Expr) (brackets : Brackets)
      (inferred : Option Nat) (range : Range)
  | function (result : TypeSyntax) (parameters : List TypeSyntax) (brackets : Brackets)
      (range : Range)
  | missing (range : Range)

/-- An expression. `missing` stands where the parser found none. -/
inductive Expr
  | int (note : Annotation) (value : Int)
  | float (note : Annotation) (bits : Nat)
  | character (note : Annotation) (value : Char)
  | text (note : Annotation) (value : String)
  | name (note : Annotation) (name : Token) (reference : Option Reference)
  | field (note : Annotation) (object : Expr) (name : Token) (reference : Option Reference)
  | call (note : Annotation) (callee : Expr) (arguments : List Expr) (commas : List Token)
      (brackets : Brackets) (reference : Option Reference)
  | binary (note : Annotation) (left : Expr) (operator : Token) (right : Expr)
      (reference : Option Reference)
  | unary (note : Annotation) (operator : Token) (operand : Expr) (reference : Option Reference)
  | new (note : Annotation) (keyword : Token) (type : TypeSyntax)
  | construct (note : Annotation) (keyword : Token) (type : TypeSyntax) (arguments : List Expr)
      (commas : List Token) (brackets : Brackets) (reference : Option Reference)
  | cast (note : Annotation) (value : Expr) (type : TypeSyntax) (brackets : Brackets)
  | reinterpret (note : Annotation) (value : Expr) (keyword : Token) (type : TypeSyntax)
  | index (note : Annotation) (object : Expr) (index : Expr) (brackets : Brackets)
      (reference : Option Reference)
  | missing (note : Annotation)

end

instance : Inhabited TypeSyntax := ⟨.missing default⟩

namespace TypeSyntax

/-- The span of a type. -/
def range : TypeSyntax → Range
  | .named _ r | .applied _ _ r | .pointer _ _ r | .array _ _ _ _ r | .function _ _ _ r
  | .missing r => r

mutual

/-- A type and every type inside it, outermost first. -/
def descendants : TypeSyntax → List TypeSyntax
  | .named name r => [.named name r]
  | .applied name arguments r => .applied name arguments r :: descendantsOf arguments
  | .pointer target op r => .pointer target op r :: target.descendants
  | .array element size brackets inferred r =>
    .array element size brackets inferred r :: element.descendants
  | .function result parameters brackets r =>
    .function result parameters brackets r :: (result.descendants ++ descendantsOf parameters)
  | .missing r => [.missing r]

/-- The types of a list, each with those inside it. -/
def descendantsOf : List TypeSyntax → List TypeSyntax
  | [] => []
  | t :: ts => t.descendants ++ descendantsOf ts

end

mutual

/-- The written form of a type. An array shows the length that was found for it only if no size is
written. -/
def display : TypeSyntax → String
  | .named name _ => name.content
  | .applied name arguments _ =>
    name.content ++ "<" ++ String.intercalate ", " (displayAll arguments) ++ ">"
  | .pointer target _ _ => target.display ++ "*"
  | .array element none _ (some n) _ => element.display ++ "[" ++ toString n ++ "]"
  | .array element _ _ _ _ => element.display ++ "[]"
  | .function result parameters _ _ =>
    result.display ++ "(" ++ String.intercalate ", " (displayAll parameters) ++ ")"
  | .missing _ => "?"

/-- The written forms of a list of types. -/
def displayAll : List TypeSyntax → List String
  | [] => []
  | t :: ts => t.display :: displayAll ts

end

end TypeSyntax

namespace Expr

/-- The span and the type of an expression. -/
def note : Expr → Annotation
  | .int n _ | .float n _ | .character n _ | .text n _ | .name n _ _ | .field n _ _ _
  | .call n _ _ _ _ _ | .binary n _ _ _ _ | .unary n _ _ _ | .new n _ _ | .construct n _ _ _ _ _ _
  | .cast n _ _ _ | .reinterpret n _ _ _ | .index n _ _ _ _ | .missing n => n

/-- The span of an expression. -/
def range (e : Expr) : Range := e.note.range

/-- The type that the compiler found for an expression. -/
def type? (e : Expr) : Option Ty := e.note.type

/-- The definition that an expression refers to. -/
def reference? : Expr → Option Reference
  | .name _ _ r | .field _ _ _ r | .call _ _ _ _ _ r | .binary _ _ _ _ r | .unary _ _ _ r
  | .construct _ _ _ _ _ _ r | .index _ _ _ _ r => r
  | _ => none

/-- The type that is written in an expression itself. -/
def typeSyntax? : Expr → Option TypeSyntax
  | .new _ _ t | .construct _ _ t _ _ _ _ | .cast _ _ t _ | .reinterpret _ _ _ t => some t
  | _ => none

end Expr

/-! ### Statements -/

/-- An attribute before a definition. -/
structure AttributeUse where
  name : Token
  brackets : Option Brackets
  parameters : List Expr
  range : Range

/-- The declaration of a variable. -/
structure VariableDefinition where
  file : Option Uri
  attributes : List AttributeUse
  modifiers : List Token
  typeSyntax : TypeSyntax
  name : Token
  initial : Option Expr
  type : Option Ty
  range : Range

/-- Whether a variable is declared as a constant. -/
def VariableDefinition.isConstant (d : VariableDefinition) : Bool :=
  Keyword.constant |> (Keyword.isAmong · d.modifiers)

/-- A statement. `keyword` is a keyword with arguments, `branch` a condition or loop. -/
inductive Statement
  | expr (e : Expr)
  | variable (d : VariableDefinition)
  | keyword (word : Token) (arguments : List Expr) (range : Range)
  | block (brackets : Option Brackets) (body : List Statement) (range : Range)
  | branch (word : Token) (condition : Option Expr) (body : Statement)
      (otherwise : Option Statement) (range : Range)

/-- The span of a statement. -/
def Statement.range : Statement → Range
  | .expr e => e.range
  | .variable d => d.range
  | .keyword _ _ r | .block _ _ r | .branch _ _ _ _ r => r

/-- Statements in braces. -/
structure Block where
  brackets : Option Brackets
  statements : List Statement
  range : Range

/-! ### Definitions -/

/-- An import of another file. `target` is the file the compiler found for it. -/
structure Using where
  keyword : Token
  path : List Token
  target : Option Uri
  range : Range

namespace Using

/-- The path of an import: its only token, or else its names with `/` between them. -/
def pathText (u : Using) : String :=
  match u.path with
  | [t] => t.content
  | ts => String.intercalate "/" ((ts.filter (·.kind != .operator)).map (·.content))

/-- The span of the path. -/
def pathRange? (u : Using) : Option Range :=
  match u.path.head?, u.path.getLast? with
  | some first, some last => some (first.range.union last.range)
  | _, _ => none

end Using

/-- A parameter of a function. -/
structure ParameterDefinition where
  modifiers : List Token
  typeSyntax : TypeSyntax
  name : Token
  range : Range

namespace ParameterDefinition

/-- Whether a parameter is the receiver of an extension method. -/
def isReceiver (p : ParameterDefinition) : Bool := Keyword.isAmong Keyword.receiver p.modifiers

/-- Whether a parameter is passed by reference. -/
def isByReference (p : ParameterDefinition) : Bool := Keyword.isAmong Keyword.byReference p.modifiers

end ParameterDefinition

/-- What is called: a function, an operator, a special member such as an indexer, or a
constructor. -/
inductive FunctionKind
  | function
  | operator
  | general
  | constructor
  deriving DecidableEq, Repr, Inhabited

/-- Every kind. -/
def FunctionKind.all : List FunctionKind := [.function, .general, .operator, .constructor]

/-- The definition of something that is called. The result of a constructor is the type it makes;
`context` is the name of the struct that a member belongs to. -/
structure FunctionDefinition where
  kind : FunctionKind
  file : Option Uri
  attributes : List AttributeUse
  modifiers : List Token
  result : TypeSyntax
  name : Token
  template : Option (List Token)
  parameters : List ParameterDefinition
  body : Option Block
  context : Option String
  range : Range

/-- Whether the first parameter is a receiver. -/
def FunctionDefinition.isExtension (d : FunctionDefinition) : Bool :=
  d.parameters.head?.any (·.isReceiver)

/-- A field of a struct. -/
structure FieldDefinition where
  modifiers : List Token
  typeSyntax : TypeSyntax
  name : Token
  range : Range

/-- The definition of a struct. -/
structure StructDefinition where
  file : Option Uri
  attributes : List AttributeUse
  modifiers : List Token
  keyword : Token
  name : Token
  template : Option (List Token)
  fields : List FieldDefinition
  range : Range

/-- The definition of an alias. -/
structure AliasDefinition where
  file : Option Uri
  attributes : List AttributeUse
  modifiers : List Token
  keyword : Token
  name : Token
  value : TypeSyntax
  range : Range

/-- The syntax tree of a file. -/
structure SourceFile where
  usings : List Using := []
  functions : List FunctionDefinition := []
  structs : List StructDefinition := []
  aliases : List AliasDefinition := []
  statements : List Statement := []
  deriving Inhabited

/-- Whether the parser found nothing at all. -/
def SourceFile.isEmpty (f : SourceFile) : Bool :=
  f.usings.isEmpty && f.functions.isEmpty && f.structs.isEmpty && f.aliases.isEmpty &&
    f.statements.isEmpty

/-- Where the statements of a file start: at its top, and then in the bodies of its functions. -/
def SourceFile.roots (f : SourceFile) : List Statement :=
  f.statements ++ f.functions.flatMap fun d => (d.body.map (·.statements)).getD []

end LanguageServer
