import LanguageServer.Syntax.Walk
import LanguageServer.Text.Quoted
import LanguageServer.Decimal.Shortest

/-!
# Compiled programs

What a compilation produces: tables of definitions with their types and uses, and the tokens and the
syntax tree of every file.

* `CompiledFunction`, `CompiledStruct`, `CompiledAlias`, `CompiledConstant`: the entries of the
  tables;
* `Program`: the tables and the files;
* `Program.functionsIn`, `functionAt?` and the like: entries of a file, and the one whose name stands
  under a position;
* `isUsableFrom`: visibility.
-/

namespace LanguageServer

/-- A place in the source that uses a definition. -/
structure ReferenceSite where
  range : Range
  file : Option Uri
  deriving DecidableEq, Repr

/-- A parameter with its type. -/
structure CompiledParameter where
  definition : ParameterDefinition
  type : Ty

/-- A function with its types and its uses. -/
structure CompiledFunction where
  definition : FunctionDefinition
  result : Ty
  parameters : List CompiledParameter
  sites : List ReferenceSite

namespace CompiledFunction

/-- The name of a function. -/
def name (f : CompiledFunction) : String := f.definition.name.content

/-- What sort of function it is. -/
def kind (f : CompiledFunction) : FunctionKind := f.definition.kind

/-- The file of a function. -/
def file (f : CompiledFunction) : Option Uri := f.definition.file

end CompiledFunction

/-- A field with its type. -/
structure CompiledField where
  definition : FieldDefinition
  type : Ty

/-- A struct with the types of its fields and its uses. -/
structure CompiledStruct where
  definition : StructDefinition
  fields : List CompiledField
  sites : List ReferenceSite

/-- The name of a struct. -/
def CompiledStruct.name (s : CompiledStruct) : String := s.definition.name.content

/-- An alias with the type it stands for. -/
structure CompiledAlias where
  definition : AliasDefinition
  value : Ty

/-- A value known at compile time; a floating-point number is given by its 64 bits. -/
inductive ConstantValue
  | int (value : Int)
  | float (bits : Nat)
  | text (value : String)
  deriving DecidableEq, Repr

/-- The written form of a value. -/
def ConstantValue.display : ConstantValue → String
  | .int value => toString value
  | .float bits => Decimal.displayBits Decimal.double bits
  | .text value => Text.quoted value

/-- A constant with its value. One that the host supplies has no file. -/
structure CompiledConstant where
  file : Option Uri
  modifiers : List Token
  name : Token
  type : Ty
  value : ConstantValue
  range : Range

/-- The tokens, comments included, and the syntax tree of a file. -/
structure ParsedFile where
  file : Uri
  tokens : List Token
  syntaxTree : SourceFile

/-- Everything a compilation produced. -/
structure Program where
  functions : List CompiledFunction := []
  structs : List CompiledStruct := []
  aliases : List CompiledAlias := []
  constants : List CompiledConstant := []
  files : List ParsedFile := []
  deriving Inhabited

/-- Whether code in a file may use a definition: it stands in the same file, it is exported, or it
comes from outside all files. -/
def isUsableFrom (user : Uri) (file : Option Uri) (modifiers : List Token) : Bool :=
  match file with
  | none => true
  | some file => file == user || Keyword.isAmong Keyword.exported modifiers

/-- Whether a file may use a function. -/
def CompiledFunction.isUsableFrom (f : CompiledFunction) (user : Uri) : Bool :=
  LanguageServer.isUsableFrom user f.definition.file f.definition.modifiers

/-- Whether a file may use a struct. -/
def CompiledStruct.isUsableFrom (s : CompiledStruct) (user : Uri) : Bool :=
  LanguageServer.isUsableFrom user s.definition.file s.definition.modifiers

/-- Whether a file may use an alias. -/
def CompiledAlias.isUsableFrom (a : CompiledAlias) (user : Uri) : Bool :=
  LanguageServer.isUsableFrom user a.definition.file a.definition.modifiers

/-- Whether a file may use a variable. -/
def VariableDefinition.isUsableFrom (d : VariableDefinition) (user : Uri) : Bool :=
  LanguageServer.isUsableFrom user d.file d.modifiers

namespace Program

/-- The tokens and the syntax tree of a file. -/
def file? (p : Program) (uri : Uri) : Option ParsedFile := p.files.find? (·.file == uri)

/-- The statements at the top of every file. -/
def topStatements (p : Program) : List (Uri × Statement) :=
  p.files.flatMap fun f => f.syntaxTree.statements.map (f.file, ·)

/-- The entries of a table that satisfy a condition, with their places. -/
def entries {α : Type} (table : List α) (p : α → Bool) : List (Nat × α) :=
  table.zipIdx.filterMap fun (a, i) => if p a then some (i, a) else none

/-- The functions of some kinds in a file, with their places. -/
def functionsIn (p : Program) (uri : Uri) (kinds : List FunctionKind) :
    List (Nat × CompiledFunction) :=
  entries p.functions fun f => kinds.contains f.kind && f.file == some uri

/-- The structs in a file, with their places. -/
def structsIn (p : Program) (uri : Uri) : List (Nat × CompiledStruct) :=
  entries p.structs fun s => s.definition.file == some uri

/-- The aliases in a file, with their places. -/
def aliasesIn (p : Program) (uri : Uri) : List (Nat × CompiledAlias) :=
  entries p.aliases fun a => a.definition.file == some uri

/-- The function in a file whose name stands under a position. -/
def functionAt? (p : Program) (uri : Uri) (position : Position) (kinds : List FunctionKind) :
    Option (Nat × CompiledFunction) :=
  (p.functionsIn uri kinds).find? fun (_, f) => f.definition.name.range.contains position

/-- The struct in a file whose name stands under a position. -/
def structAt? (p : Program) (uri : Uri) (position : Position) : Option (Nat × CompiledStruct) :=
  (p.structsIn uri).find? fun (_, s) => s.definition.name.range.contains position

end Program

end LanguageServer
