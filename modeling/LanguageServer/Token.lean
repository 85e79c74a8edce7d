import LanguageServer.Position

/-!
# Tokens

* `TokenKind`: the lexical class of a token;
* `Meaning`: what the compiler decided that a token means;
* `Token`, `tokenAt?`: a token, and the one under a position.
-/

namespace LanguageServer

/-- The lexical class of a token. The content of a comment leaves out its marks, and that of a literal
its quotes; `skipped` is source that a condition excluded. -/
inductive TokenKind
  | identifier
  | number
  | hexNumber
  | binaryNumber
  | floatNumber
  | text
  | character
  | operator
  | comment
  | blockComment
  | directive
  | directiveArgument
  | skipped
  | blank
  | lineBreak
  deriving DecidableEq, Repr, Inhabited

namespace TokenKind

/-- The classes with their names in exchanged data. -/
def names : List (String × TokenKind) :=
  [("Identifier", .identifier), ("LiteralNumber", .number), ("LiteralHex", .hexNumber),
    ("LiteralBinary", .binaryNumber), ("LiteralFloat", .floatNumber), ("LiteralString", .text),
    ("LiteralCharacter", .character), ("Operator", .operator), ("Comment", .comment),
    ("CommentMultiline", .blockComment), ("PreprocessIdentifier", .directive),
    ("PreprocessArgument", .directiveArgument), ("PreprocessSkipped", .skipped),
    ("Whitespace", .blank), ("LineBreak", .lineBreak)]

/-- The class of a name. -/
def ofName? (name : String) : Option TokenKind := (names.find? (·.1 == name)).map (·.2)

/-- The name of a class. -/
def name (k : TokenKind) : String := ((names.find? (·.2 == k)).map (·.1)).getD ""

theorem ofName?_name (k : TokenKind) : ofName? k.name = some k := by cases k <;> rfl

end TokenKind

/-- What the compiler decided that a token means. -/
inductive Meaning
  | unknown
  | attribute
  | type
  | typeAlias
  | struct
  | function
  | variable
  | constant
  | parameter
  | typeParameter
  | keyword
  | field
  | compileTag
  | compileTagParameter
  | statement
  | builtinType
  | mathOperator
  | otherOperator
  | typeModifier
  | label
  deriving DecidableEq, Repr, Inhabited

namespace Meaning

/-- The meanings with their names in exchanged data. -/
def names : List (String × Meaning) :=
  [("None", .unknown), ("Attribute", .attribute), ("Type", .type), ("TypeAlias", .typeAlias),
    ("Struct", .struct), ("FunctionName", .function), ("VariableName", .variable),
    ("ConstantName", .constant), ("ParameterName", .parameter), ("TypeParameter", .typeParameter),
    ("Keyword", .keyword), ("FieldName", .field), ("CompileTag", .compileTag),
    ("CompileTagParameter", .compileTagParameter), ("Statement", .statement),
    ("BuiltinType", .builtinType), ("MathOperator", .mathOperator),
    ("OtherOperator", .otherOperator), ("TypeModifier", .typeModifier),
    ("InstructionLabel", .label)]

/-- The meaning of a name. -/
def ofName? (name : String) : Option Meaning := (names.find? (·.1 == name)).map (·.2)

/-- The name of a meaning. -/
def name (m : Meaning) : String := ((names.find? (·.2 == m)).map (·.1)).getD ""

theorem ofName?_name (m : Meaning) : ofName? m.name = some m := by cases m <;> rfl

end Meaning

/-- A token with its place. -/
structure Token where
  kind : TokenKind
  meaning : Meaning
  content : String
  range : Range
  deriving DecidableEq, Repr, Inhabited

/-- Whether a token is a number of any form. -/
def Token.isNumeric (t : Token) : Bool :=
  match t.kind with
  | .number | .hexNumber | .binaryNumber | .floatNumber => true
  | _ => false

/-- The first token under a position. -/
def tokenAt? (tokens : List Token) (p : Position) : Option Token :=
  tokens.find? (·.range.contains p)

end LanguageServer
