import LanguageServer.Syntax

/-!
# Walking through syntax trees

Everything inside a statement, parents before children and siblings in the order of the source.

* `Node`: a statement or an expression; an expression statement counts as its expression;
* `Expr.descendants`, `Statement.descendants`: the walk;
* `Statement.nested`, `SourceFile.allStatements`: statements only;
* `SourceFile.writtenTypes`: the types written in a file.
-/

namespace LanguageServer

mutual

/-- An expression and every expression inside it. The size in a written type does not count. -/
def Expr.descendants : Expr → List Expr
  | .int n v => [.int n v]
  | .float n v => [.float n v]
  | .character n v => [.character n v]
  | .text n v => [.text n v]
  | .name n t r => [.name n t r]
  | .field n object t r => .field n object t r :: object.descendants
  | .call n callee arguments commas brackets r =>
    .call n callee arguments commas brackets r ::
      (callee.descendants ++ Expr.descendantsOf arguments)
  | .binary n left op right r =>
    .binary n left op right r :: (left.descendants ++ right.descendants)
  | .unary n op operand r => .unary n op operand r :: operand.descendants
  | .new n keyword type => [.new n keyword type]
  | .construct n keyword type arguments commas brackets r =>
    .construct n keyword type arguments commas brackets r :: Expr.descendantsOf arguments
  | .cast n value type brackets => .cast n value type brackets :: value.descendants
  | .reinterpret n value keyword type => .reinterpret n value keyword type :: value.descendants
  | .index n object key brackets r =>
    .index n object key brackets r :: (object.descendants ++ key.descendants)
  | .missing n => [.missing n]

/-- The expressions of a list, each with those inside it. -/
def Expr.descendantsOf : List Expr → List Expr
  | [] => []
  | e :: es => e.descendants ++ Expr.descendantsOf es

end

/-- A node of a walk. -/
inductive Node
  | statement (s : Statement)
  | expr (e : Expr)

namespace Node

/-- The span of a node. -/
def range : Node → Range
  | .statement s => s.range
  | .expr e => e.range

/-- The type that the compiler found for a node. -/
def type? : Node → Option Ty
  | .statement (.variable d) => d.type
  | .statement _ => none
  | .expr e => e.type?

/-- The definition that a node refers to. -/
def reference? : Node → Option Reference
  | .statement _ => none
  | .expr e => e.reference?

/-- The type that is written in a node itself. -/
def typeSyntax? : Node → Option TypeSyntax
  | .statement (.variable d) => some d.typeSyntax
  | .statement _ => none
  | .expr e => e.typeSyntax?

end Node

/-- The expressions of a list, each with those inside it, as nodes. -/
def exprNodes (es : List Expr) : List Node := (Expr.descendantsOf es).map .expr

mutual

/-- A statement and everything inside it. -/
def Statement.descendants : Statement → List Node
  | .expr e => exprNodes [e]
  | .variable d => .statement (.variable d) :: exprNodes d.initial.toList
  | .keyword word arguments r => .statement (.keyword word arguments r) :: exprNodes arguments
  | .block brackets body r => .statement (.block brackets body r) :: Statement.descendantsOf body
  | .branch word condition body otherwise r =>
    .statement (.branch word condition body otherwise r) ::
      (exprNodes condition.toList ++ body.descendants ++ Statement.descendantsIf otherwise)

/-- The statements of a list, each with everything inside it. -/
def Statement.descendantsOf : List Statement → List Node
  | [] => []
  | s :: ss => s.descendants ++ Statement.descendantsOf ss

/-- A statement that may be there, with everything inside it. -/
def Statement.descendantsIf : Option Statement → List Node
  | none => []
  | some s => s.descendants

end

mutual

/-- A statement and every statement inside it. -/
def Statement.nested : Statement → List Statement
  | .expr e => [.expr e]
  | .variable d => [.variable d]
  | .keyword word arguments r => [.keyword word arguments r]
  | .block brackets body r => .block brackets body r :: Statement.nestedOf body
  | .branch word condition body otherwise r =>
    .branch word condition body otherwise r :: (body.nested ++ Statement.nestedIf otherwise)

/-- The statements of a list, each with those inside it. -/
def Statement.nestedOf : List Statement → List Statement
  | [] => []
  | s :: ss => s.nested ++ Statement.nestedOf ss

/-- A statement that may be there, with those inside it. -/
def Statement.nestedIf : Option Statement → List Statement
  | none => []
  | some s => s.nested

end

namespace SourceFile

/-- Every statement of a file, each after the one it stands in. -/
def allStatements (f : SourceFile) : List Statement := Statement.nestedOf f.roots

/-- The types that are written in a file, those inside others left out: at functions, at fields, at
aliases, and then inside statements. -/
def writtenTypes (f : SourceFile) : List TypeSyntax :=
  (f.functions.flatMap fun d => d.result :: d.parameters.map (·.typeSyntax)) ++
    (f.structs.flatMap fun d => d.fields.map (·.typeSyntax)) ++
    f.aliases.map (·.value) ++
    (Statement.descendantsOf f.roots).filterMap Node.typeSyntax?

end SourceFile

end LanguageServer
