import LanguageServer.Syntax.Walk

/-!
# The parts of a node

What stands directly in a statement or an expression, in the order of the source. Most parts are nodes of a
walk. Some expressions stand aside: the sizes in a written type, and the parameters of attributes.

* `Expr.operands`, `Statement.operands`, `Statement.inner`: the nodes of a walk in a node;
* `TypeSyntax.sizes`, `Expr.asides`, `Statement.asides`: the expressions aside;
* `Piece`, `Node.pieces`: all of them in order;
* `Node.parts`, `Node.children`, `Node.asides`: the same without the distinction, and each kind alone.
-/

namespace LanguageServer

/-! ### Expressions -/

mutual

/-- The expressions in a written type: the sizes of arrays. -/
def TypeSyntax.sizes : TypeSyntax → List Expr
  | .named _ _ | .missing _ => []
  | .applied _ arguments _ => TypeSyntax.sizesOf arguments
  | .pointer target _ _ => target.sizes
  | .array element size _ _ _ => element.sizes ++ size.toList
  | .function result parameters _ _ => result.sizes ++ TypeSyntax.sizesOf parameters

/-- The expressions in a list of written types. -/
def TypeSyntax.sizesOf : List TypeSyntax → List Expr
  | [] => []
  | t :: ts => t.sizes ++ TypeSyntax.sizesOf ts

end

namespace Expr

/-- The expressions that an expression is applied to. -/
def operands : Expr → List Expr
  | .field _ object _ _ => [object]
  | .call _ callee arguments _ _ _ => callee :: arguments
  | .binary _ left _ right _ => [left, right]
  | .unary _ _ operand _ => [operand]
  | .construct _ _ _ arguments _ _ _ => arguments
  | .cast _ value _ _ | .reinterpret _ value _ _ => [value]
  | .index _ object key _ _ => [object, key]
  | .int _ _ | .float _ _ | .character _ _ | .text _ _ | .name _ _ _ | .new _ _ _ | .missing _ => []

/-- The expressions in the type that is written in an expression. -/
def asides (e : Expr) : List Expr := (e.typeSyntax?.map (·.sizes)).getD []

end Expr

/-! ### Statements -/

namespace Statement

/-- The node of a statement. -/
def node : Statement → Node
  | .expr e => .expr e
  | s => .statement s

/-- The expressions directly in a statement. -/
def operands : Statement → List Expr
  | .expr e => [e]
  | .variable d => d.initial.toList
  | .keyword _ arguments _ => arguments
  | .block _ _ _ => []
  | .branch _ condition _ _ _ => condition.toList

/-- The expressions in the attributes and in the type of a declaration. -/
def asides : Statement → List Expr
  | .variable d => d.attributes.flatMap (·.parameters) ++ d.typeSyntax.sizes
  | _ => []

/-- The statements directly in a statement. -/
def inner : Statement → List Statement
  | .block _ body _ => body
  | .branch _ _ body otherwise _ => body :: otherwise.toList
  | _ => []

end Statement

/-! ### Parts in order -/

/-- A part of a node: a node of the walk, or an expression aside. -/
inductive Piece
  | main (node : Node)
  | aside (e : Expr)

namespace Piece

/-- The node that a part is. -/
def node : Piece → Node
  | .main node => node
  | .aside e => .expr e

/-- A part that is a node of the walk. -/
def main? : Piece → Option Node
  | .main node => some node
  | .aside _ => none

/-- A part that stands aside. -/
def aside? : Piece → Option Expr
  | .main _ => none
  | .aside e => some e

end Piece

/-- The parts of an expression. The type of a reinterpretation stands after its value, and any other type
before the operands. -/
def Expr.pieces (e : Expr) : List Piece :=
  let operands : List Piece := e.operands.map fun a => .main (.expr a)
  match e with
  | .reinterpret _ _ _ _ => operands ++ e.asides.map .aside
  | _ => e.asides.map .aside ++ operands

/-- The parts of a statement. -/
def Statement.pieces (s : Statement) : List Piece :=
  s.asides.map .aside ++ (s.operands.map fun e => .main (.expr e)) ++ s.inner.map fun t => .main t.node

namespace Node

/-- The parts of a node. -/
def pieces : Node → List Piece
  | .statement s => s.pieces
  | .expr e => e.pieces

/-- Everything that stands directly in a node. -/
def parts (n : Node) : List Node := n.pieces.map (·.node)

/-- The nodes of the walk that stand directly in a node. -/
def children (n : Node) : List Node := n.pieces.filterMap (·.main?)

/-- The expressions that stand aside in a node. -/
def asides (n : Node) : List Expr := n.pieces.filterMap (·.aside?)

end Node

end LanguageServer
