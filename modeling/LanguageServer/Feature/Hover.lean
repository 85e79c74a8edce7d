import LanguageServer.Query.Documentation
import LanguageServer.Protocol.Answer
import LanguageServer.Text.Radix

/-!
# Descriptions

What the editor shows about the token under the cursor: a builtin attribute, the definition whose
name it is, what the nodes there mean, the file of an import, or the meaning of a written type.

* `literalLines`: a number in every base;
* `Note`: what is known so far; an inner node replaces what an outer one said;
* `definitionSite?`: the definition whose name stands under a position;
* `hover`: the description.
-/

namespace LanguageServer

/-- What is known about a position: a definition, or else a type, and the documentation. -/
structure Note where
  definition : Option String := none
  type : Option String := none
  documentation : Option String := none

namespace Note

/-- The note with a symbol in the place of what was said before. -/
def withSymbol (n : Note) (s : Snapshot) (symbol : Symbol) : Note :=
  { n with
    definition := some symbol.render
    documentation := symbol.documentation? s }

/-- The sections of a note: code, and documentation. -/
def sections (n : Note) : List String :=
  ((n.definition.or n.type).map fun code =>
    "```" ++ Keyword.languageId ++ "\n" ++ code ++ "\n```").toList ++ n.documentation.toList

/-- The text of a note, if there is something in it. -/
def text? (n : Note) : Option String :=
  if n.sections.isEmpty then none else some (String.intercalate "\n---\n" n.sections)

end Note

/-- A number in base two, ten and sixteen and, if it is one, as a character. -/
def literalLines (ty : String) (n : Int) : List String :=
  [ty ++ "0b" ++ Text.binaryText n, ty ++ toString n, ty ++ "0x" ++ Text.hexText n] ++
    ((Text.unitChar? n).map fun c => ty ++ "'" ++ Text.asciiEscaped c ++ "'").toList

/-- The lines of a number. -/
def literalText (ty : String) (n : Int) : String := String.intercalate "\n" (literalLines ty n)

/-- What an expression says about itself, its reference apart. A builtin operator shows its operands
if all types are known. -/
def Expr.describe (n : Note) (e : Expr) : Note :=
  let ty := Ty.cast e.type?
  match e with
  | .int _ value => { n with definition := some (literalText ty value) }
  | .character _ value => { n with definition := some (literalText ty value.toNat) }
  | .float _ bits =>
    { n with definition := some (ty ++ Decimal.displayBits Decimal.single bits) }
  | .binary _ left operator right none =>
    match e.type?, left.type?, right.type? with
    | some t, some l, some r =>
      { n with
        definition := some (t.display ++ " " ++ operator.content ++ "(" ++ l.display ++ " left, " ++
          r.display ++ " right)") }
    | _, _, _ => n
  | .unary _ operator operand none =>
    match e.type?, operand.type? with
    | some t, some v =>
      { n with
        definition := some (t.display ++ " " ++ operator.content ++ "(" ++ v.display ++ " value)") }
    | _, _ => n
  | _ =>
    match e.type? with
    | some t => { n with type := some t.display }
    | none => n

/-- The declaration of a variable in one line; its written type stands in for one that is not
known. -/
def VariableDefinition.render (d : VariableDefinition) : String :=
  let ty := match d.type with
    | some t => t.display
    | none => d.typeSyntax.display
  Symbol.variableLabel d.modifiers ++ " " ++ Keyword.modifierText d.modifiers false ++ ty ++ " " ++
    d.name.content

/-- What a node says about itself, and then what it refers to. -/
def Node.describe (s : Snapshot) (n : Note) (node : Node) : Note :=
  let n := match node with
    | .expr e => e.describe n
    | .statement (.variable d) =>
      { n with
        definition := some d.render
        documentation := commentBefore? s.tokens (Symbol.startOf d.attributes d.range) }
    | .statement _ => n
  match node.reference?.bind (Symbol.resolve? s.program) with
  | some symbol => n.withSymbol s symbol
  | none => n

/-- The definition in the document whose name stands under a position: a function, a struct, a field
or a parameter. -/
def definitionSite? (s : Snapshot) (p : Position) : Option Symbol :=
  let structs := s.program.structsIn s.uri
  let functions := s.program.functionsIn s.uri FunctionKind.all
  ((s.program.functionAt? s.uri p FunctionKind.all).map fun (_, f) => .function f none) <|>
    ((s.program.structAt? s.uri p).map fun (_, t) => .struct t) <|>
    (structs.findSome? fun (_, t) =>
      (t.fields.find? (·.definition.name.range.contains p)).map (.field t)) <|>
    (functions.findSome? fun (_, f) =>
      (f.parameters.find? (·.definition.name.range.contains p)).map (.parameter f))

/-- The description of the builtin attribute under a position. -/
def attributeHover? (s : Snapshot) (p : Position) : Option Hover := do
  let f := s.syntaxTree
  let uses := f.functions.flatMap (·.attributes) ++ f.structs.flatMap (·.attributes) ++
    f.aliases.flatMap (·.attributes)
  let a ← uses.find? (·.name.range.contains p)
  let text ← Keyword.describe? a.name.content
  return ⟨text, a.name.range⟩

/-- What a written type names. -/
def typeNote? (written : TypeSyntax) (ty : Ty) : Option String :=
  match written with
  | .named _ _ | .applied _ _ _ =>
    match ty with
    | .struct _ name _ => some ("struct " ++ name)
    | .alias _ name _ _ => some ("alias " ++ name)
    | .generic name _ => some ("(generic) " ++ name)
    | _ => none
  | _ => none

/-- The nodes of a statement in turn, each with the span that means it. -/
def describeNodes (s : Snapshot) (nodes : List Node) (start : Note × Range) : Note × Range :=
  nodes.foldl (fun (n, _) node => (node.describe s n, node.interactiveRange)) start

/-- What the definitions and nodes under a position say, and the span that means it; `range` is that
of the token. -/
def noteAt (s : Snapshot) (p : Position) (range : Range) : Note × Range :=
  match definitionSite? s p with
  | some symbol => (({} : Note).withSymbol s symbol, range)
  | none =>
    match statementAt? s.syntaxTree p with
    | some _ => describeNodes s (nodesAt s.syntaxTree p) ({}, range)
    | none =>
      let found := s.syntaxTree.usings.find? fun u => (u.pathRange?.getD u.keyword.range).contains p
      match found.bind fun u => u.target.map (u, ·) with
      | some (u, target) =>
        ({ definition := some (u.keyword.content ++ " \"" ++ target.text ++ "\"") }, range)
      | none => ({}, range)

/-- The description of what stands under a position. A written type is asked for only if no type is
known yet; the span is then that of the written type, whatever is known about it. -/
def hover (s : Snapshot) (p : Position) : Option Hover := do
  let token ← tokenAt? s.tokens p
  match attributeHover? s p with
  | some h => return h
  | none =>
    let (n, range) := noteAt s p token.range
    let (n, range) :=
      match n.type, typeAt? s.program s.syntaxTree s.uri p with
      | none, some (written, ty) => ({ n with type := typeNote? written ty }, written.range)
      | _, _ => (n, range)
    return ⟨← n.text?, range⟩

end LanguageServer
