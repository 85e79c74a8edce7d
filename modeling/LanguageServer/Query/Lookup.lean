import LanguageServer.Program

/-!
# What stands under a position

* `statementAt?`: the innermost statement;
* `Node.interactiveRange`: the part of a node that means the node itself;
* `nodesAt`, `referenceAt?`: the nodes there, and the innermost one that refers to a definition;
* `narrow`: the part of a written type, along with the part of its meaning;
* `typeAt?`: the written type there, with its meaning.
-/

namespace LanguageServer

/-- The innermost statement under a position: of all of them, the one that is listed last. -/
def statementAt? (file : SourceFile) (p : Position) : Option Statement :=
  file.allStatements.reverse.find? (·.range.contains p)

/-- The part of an expression that a reader points at to mean it: the name of what is called or
selected, the sign of an operator, the type of a conversion. -/
def Expr.interactiveRange : Expr → Range
  | .call _ (.field _ _ token _) _ _ _ _ => token.range
  | .call _ callee _ _ _ _ => callee.range
  | .binary _ _ token _ _ | .unary _ token _ _ | .field _ _ token _ => token.range
  | .construct _ keyword written _ _ _ _ => keyword.range.union written.range
  | .cast _ _ written brackets => written.range.union brackets.range
  | e => e.range

/-- The part of a node that a reader points at to mean it. -/
def Node.interactiveRange : Node → Range
  | .expr e => e.interactiveRange
  | .statement (.variable d) => d.name.range
  | .statement s => s.range

/-- The nodes of the statement under a position that are meant there, outermost first. -/
def nodesAt (file : SourceFile) (p : Position) : List Node :=
  match statementAt? file p with
  | none => []
  | some s =>
    s.descendants.filter fun node => node.range.contains p && node.interactiveRange.contains p

/-- The innermost node under a position that refers to a definition. -/
def referenceAt? (file : SourceFile) (p : Position) : Option (Node × Reference) :=
  (nodesAt file p).reverse.findSome? fun node => node.reference?.map (node, ·)

mutual

/-- The part of a written type under a position, with the part of the type that it means. Aliases are
seen through on the way down; the part that is reached keeps its alias. -/
def narrow (p : Position) : TypeSyntax → Ty → TypeSyntax × Ty
  | .named name r, ty => (.named name r, ty)
  | .applied name arguments r, ty =>
    match ty.resolve with
    | .struct _ _ own =>
      (narrowFirst p arguments (own.map (·.2))).getD (.applied name arguments r, ty)
    | _ => (.applied name arguments r, ty)
  | .pointer target operator r, ty =>
    match ty.resolve with
    | .pointer meant =>
      if target.range.contains p then narrow p target meant else (.pointer target operator r, ty)
    | _ => (.pointer target operator r, ty)
  | .array element size brackets inferred r, ty =>
    match ty.resolve with
    | .array of _ =>
      if element.range.contains p then narrow p element of
      else (.array element size brackets inferred r, ty)
    | _ => (.array element size brackets inferred r, ty)
  | .function result parameters brackets r, ty =>
    match ty.resolve with
    | .function meant types =>
      if parameters.length = types.length then
        if result.range.contains p then narrow p result meant
        else (narrowFirst p parameters types).getD (.function result parameters brackets r, ty)
      else (.function result parameters brackets r, ty)
    | _ => (.function result parameters brackets r, ty)
  | .missing r, ty => (.missing r, ty)

/-- `narrow` on the first written type under a position. -/
def narrowFirst (p : Position) : List TypeSyntax → List Ty → Option (TypeSyntax × Ty)
  | s :: ss, t :: ts => if s.range.contains p then some (narrow p s t) else narrowFirst p ss ts
  | _, _ => none

end

/-- The types written at the definitions of a file, with their meanings: at functions parameters come
before the result, which special members do not show. -/
def declaredTypes (program : Program) (file : Uri) : List (TypeSyntax × Ty) :=
  ((program.functions.filter (·.file == some file)).flatMap fun f =>
    f.parameters.map (fun q => (q.definition.typeSyntax, q.type)) ++
      if f.kind == .general then [] else [(f.definition.result, f.result)]) ++
  ((program.structsIn file).flatMap fun (_, s) =>
    s.fields.map fun field => (field.definition.typeSyntax, field.type)) ++
  (program.aliasesIn file).map fun (_, a) => (a.definition.value, a.value)

/-- The types written in a statement and under a position, with their meanings. -/
def statedTypes (s : Statement) (p : Position) : List (TypeSyntax × Ty) :=
  s.descendants.filterMap fun node =>
    match node.typeSyntax?, node.type? with
    | some written, some ty =>
      if node.range.contains p && written.range.contains p then some (written, ty) else none
    | _, _ => none

/-- The written type under a position, with its meaning: the first at a definition, or else the
innermost in a statement. -/
def typeAt? (program : Program) (tree : SourceFile) (file : Uri) (p : Position) :
    Option (TypeSyntax × Ty) :=
  match (declaredTypes program file).find? (·.1.range.contains p) with
  | some (written, ty) => some (narrow p written ty)
  | none => do
    let s ← statementAt? tree p
    let (written, ty) ← (statedTypes s p).getLast?
    let found := narrow p written ty
    if found.1.range.contains p then some found else none

end LanguageServer
