import LanguageServer.Snapshot
import LanguageServer.Query.Symbol
import LanguageServer.Protocol.Answer
import LanguageServer.Uri.Grammar

/-!
# Going to definitions

* `definitions`: from an import to its file, and from a name to its declaration;
* `typeDefinitions`: from a written type to what it names.
-/

namespace LanguageServer

/-- A link, if its target may be named to the editor. -/
def link? (origin : Range) (target : Location) : Option Link :=
  if target.file.isValid then some ⟨origin, target⟩ else none

/-- The link of the import under a position. -/
def importLink? (s : Snapshot) (p : Position) : Option Link := do
  let u ← s.syntaxTree.usings.find? (·.range.contains p)
  let file ← u.target
  link? (u.pathRange?.getD u.keyword.range) ⟨file, default⟩

/-- The link of the reference under a position. -/
def referenceLink? (s : Snapshot) (p : Position) : Option Link := do
  let (node, reference) ← referenceAt? s.syntaxTree p
  let symbol ← Symbol.resolve? s.program reference
  let target ← symbol.definition?
  link? node.interactiveRange target

/-- The links of a position. -/
def definitions (s : Snapshot) (p : Position) : List Link :=
  (importLink? s p).toList ++ (referenceLink? s p).toList

/-- The declaration that a type names: of the struct behind it, of a template parameter, or of an
alias of something else. -/
def typeLocation? (s : Snapshot) (ty : Ty) : Option Location :=
  match ty.struct? with
  | some (index, _, _) =>
    s.program.structs[index]?.bind fun t =>
      t.definition.file.map (⟨·, t.definition.name.range⟩)
  | none =>
    match ty with
    | .generic _ definition | .alias _ _ _ definition => definition
    | _ => none

/-- The part of a written type that a link starts from. -/
def TypeSyntax.linkRange : TypeSyntax → Range
  | .named name _ | .applied name _ _ => name.range
  | t => t.range

/-- The links of the written type under a position. -/
def typeDefinitions (s : Snapshot) (p : Position) : List Link :=
  let found := do
    let (written, ty) ← typeAt? s.program s.syntaxTree s.uri p
    let target ← typeLocation? s ty
    link? written.linkRange target
  found.toList

end LanguageServer
