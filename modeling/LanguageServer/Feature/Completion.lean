import LanguageServer.Query.Lookup
import LanguageServer.Snapshot
import LanguageServer.Protocol.Answer

/-!
# Completions

What the editor offers depends on where the cursor is: the builtin attributes, the files of an
import, the members of an object, types, or everything that may stand in an expression.

* `Overloads`: functions grouped by name, in order;
* `memberItems`: the fields and extension functions of an object;
* `typeItems`, `expressionItems`, `keywordItems`;
* `attributeItems?`, `importItems?`, `nodeItems?`: what a position asks for;
* `completions`: the offer.
-/

namespace LanguageServer

/-! ### Overloads -/

/-- The items of every name, names in order. -/
abbrev Overloads (α : Type) := List (String × List α)

/-- The groups with one more item, after those of its name. -/
def Overloads.insert {α : Type} (name : String) (a : α) : Overloads α → Overloads α
  | [] => [(name, [a])]
  | (n, as) :: rest =>
    if name = n then (n, as ++ [a]) :: rest
    else if name < n then (name, [a]) :: (n, as) :: rest
    else (n, as) :: Overloads.insert name a rest

/-- The groups of a list of named items. -/
def Overloads.ofList {α : Type} (items : List (String × α)) : Overloads α :=
  items.foldl (fun groups (name, a) => Overloads.insert name a groups) []

/-- The completions of functions grouped by name: one alone shows its result, several their
number. -/
def Overloads.items {α : Type} (result : α → String) (groups : Overloads α) : List CompletionItem :=
  groups.map fun (name, as) =>
    let description := match as with
      | [] => none
      | [a] => some (result a)
      | as => some (toString as.length ++ " overloads")
    ⟨name, .function, some ⟨none, description⟩⟩

/-! ### Members -/

/-- The types that a type points to, one after the other. -/
def Ty.targets : Ty → List Ty
  | .alias _ _ value _ => value.targets
  | .pointer target => target :: target.targets
  | _ => []

/-- The types on which the members of an object may be defined: the pointer to it, its own, and those
it points to. -/
def memberTypes (object : Ty) : List Ty := .pointer object :: object :: object.targets

/-- The fields of a type that is a struct. -/
def fieldItems (program : Program) (ty : Ty) : List CompletionItem :=
  match ty.struct? with
  | none => []
  | some (index, _, arguments) =>
    ((program.structs[index]?.map (·.fields)).getD []).map fun f =>
      ⟨f.definition.name.content, .field, some ⟨none, some (f.type.substitute arguments).display⟩⟩

/-- Whether a function is called on objects of a type. -/
def CompiledFunction.extends (f : CompiledFunction) (ty : Ty) : Bool :=
  match f.parameters.head? with
  | none => false
  | some this => this.definition.isReceiver && this.type.sameAs ty

/-- The template arguments under which a function is called on objects of a type: those of the
struct that the function belongs to. -/
def receiverArguments (f : CompiledFunction) (ty : Ty) : Option (List (String × Ty)) :=
  match ty.struct? with
  | some (_, name, arguments) => if f.definition.context == some name then some arguments else none
  | none => none

/-- The functions that can be called on objects of a type, by name, with their template arguments. -/
def extensionsOf (s : Snapshot) (ty : Ty) :
    List (String × CompiledFunction × Option (List (String × Ty))) :=
  (s.program.functions.filter fun f =>
    f.kind == .function && f.isUsableFrom s.uri && f.extends ty).map fun f =>
      (f.name, f, receiverArguments f ty)

/-- The fields and extension functions of an object. -/
def memberItems (s : Snapshot) (object : Ty) : List CompletionItem :=
  (memberTypes object).flatMap (fieldItems s.program) ++
    (Overloads.ofList ((memberTypes object).flatMap (extensionsOf s))).items
      fun (f, arguments) =>
        match arguments with
        | some arguments => (f.result.substitute arguments).display
        | none => f.result.display

/-! ### Names -/

/-- A completion without details. -/
def plainItem (kind : CompletionKind) (label : String) : CompletionItem := ⟨label, kind, none⟩

/-- The types that the document may use: structs, aliases, builtin types. -/
def typeItems (s : Snapshot) : List CompletionItem :=
  (s.program.structs.filter (·.isUsableFrom s.uri)).map (fun t => plainItem .struct t.name) ++
  (s.program.aliases.filter (·.isUsableFrom s.uri)).map (fun a =>
    ⟨a.definition.name.content, .classLike, some ⟨some (" = " ++ a.value.display), none⟩⟩) ++
  Keyword.types.map (plainItem .keyword)

/-- The variables at the top of files that the document may use. -/
def variableItems (s : Snapshot) : List CompletionItem :=
  s.program.topStatements.filterMap fun (_, statement) =>
    match statement with
    | .variable d =>
      if d.isUsableFrom s.uri then
        some (plainItem (if d.isConstant then .constant else .variable) d.name.content)
      else none
    | _ => none

/-- The parameters of the function whose body holds a position. -/
def parameterItems (s : Snapshot) (p : Position) : List CompletionItem :=
  let enclosing := (s.program.functionsIn s.uri [.function]).find? fun (_, f) =>
    f.definition.body.any (·.range.contains p)
  match enclosing with
  | none => []
  | some (_, f) =>
    f.parameters.map fun q => ⟨q.definition.name.content, .variable, some ⟨none, some q.type.display⟩⟩

/-- What may stand in an expression: functions, variables, parameters. -/
def expressionItems (s : Snapshot) (p : Position) : List CompletionItem :=
  let functions := s.program.functions.filter fun f => f.kind == .function && f.isUsableFrom s.uri
  (Overloads.ofList (functions.map fun f => (f.name, f))).items (·.result.display) ++
    variableItems s ++ parameterItems s p

/-- The keywords. -/
def keywordItems : List CompletionItem :=
  (Keyword.declarations ++ Keyword.protections ++ Keyword.modifiers ++ Keyword.statements).map
    (plainItem .keyword)

/-! ### Places -/

/-- The attributes of a file: at aliases, structs, functions and variables. -/
def SourceFile.attributeUses (f : SourceFile) : List AttributeUse :=
  f.aliases.flatMap (·.attributes) ++ f.structs.flatMap (·.attributes) ++
    f.functions.flatMap (·.attributes) ++
    f.allStatements.flatMap fun
      | .variable d => d.attributes
      | _ => []

/-- What an attribute under a position asks for: the builtin attributes on its name, and nothing in
its brackets. -/
def attributeItems? (s : Snapshot) (p : Position) : Option (List CompletionItem) :=
  s.syntaxTree.attributeUses.findSome? fun a =>
    if a.name.range.contains p then some (Keyword.attributes.map fun (n, _) => plainItem .classLike n)
    else if a.brackets.any (·.range.contains p) then some []
    else none

/-- The folders and source files beside a file. -/
def siblingItems (fs : Files) (candidate : Uri) : List CompletionItem :=
  let listed := do fs.list? (← (← candidate.toFilePath?).parent?)
  (listed.getD []).filterMap fun (name, entry) =>
    match entry with
    | .directory => some (plainItem .folder name)
    | .file _ => (Text.dropEnd? Keyword.sourceSuffix name).map (plainItem .file)

/-- What an import asks for, if a position is after its keyword. -/
def importItems? (fs : Files) (s : Snapshot) (p : Position) : Option (List CompletionItem) :=
  (s.syntaxTree.usings.find? fun u => u.range.contains p && u.keyword.range.stop.lt p).map fun u =>
    (s.importCandidates u.pathText).flatMap (siblingItems fs)

/-- What a node asks for: members after an object, types after the keyword of a creation, and
expressions where one is missing. -/
def nodeItems? (s : Snapshot) (p : Position) : Node → Option (List CompletionItem)
  | .expr (.field _ object name _) =>
    if name.range.contains p then object.type?.map (memberItems s) else none
  | .expr (.new _ _ type) => if type.range.contains p then some (typeItems s) else none
  | .expr (.missing _) => some (expressionItems s p)
  | _ => none

/-- What the first node under a position asks for that asks for something. -/
def statementItems? (s : Snapshot) (p : Position) : Option (List CompletionItem) :=
  (statementAt? s.syntaxTree p).bind fun statement =>
    (statement.descendants.filter (·.range.contains p)).findSome? (nodeItems? s p)

/-- The offer at a position. -/
def completions (fs : Files) (s : Snapshot) (p : Position) : List CompletionItem :=
  (attributeItems? s p <|> importItems? fs s p <|> statementItems? s p).getD
    (expressionItems s p ++ typeItems s ++ keywordItems)

end LanguageServer
