import LanguageServer.Query.Lookup

/-!
# Symbols

What a reference stands for, and how it is described.

* `Symbol`, `Symbol.resolve?`: the entry of the tables that a reference means;
* `Symbol.render`: one line in the words of the source;
* `Symbol.definition?`: where its name is declared;
* `Symbol.anchor?`: where its documentation ends.
-/

namespace LanguageServer

/-- What a reference stands for. -/
inductive Symbol
  | function (f : CompiledFunction) (arguments : Option (List (String × Ty)))
  | struct (s : CompiledStruct)
  | field (s : CompiledStruct) (f : CompiledField)
  | parameter (f : CompiledFunction) (p : CompiledParameter)
  | variable (v : VariableReference)
  | constant (c : CompiledConstant)
  | alias (a : CompiledAlias)

namespace Symbol

/-- The entry of the tables that a reference means, if there is one. -/
def resolve? (program : Program) : Reference → Option Symbol
  | .function index arguments => program.functions[index]?.map (.function · arguments)
  | .struct index => program.structs[index]?.map .struct
  | .field owner index =>
    program.structs[owner]?.bind fun s => s.fields[index]?.map (.field s)
  | .parameter owner index =>
    program.functions[owner]?.bind fun f => f.parameters[index]?.map (.parameter f)
  | .variable v => some (.variable v)
  | .constant index => program.constants[index]?.map .constant
  | .alias index => program.aliases[index]?.map .alias

/-- A type, with template parameters replaced if there are arguments for them. -/
def instantiate (arguments : Option (List (String × Ty))) (ty : Ty) : Ty :=
  match arguments with
  | none => ty
  | some arguments => ty.substitute arguments

/-- The template arguments of a function, or else its template parameters; nothing if there are
none. -/
def templateText (f : CompiledFunction) (arguments : Option (List (String × Ty))) : String :=
  let inAngles (names : List String) : String :=
    if names.isEmpty then "" else "<" ++ String.intercalate ", " names ++ ">"
  match arguments with
  | some (a :: as) => inAngles ((a :: as).map (·.2.display))
  | _ => inAngles ((f.definition.template.getD []).map (·.content))

/-- A function in one line. -/
def renderFunction (f : CompiledFunction) (arguments : Option (List (String × Ty))) : String :=
  let parameter (p : CompiledParameter) : String :=
    Keyword.modifierText p.definition.modifiers false ++ (instantiate arguments p.type).display ++
      " " ++ p.definition.name.content
  Keyword.modifierText f.definition.modifiers true ++ (instantiate arguments f.result).display ++
    " " ++ f.name ++ templateText f arguments ++
    "(" ++ String.intercalate ", " (f.parameters.map parameter) ++ ")"

/-- The word for a variable. -/
def variableLabel (modifiers : List Token) : String :=
  if Keyword.isAmong Keyword.constant modifiers then "(constant)" else "(variable)"

/-- A symbol in one line. -/
def render : Symbol → String
  | .function f arguments => renderFunction f arguments
  | .struct s => Keyword.modifierText s.definition.modifiers false ++ "struct " ++ s.name
  | .field _ f => "(field) " ++ f.type.display ++ " " ++ f.definition.name.content
  | .parameter _ p =>
    "(parameter) " ++ Keyword.modifierText p.definition.modifiers false ++ p.type.display ++ " " ++
      p.definition.name.content
  | .variable v =>
    variableLabel v.modifiers ++ " " ++ Keyword.modifierText v.modifiers false ++ v.type.display ++
      " " ++ v.name.content
  | .constant c =>
    "(constant) " ++ c.type.display ++ " " ++ c.name.content ++ " = " ++ c.value.display
  | .alias a =>
    Keyword.modifierText a.definition.modifiers false ++ "alias " ++ a.definition.name.content

/-- The file and the name of a symbol. -/
def declaration : Symbol → Option Uri × Token
  | .function f _ => (f.definition.file, f.definition.name)
  | .struct s => (s.definition.file, s.definition.name)
  | .field s f => (s.definition.file, f.definition.name)
  | .parameter f p => (f.definition.file, p.definition.name)
  | .variable v => (v.file, v.name)
  | .constant c => (c.file, c.name)
  | .alias a => (a.definition.file, a.definition.name)

/-- Where the name of a symbol is declared. -/
def definition? (s : Symbol) : Option Location :=
  s.declaration.1.map (⟨·, s.declaration.2.range⟩)

/-- Where a definition starts, its first attribute included. -/
def startOf (attributes : List AttributeUse) (range : Range) : Position :=
  match attributes with
  | [] => range.start
  | a :: _ => a.range.start.min range.start

/-- Where the documentation of a symbol ends; parameters and variables have none. -/
def anchor? : Symbol → Option Location
  | .function f _ =>
    f.definition.file.map (⟨·, .point (startOf f.definition.attributes f.definition.range)⟩)
  | .struct s =>
    s.definition.file.map (⟨·, .point (startOf s.definition.attributes s.definition.range)⟩)
  | .field s f => s.definition.file.map (⟨·, .point f.definition.range.start⟩)
  | .constant c => c.file.map (⟨·, .point c.range.start⟩)
  | .alias a => a.definition.file.map (⟨·, .point a.definition.range.start⟩)
  | .parameter _ _ | .variable _ => none

end Symbol

end LanguageServer
