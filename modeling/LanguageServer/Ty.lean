import LanguageServer.Keyword

/-!
# Types

Types as the compiler resolved them.

* `Ty`: the types; an alias is seen through by everything that asks for structure;
* `Ty.resolve`: the type behind aliases;
* `Ty.sameAs`: equality of structure, aliases transparent at every depth;
* `Ty.substitute`: template parameters replaced by their arguments;
* `Ty.display`: the written form.
-/

namespace LanguageServer

/-- A type. A struct and an alias carry the place of their definition in the tables of the compiler's
result; template arguments go with the names of the parameters they stand for. -/
inductive Ty
  | builtin (b : BuiltinType)
  | struct (index : Nat) (name : String) (arguments : List (String × Ty))
  | pointer (target : Ty)
  | array (element : Ty) (length : Option Nat)
  | function (result : Ty) (parameters : List Ty)
  | generic (name : String) (definition : Option Location)
  | alias (index : Option Nat) (name : String) (value : Ty) (definition : Option Location)
  deriving Inhabited

namespace Ty

/-- The type behind aliases. -/
def resolve : Ty → Ty
  | .alias _ _ value _ => value.resolve
  | t => t

/-- What a pointer points to. -/
def target? (t : Ty) : Option Ty :=
  match t.resolve with
  | .pointer target => some target
  | _ => none

/-- The place, name and arguments of a struct. -/
def struct? (t : Ty) : Option (Nat × String × List (String × Ty)) :=
  match t.resolve with
  | .struct index name arguments => some (index, name, arguments)
  | _ => none

mutual

/-- Equality of structure. Structs are equal by place and arguments, template parameters by name. -/
def sameAs : Ty → Ty → Bool
  | .alias _ _ value _, t => value.sameAs t
  | .builtin a, t =>
    match t.resolve with
    | .builtin b => a == b
    | _ => false
  | .struct i _ as, t =>
    match t.resolve with
    | .struct j _ bs => i == j && sameArguments as bs
    | _ => false
  | .pointer a, t =>
    match t.resolve with
    | .pointer b => a.sameAs b
    | _ => false
  | .array a m, t =>
    match t.resolve with
    | .array b n => m == n && a.sameAs b
    | _ => false
  | .function r ps, t =>
    match t.resolve with
    | .function s qs => r.sameAs s && sameTypes ps qs
    | _ => false
  | .generic a _, t =>
    match t.resolve with
    | .generic b _ => a == b
    | _ => false

/-- Equality of template arguments, whatever the names of their parameters. -/
def sameArguments : List (String × Ty) → List (String × Ty) → Bool
  | [], [] => true
  | (_, a) :: as, (_, b) :: bs => a.sameAs b && sameArguments as bs
  | _, _ => false

/-- Equality of lists of types. -/
def sameTypes : List Ty → List Ty → Bool
  | [], [] => true
  | a :: as, b :: bs => a.sameAs b && sameTypes as bs
  | _, _ => false

end

/-- The argument of a template parameter. -/
def lookup (arguments : List (String × Ty)) (name : String) : Option Ty :=
  (arguments.find? (·.1 == name)).map (·.2)

mutual

/-- The type with every template parameter replaced that has an argument; the value of an alias is
left as it is. -/
def substitute (arguments : List (String × Ty)) : Ty → Ty
  | .generic name definition => (lookup arguments name).getD (.generic name definition)
  | .struct index name own => .struct index name (substituteArguments arguments own)
  | .pointer target => .pointer (target.substitute arguments)
  | .array element length => .array (element.substitute arguments) length
  | .function result parameters =>
    .function (result.substitute arguments) (substituteTypes arguments parameters)
  | .builtin b => .builtin b
  | .alias index name value definition => .alias index name value definition

/-- `substitute` on template arguments. -/
def substituteArguments (arguments : List (String × Ty)) :
    List (String × Ty) → List (String × Ty)
  | [] => []
  | (name, t) :: rest => (name, t.substitute arguments) :: substituteArguments arguments rest

/-- `substitute` on a list of types. -/
def substituteTypes (arguments : List (String × Ty)) : List Ty → List Ty
  | [] => []
  | t :: rest => t.substitute arguments :: substituteTypes arguments rest

end

mutual

/-- The written form of a type. -/
def display : Ty → String
  | .builtin b => b.keyword
  | .struct _ name [] => name
  | .struct _ name (a :: as) =>
    name ++ "<" ++ String.intercalate ", " (displayArguments (a :: as)) ++ ">"
  | .pointer target => target.display ++ "*"
  | .array element none => element.display ++ "[]"
  | .array element (some n) => element.display ++ "[" ++ toString n ++ "]"
  | .function result parameters =>
    result.display ++ "(" ++ String.intercalate ", " (displayTypes parameters) ++ ")"
  | .generic name _ => name
  | .alias _ name _ _ => name

/-- The written forms of template arguments. -/
def displayArguments : List (String × Ty) → List String
  | [] => []
  | (_, t) :: rest => t.display :: displayArguments rest

/-- The written forms of a list of types. -/
def displayTypes : List Ty → List String
  | [] => []
  | t :: rest => t.display :: displayTypes rest

end

/-- A type in front of a value, in parentheses; nothing if the type is not known. -/
def cast (t : Option Ty) : String :=
  match t with
  | none => ""
  | some t => "(" ++ t.display ++ ") "

end Ty

end LanguageServer
