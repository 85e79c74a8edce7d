import LanguageServer.Json.Numeral

/-!
# JSON values

* `Json`: the values; the members of an object keep their order and may repeat a name;
* `Json.find?`: the member of a name;
* `Json.distinct`: the value with one member per name, the last one written.
-/

namespace LanguageServer

/-- A JSON value. A string that holds half of a surrogate pair is `broken`, and so is an object with
such a name: it can be passed over but not read. -/
inductive Json
  | null
  | bool (b : Bool)
  | num (n : Json.Numeral)
  | str (s : String)
  | broken
  | arr (items : List Json)
  | obj (members : List (String × Json))
  deriving Inhabited

namespace Json

/-- An integer. -/
def int (i : Int) : Json := .num (.ofInt i)

/-- A natural number. -/
def nat (n : Nat) : Json := .num (.ofInt n)

/-- A value or `null`. -/
def ofOption {α : Type} (f : α → Json) : Option α → Json
  | none => .null
  | some a => f a

/-- A list of values. -/
def ofList {α : Type} (f : α → Json) (xs : List α) : Json := .arr (xs.map f)

/-- The members of an object, and none of any other value. -/
def members : Json → List (String × Json)
  | .obj ms => ms
  | _ => []

/-- The items of an array, and none of any other value. -/
def items : Json → List Json
  | .arr xs => xs
  | _ => []

/-- The value of the first member of a name. -/
def find? (name : String) (j : Json) : Option Json :=
  (j.members.find? (·.1 == name)).map (·.2)

/-- The value of a member, and `null` if there is none. -/
def get (name : String) (j : Json) : Json := (j.find? name).getD .null

/-- The object of the members that are there. -/
def object (members : List (String × Option Json)) : Json :=
  .obj (members.filterMap fun (name, value) => value.map (name, ·))

mutual

/-- The value with one member per name in every object: the last one written, in the place of the
first. -/
def distinct : Json → Json
  | .arr items => .arr (distinctItems items)
  | .obj members => .obj (distinctMembers members)
  | j => j

/-- `distinct` on the items of an array. -/
def distinctItems : List Json → List Json
  | [] => []
  | j :: js => distinct j :: distinctItems js

/-- `distinct` on the members of an object. -/
def distinctMembers : List (String × Json) → List (String × Json)
  | [] => []
  | (name, j) :: ms =>
    let rest := distinctMembers ms
    match rest.find? (·.1 == name) with
    | some (_, last) => (name, last) :: rest.filter (·.1 != name)
    | none => (name, distinct j) :: rest

end

end Json

end LanguageServer
