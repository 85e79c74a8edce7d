import LanguageServer.Json

/-!
# Reading structures

How exchanged data becomes values of the server's own types. A structure is an object, or an array of
its fields in order. Members of other names are passed over; a field may not be given twice.

* `Json.string?`, `Json.integer?`, `Json.list?`, `Json.choice?` and the like: single values;
* `Record`, `Json.record?`: a structure;
* `Record.required?`, `Record.optional?`, `Record.defaulted?`: its fields.
-/

namespace LanguageServer

namespace Json

/-- A string. -/
def string? : Json → Option String
  | .str s => some s
  | _ => none

/-- A truth value. -/
def boolean? : Json → Option Bool
  | .bool b => some b
  | _ => none

/-- An integer between two bounds. -/
def integer? (low high : Int) : Json → Option Int
  | .num n => n.toInt?.filter fun i => low ≤ i && i ≤ high
  | _ => none

/-- A natural number of 32 bits. -/
def unsigned32? (j : Json) : Option Nat := (j.integer? 0 0xFFFFFFFF).map Int.toNat

/-- A natural number of 8 bits. -/
def unsigned8? (j : Json) : Option Nat := (j.integer? 0 255).map Int.toNat

/-- An integer of 32 bits. -/
def signed32? (j : Json) : Option Int := j.integer? (-0x80000000) 0x7FFFFFFF

/-- An array of values. -/
def list? {α : Type} (read : Json → Option α) : Json → Option (List α)
  | .arr items => items.mapM read
  | _ => none

/-- One of a list of named values: its name, or an object whose only member has that name and is
`null`. -/
def choice? {α : Type} (names : List (String × α)) : Json → Option α
  | .str s => (names.find? (·.1 == s)).map (·.2)
  | .obj [(s, .null)] => (names.find? (·.1 == s)).map (·.2)
  | _ => none

/-- The first reading that succeeds. -/
def either? {α β : Type} (first : Json → Option α) (second : Json → Option β) (j : Json) :
    Option (α ⊕ β) :=
  (first j).map .inl <|> (second j).map .inr

/-- A value or `null`. -/
def optional? {α : Type} (read : Json → Option α) : Json → Option (Option α)
  | .null => some none
  | j => (read j).map some

end Json

/-- The fields of a structure that were given. A structure that was given as an array has its first
fields, and lacks the others for good. -/
structure Record where
  fields : List (String × Json)
  byPosition : Bool

/-- Whether no name occurs twice. -/
def namesAreDistinct : List String → Bool
  | [] => true
  | n :: ns => !ns.contains n && namesAreDistinct ns

/-- The structure with fields of the given names, in order. -/
def Json.record? (names : List String) : Json → Option Record
  | .obj members =>
    let known := members.filter fun (name, _) => names.contains name
    if namesAreDistinct (known.map (·.1)) then some ⟨known, false⟩ else none
  | .arr items => if items.length ≤ names.length then some ⟨names.zip items, true⟩ else none
  | _ => none

/-- The structure with fields of the given names, which cannot be an array. -/
def Json.openRecord? (names : List String) : Json → Option Record
  | .obj members => Json.record? names (.obj members)
  | _ => none

namespace Record

/-- The value of a field. -/
def find? (r : Record) (name : String) : Option Json := (r.fields.find? (·.1 == name)).map (·.2)

/-- A field that has to be there. -/
def required? {α : Type} (r : Record) (name : String) (read : Json → Option α) : Option α :=
  (r.find? name).bind read

/-- A field that may be missing or `null`. An array cannot leave it out. -/
def optional? {α : Type} (r : Record) (name : String) (read : Json → Option α) :
    Option (Option α) :=
  match r.find? name with
  | none => if r.byPosition then none else some none
  | some j => j.optional? read

/-- A field that may be missing, and then has a value of its own. -/
def defaulted? {α : Type} (r : Record) (name : String) (value : α) (read : Json → Option α) :
    Option α :=
  match r.find? name with
  | none => some value
  | some j => read j

end Record

end LanguageServer
