import LanguageServer.Json.Lexeme

/-!
# Reading JSON texts

The value of a text, from its lexemes, by a machine with a stack of unfinished arrays and objects.

* `Pending`, `Await`: the unfinished values, and what may come next;
* `Reading.step?`: one lexeme;
* `Json.ofText?`: the value of a text.
-/

namespace LanguageServer.Json

/-- An unfinished value; its finished parts are in reverse. `field` is an object whose last member
still lacks its value. A name that is broken is none. -/
inductive Pending
  | arr (items : List Json)
  | obj (members : List (Option String × Json))
  | field (members : List (Option String × Json)) (name : Option String)

/-- What may come next. `mayClose` tells that the array or object may still be empty. -/
inductive Await
  | value (mayClose : Bool)
  | name (mayClose : Bool)
  | colon (name : Option String)
  | separator
  | nothing (whole : Json)

/-- The machine: unfinished values, innermost first, and what may come next. -/
structure Reading where
  stack : List Pending
  await : Await

namespace Reading

/-- A finished value goes to the innermost unfinished one, or is the whole. -/
def deliver (j : Json) : List Pending → Option Reading
  | [] => some ⟨[], .nothing j⟩
  | .arr items :: stack => some ⟨.arr (j :: items) :: stack, .separator⟩
  | .field members name :: stack => some ⟨.obj ((name, j) :: members) :: stack, .separator⟩
  | .obj _ :: _ => none

/-- The start of a value. -/
def begin (stack : List Pending) : Lexeme → Option Reading
  | .atom j => deliver j stack
  | .mark c =>
    if c == '[' then some ⟨.arr [] :: stack, .value true⟩
    else if c.toNat == 0x7B then some ⟨.obj [] :: stack, .name true⟩
    else none

/-- The object of its members; one broken name breaks all of it. -/
def ofMembers (members : List (Option String × Json)) : Json :=
  match members.mapM fun (name, j) => name.map (·, j) with
  | some named => .obj named
  | none => .broken

/-- The end of the innermost unfinished value. -/
def close (c : Char) : List Pending → Option Reading
  | .arr items :: stack => if c == ']' then deliver (.arr items.reverse) stack else none
  | .obj members :: stack =>
    if c.toNat == 0x7D then deliver (ofMembers members.reverse) stack else none
  | _ => none

/-- One lexeme. -/
def step? (r : Reading) (l : Lexeme) : Option Reading :=
  match r.await, l with
  | .value mayClose, .mark c =>
    if mayClose && c == ']' then close c r.stack else begin r.stack l
  | .value _, .atom j => deliver j r.stack
  | .name _, .atom (.str name) => some ⟨r.stack, .colon name⟩
  | .name _, .atom .broken => some ⟨r.stack, .colon none⟩
  | .name mayClose, .mark c => if mayClose then close c r.stack else none
  | .colon name, .mark ':' =>
    match r.stack with
    | .obj members :: stack => some ⟨.field members name :: stack, .value false⟩
    | _ => none
  | .separator, .mark ',' =>
    match r.stack with
    | .arr _ :: _ => some ⟨r.stack, .value false⟩
    | .obj _ :: _ => some ⟨r.stack, .name false⟩
    | _ => none
  | .separator, .mark c => close c r.stack
  | _, _ => none

/-- The machine on all lexemes. -/
def run (r : Reading) : List Lexeme → Option Reading
  | [] => some r
  | l :: ls =>
    match r.step? l with
    | none => none
    | some r => r.run ls

end Reading

/-- The value of a JSON text. -/
def ofText? (text : String) : Option Json := do
  let ls ← lexemes? text
  match (← Reading.run ⟨[], .value false⟩ ls).await with
  | .nothing j => some j
  | _ => none

end LanguageServer.Json
