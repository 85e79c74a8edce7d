import LanguageServer.Json.Reader
import LanguageServer.Json.Record
import LanguageServer.Files
import LanguageServer.Uri
import LanguageServer.Program

/-!
# Projects

A project is configured by marker files beside its sources and above them, and by a section of the
settings of the editor. All of them are folded into one configuration; what was said first wins.

* `ExternalFunction`, `ExternalConstant`: definitions that the host supplies;
* `Configuration`: what one marker says; `Project`: what all say together;
* `Project.merge`: folding;
* `Project.search`: the markers of a document;
* `Project.discover`: the configuration of everything that is open.
-/

namespace LanguageServer

/-- A function that the host supplies, with the keywords of its types. -/
structure ExternalFunction where
  name : String
  result : String
  parameters : List String
  deriving DecidableEq, Repr

/-- A constant that the host supplies. -/
structure ExternalConstant where
  name : String
  value : ConstantValue
  deriving DecidableEq, Repr

/-- What a marker says. Directories are relative to it. -/
structure Configuration where
  directories : List String := []
  imports : List String := []
  functions : List ExternalFunction := []
  constants : List ExternalConstant := []
  deriving DecidableEq, Repr

/-- What all markers say together. -/
structure Project where
  directories : List Path := []
  imports : List String := []
  functions : List ExternalFunction := []
  constants : List ExternalConstant := []
  deriving DecidableEq, Repr

/-! ### Reading -/

/-- A value: an integer if it is written as one and has a sign and at most 64 bits, or else a
floating-point number or a string. -/
def ConstantValue.ofJson? : Json → Option ConstantValue
  | .num n =>
    match n.toInt?.filter fun i => i < (Json.Numeral.signedLimit : Int) with
    | some i => some (.int i)
    | none => n.toDouble?.map fun bits => .float bits.toNat
  | .str s => some (.text s)
  | _ => none

/-- A function that the host supplies; it returns nothing unless its result is given. -/
def ExternalFunction.ofJson? (j : Json) : Option ExternalFunction := do
  let r ← j.record? ["name", "returnType", "parameters"]
  return {
    name := ← r.required? "name" Json.string?
    result := ← r.defaulted? "returnType" "void" Json.string?
    parameters := ← r.defaulted? "parameters" [] (Json.list? Json.string?) }

/-- A constant that the host supplies. -/
def ExternalConstant.ofJson? (j : Json) : Option ExternalConstant := do
  let r ← j.record? ["name", "value"]
  return {
    name := ← r.required? "name" Json.string?
    value := ← r.required? "value" ConstantValue.ofJson? }

/-- A configuration; every field may be missing. -/
def Configuration.ofJson? (j : Json) : Option Configuration := do
  let r ← j.record?
    ["extraDirectories", "additionalImports", "externalFunctions", "externalConstants"]
  return {
    directories := ← r.defaulted? "extraDirectories" [] (Json.list? Json.string?)
    imports := ← r.defaulted? "additionalImports" [] (Json.list? Json.string?)
    functions := ← r.defaulted? "externalFunctions" [] (Json.list? ExternalFunction.ofJson?)
    constants := ← r.defaulted? "externalConstants" [] (Json.list? ExternalConstant.ofJson?) }

/-- Why a marker says nothing. -/
inductive ConfigurationError
  | unreadable (reason : ReadError)
  | malformed
  deriving DecidableEq, Repr

/-- What a marker file says. -/
def Configuration.load (fs : Files) (p : Path) : Except ConfigurationError Configuration :=
  match fs.readText p with
  | .error reason => .error (.unreadable reason)
  | .ok text =>
    match (Json.ofText? text).bind Configuration.ofJson? with
    | some c => .ok c
    | none => .error .malformed

/-! ### Folding -/

/-- The list with the items at its end that are the same as none before them. -/
def appendNew {α : Type} (same : α → α → Bool) (xs ys : List α) : List α :=
  ys.foldl (fun xs y => if xs.any (same · y) then xs else xs ++ [y]) xs

namespace Project

/-- The project with a configuration folded in. Directories are seen from `base` and told apart by
their components, host definitions by their names. -/
def merge (p : Project) (c : Configuration) (base : Option Path) : Project :=
  let resolve (d : String) : Path :=
    match base with
    | some b => b.join ⟨d⟩
    | none => ⟨d⟩
  { directories := appendNew Path.sameAs p.directories (c.directories.map resolve)
    imports := appendNew (· == ·) p.imports c.imports
    functions := appendNew (·.name == ·.name) p.functions c.functions
    constants := appendNew (·.name == ·.name) p.constants c.constants }

/-- The name of a marker. -/
def markerName : String := "bblang.json"

/-- The section of the settings of the editor that is a configuration. -/
def settingsSection : String := "bblang"

/-- The markers in the directory of a document and above it, nearest first. -/
def search (fs : Files) (document : Uri) : List Path :=
  match document.toFilePath? with
  | none => []
  | some p => (p.ancestors.map (·.join ⟨markerName⟩)).filter fs.isFile

/-- The markers of all documents, each once. -/
def markers (fs : Files) (documents : List Uri) : List Path :=
  appendNew Path.sameAs [] (documents.flatMap (search fs))

/-- The configuration of everything that is open: that of the markers in turn, then that of the
settings. What cannot be read says nothing. -/
def discover (fs : Files) (documents : List Uri) (settings : Json) : Project :=
  let folded := (markers fs documents).foldl
    (fun p marker =>
      match Configuration.load fs marker with
      | .ok c => p.merge c marker.parent?
      | .error _ => p)
    {}
  match (settings.find? settingsSection).bind Configuration.ofJson? with
  | some c => folded.merge c none
  | none => folded

end Project

end LanguageServer
