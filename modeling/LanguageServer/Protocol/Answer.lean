import LanguageServer.Json
import LanguageServer.Diagnostic

/-!
# Answers of the editor protocol

What the server tells the editor, and its form on the wire: members without a value are left out,
positions and spans are objects, and enumerations are numbers.
-/

namespace LanguageServer

/-! ### Places -/

/-- A position on the wire. -/
def Position.toJson (p : Position) : Json :=
  .obj [("line", .nat p.line), ("character", .nat p.character)]

/-- A span on the wire. -/
def Range.toJson (r : Range) : Json := .obj [("start", r.start.toJson), ("end", r.stop.toJson)]

/-- A span in a document on the wire. -/
def Location.toJson (l : Location) : Json :=
  .obj [("uri", .str l.file.text), ("range", l.range.toJson)]

/-- A text in markup. -/
def markdown (text : String) : Json := .obj [("kind", .str "markdown"), ("value", .str text)]

/-- A link from a span to a place. -/
structure Link where
  origin : Range
  target : Location
  deriving DecidableEq, Repr

/-- A link on the wire. -/
def Link.toJson (l : Link) : Json :=
  .obj [("originSelectionRange", l.origin.toJson), ("targetUri", .str l.target.file.text),
    ("targetRange", l.target.range.toJson), ("targetSelectionRange", l.target.range.toJson)]

/-! ### Descriptions -/

/-- The description of what stands in a span. -/
structure Hover where
  text : String
  range : Range
  deriving DecidableEq, Repr

/-- A description on the wire. -/
def Hover.toJson (h : Hover) : Json :=
  .obj [("contents", markdown h.text), ("range", h.range.toJson)]

/-- A parameter in the label of a signature: its first code unit, and the one after its last. -/
abbrev LabelSpan := Nat × Nat

/-- A function that a call may mean. -/
structure Signature where
  label : String
  documentation : Option String
  parameters : List LabelSpan
  activeParameter : Option Nat
  deriving DecidableEq, Repr

/-- A signature on the wire. -/
def Signature.toJson (s : Signature) : Json :=
  .object [("label", some (.str s.label)), ("documentation", s.documentation.map markdown),
    ("parameters",
      some (.ofList (fun (a, b) => .obj [("label", .arr [.nat a, .nat b])]) s.parameters)),
    ("activeParameter", s.activeParameter.map .nat)]

/-- The functions that a call may mean. -/
structure SignatureHelp where
  signatures : List Signature
  activeSignature : Option Nat
  activeParameter : Nat
  deriving DecidableEq, Repr

/-- Signatures on the wire. -/
def SignatureHelp.toJson (h : SignatureHelp) : Json :=
  .object [("signatures", some (.ofList Signature.toJson h.signatures)),
    ("activeSignature", h.activeSignature.map .nat),
    ("activeParameter", some (.nat h.activeParameter))]

/-! ### Completions -/

/-- What a completion inserts. -/
inductive CompletionKind
  | function
  | field
  | variable
  | classLike
  | keyword
  | file
  | folder
  | constant
  | struct
  deriving DecidableEq, Repr

/-- The number of a kind. -/
def CompletionKind.number : CompletionKind → Nat
  | .function => 3
  | .field => 5
  | .variable => 6
  | .classLike => 7
  | .keyword => 14
  | .file => 17
  | .folder => 19
  | .constant => 21
  | .struct => 22

/-- What stands beside the label of a completion: right after it, and apart from it. -/
structure LabelDetails where
  detail : Option String
  description : Option String
  deriving DecidableEq, Repr

/-- A completion. -/
structure CompletionItem where
  label : String
  kind : CompletionKind
  details : Option LabelDetails := none
  deriving DecidableEq, Repr

/-- A completion on the wire. -/
def CompletionItem.toJson (c : CompletionItem) : Json :=
  .object [("label", some (.str c.label)), ("kind", some (.nat c.kind.number)),
    ("labelDetails", c.details.map fun d =>
      .object [("detail", d.detail.map .str), ("description", d.description.map .str)])]

/-! ### Outlines and annotations -/

/-- What an entry of an outline is. -/
inductive OutlineKind
  | function
  | struct
  deriving DecidableEq, Repr

/-- An entry of the outline of a document. -/
structure OutlineItem where
  name : String
  kind : OutlineKind
  location : Location
  deriving DecidableEq, Repr

/-- An entry on the wire. -/
def OutlineItem.toJson (i : OutlineItem) : Json :=
  let kind := match i.kind with
    | .function => 12
    | .struct => 23
  .obj [("name", .str i.name), ("kind", .nat kind), ("location", i.location.toJson)]

/-- A line of text above a span. -/
structure Lens where
  range : Range
  title : String
  deriving DecidableEq, Repr

/-- A line above a span on the wire; it carries a command that does nothing. -/
def Lens.toJson (l : Lens) : Json :=
  .obj [("range", l.range.toJson),
    ("command", .obj [("title", .str l.title), ("command", .str "")])]

/-- A text shown at a position, which can be written in. -/
structure InlayHint where
  position : Position
  label : String
  deriving DecidableEq, Repr

/-- A hint on the wire. -/
def InlayHint.toJson (h : InlayHint) : Json :=
  let edit : Json :=
    .obj [("range", (Range.point h.position).toJson), ("newText", .str h.label)]
  .obj [("position", h.position.toJson), ("label", .str h.label), ("kind", .nat 2),
    ("textEdits", .arr [edit])]

/-! ### Problems -/

/-- A problem, as the editor shows it. -/
structure Problem where
  range : Range
  severity : Nat
  source : String
  message : String
  deriving DecidableEq, Repr

/-- A problem on the wire. -/
def Problem.toJson (p : Problem) : Json :=
  .obj [("range", p.range.toJson), ("severity", .nat p.severity), ("source", .str p.source),
    ("message", .str p.message)]

/-- The severity that the editor knows: notes on optimisations are information. -/
def Level.severity : Level → Nat
  | .error => 1
  | .warning => 2
  | .information | .optimizationNotice | .failedOptimization => 3
  | .hint => 4

/-- A problem in a file, as the editor shows it. -/
def Diagnostic.toProblem (d : Diagnostic) (file : Uri) : Problem :=
  { range := d.range, severity := d.level.severity, source := file.text, message := d.fullMessage }

/-- The problems that the editor shows in a file. -/
def problemsIn (file : Uri) (ds : List Diagnostic) : List Problem :=
  (Diagnostic.allInFile file ds).map (·.toProblem file)

end LanguageServer
