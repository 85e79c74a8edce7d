import LanguageServer.Snapshot
import LanguageServer.Text.Pieces
import LanguageServer.Json
import LanguageServer.Word

/-!
# Highlighting

The editor colours a document by a list of spans, each on one line. On the wire a span tells how far
it is from the one before: in lines, and in columns if both are on one line.

* `TokenColour`, `Token.colour?`: the colours, and that of a token;
* `Span`, `Token.spans`: the spans of a token, one per line;
* `Span.encode`, `Span.decode`: the differences, and back;
* `highlights`: the spans of a document, on the wire.
-/

namespace LanguageServer

/-- The colours, in the order in which the editor learns them. -/
inductive TokenColour
  | type
  | struct
  | function
  | variable
  | parameter
  | typeParameter
  | keyword
  | property
  | operator
  | number
  | comment
  deriving DecidableEq, Repr

namespace TokenColour

/-- All colours. -/
def all : List TokenColour :=
  [.type, .struct, .function, .variable, .parameter, .typeParameter, .keyword, .property, .operator,
    .number, .comment]

/-- The name by which the editor knows a colour. -/
def name : TokenColour → String
  | .type => "type"
  | .struct => "struct"
  | .function => "function"
  | .variable => "variable"
  | .parameter => "parameter"
  | .typeParameter => "typeParameter"
  | .keyword => "keyword"
  | .property => "property"
  | .operator => "operator"
  | .number => "number"
  | .comment => "comment"

/-- The place of a colour. -/
def index : TokenColour → Nat
  | .type => 0
  | .struct => 1
  | .function => 2
  | .variable => 3
  | .parameter => 4
  | .typeParameter => 5
  | .keyword => 6
  | .property => 7
  | .operator => 8
  | .number => 9
  | .comment => 10

theorem all_index (c : TokenColour) : all[c.index]? = some c := by cases c <;> rfl

end TokenColour

/-- The shades of a colour, of which a constant has the only one. -/
def shadeNames : List String := ["readonly"]

/-- The colour of a token, and whether it is that of a constant; nothing if the editor's own grammar
decides. -/
def Token.colour? (t : Token) : Option (TokenColour × Bool) :=
  match t.meaning with
  | .attribute | .type | .typeAlias => some (.type, false)
  | .struct => some (.struct, false)
  | .function => some (.function, false)
  | .variable => some (.variable, false)
  | .constant => some (.variable, true)
  | .parameter => some (.parameter, false)
  | .typeParameter => some (.typeParameter, false)
  | .keyword | .builtinType => some (.keyword, false)
  | .field => some (.property, false)
  | .mathOperator | .otherOperator | .typeModifier => some (.operator, false)
  | .compileTag | .compileTagParameter | .statement | .label => none
  | .unknown =>
    if t.isNumeric then some (.number, false)
    else if t.kind == .skipped then some (.comment, false)
    else none

/-- A coloured span on one line. -/
structure Span where
  line : Nat
  start : Nat
  length : Nat
  colour : Nat
  shades : Nat
  deriving DecidableEq, Repr

/-- The length of a line of a token, its carriage return left out, in words. -/
def lineLength (line : String) : Nat :=
  Word.ofCount (Text.units16 ((Text.dropEnd? "\r" line).getD line))

/-- The spans of the lines of a token, from its first line on; those whose length is zero have none. The
number of a line is a word. -/
def lineSpans (line start colour shades : Nat) : List String → List Span
  | [] => []
  | l :: ls =>
    let rest := lineSpans (line + 1) 0 colour shades ls
    if lineLength l = 0 then rest
    else ⟨Word.ofCount line, start, lineLength l, colour, shades⟩ :: rest

/-- The spans of a token: on one line its range, and else its lines; empty ones are left out. -/
def Token.spans (t : Token) : List Span :=
  match t.colour? with
  | none => []
  | some (colour, isConstant) =>
    let shades := if isConstant then 1 else 0
    let r := t.range
    if r.start.line = r.stop.line then
      let length := r.stop.character - r.start.character
      if 0 < length then [⟨r.start.line, r.start.character, length, colour.index, shades⟩] else []
    else lineSpans r.start.line r.start.character colour.index shades (Text.pieces '\n' t.content)

namespace Span

/-- Whether a span comes before another or starts at the same place. -/
def le (a b : Span) : Bool := a.line < b.line || (a.line == b.line && a.start ≤ b.start)

/-- The differences of a list of spans, from the place before them. Spans are sent in order, so that no
difference is below zero. -/
def encodeFrom (line start : Nat) : List Span → List Nat
  | [] => []
  | s :: ss =>
    let lines := s.line - line
    [lines, if lines = 0 then s.start - start else s.start, s.length, s.colour, s.shades] ++
      encodeFrom s.line s.start ss

/-- The differences of a list of spans. -/
def encode (spans : List Span) : List Nat := encodeFrom 0 0 spans

/-- The spans of a list of differences, from the place before them. -/
def decodeFrom (line start : Nat) : List Nat → List Span
  | lines :: columns :: length :: colour :: shades :: rest =>
    let line' := line + lines
    let start' := if lines = 0 then start + columns else columns
    ⟨line', start', length, colour, shades⟩ :: decodeFrom line' start' rest
  | _ => []

/-- The spans of a list of differences. -/
def decode (data : List Nat) : List Span := decodeFrom 0 0 data

end Span

/-- The spans of a list of tokens, in order; those at one place keep theirs. -/
def spansOf (tokens : List Token) : List Span := (tokens.flatMap Token.spans).mergeSort Span.le

/-- The colours of a document, on the wire. -/
def highlights (s : Snapshot) : List Nat := Span.encode (spansOf s.tokens)

end LanguageServer
