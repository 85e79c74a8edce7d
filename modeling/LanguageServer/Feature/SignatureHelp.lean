import LanguageServer.Query.Documentation
import LanguageServer.Protocol.Answer
import LanguageServer.Word

/-!
# Signatures

Inside the brackets of a call the editor shows the functions that the call may mean.

* `CallSite`, `callAt?`: the innermost call whose brackets hold a position;
* `candidates`: the functions it may mean;
* `signature`: a function with the places of its parameters in the label;
* `signatureHelp`: the answer.
-/

namespace LanguageServer

/-- What a call selects its function from: nothing, or an object whose type may be known. -/
inductive Receiver
  | absent
  | object (type : Option Ty)

/-- A call. The receiver counts as an argument; `resolved` is the place of the function that the
compiler chose. -/
structure CallSite where
  name : String
  receiver : Receiver
  argumentCount : Nat
  commas : List Token
  resolved : Option Nat

/-- The place of the function that a reference means. -/
def Reference.functionIndex? : Reference → Option Nat
  | .function index _ => some index
  | _ => none

/-- The call that an expression is, if a position is in its brackets. -/
def Expr.callSite? (p : Position) : Expr → Option CallSite
  | .call _ callee arguments commas brackets reference =>
    if brackets.range.contains p then
      let resolved := reference.bind (·.functionIndex?)
      match callee with
      | .name _ token _ => some ⟨token.content, .absent, arguments.length, commas, resolved⟩
      | .field _ object token _ =>
        some ⟨token.content, .object object.type?, arguments.length + 1, commas, resolved⟩
      | _ => none
    else none
  | _ => none

/-- The call that a declaration reads as: `f(x) …` is parsed as a variable of a function type while
it is typed, and means a call of `f`. -/
def VariableDefinition.callSite? (p : Position) (d : VariableDefinition) : Option CallSite :=
  match d.typeSyntax with
  | .function (.named token _) _ brackets _ =>
    if brackets.range.contains p then some ⟨token.content, .absent, 0, [], none⟩ else none
  | _ => none

/-- The call that a node is, if a position is in its brackets. -/
def Node.callSite? (p : Position) : Node → Option CallSite
  | .expr e => e.callSite? p
  | .statement (.variable d) => d.callSite? p
  | .statement _ => none

/-- The innermost call whose brackets hold a position. -/
def callAt? (s : Snapshot) (p : Position) : Option CallSite :=
  ((Statement.descendantsOf s.syntaxTree.roots).filterMap (Node.callSite? p)).getLast?

/-- Whether a function can be called on what a call selects it from. -/
def Receiver.accepts (r : Receiver) (f : CompiledFunction) : Bool :=
  match r with
  | .absent => true
  | .object none => f.definition.isExtension
  | .object (some ty) =>
    f.definition.isExtension &&
      match f.parameters.head? with
      | some this => this.type.sameAs ty || this.type.sameAs (.pointer ty)
      | none => false

/-- The functions that a call may mean, with their places: those of its name that the document may
use, that have enough parameters, and that can be called on its receiver. -/
def candidates (s : Snapshot) (call : CallSite) : List (Nat × CompiledFunction) :=
  Program.entries s.program.functions fun f =>
    f.name == call.name && f.isUsableFrom s.uri && call.argumentCount ≤ f.parameters.length &&
      call.receiver.accepts f

/-- A label while its parameters are added, with the places of their names. -/
structure LabelParts where
  text : String
  spans : List LabelSpan

/-- The label with one more parameter. -/
def LabelParts.addParameter (l : LabelParts) (p : CompiledParameter) : LabelParts :=
  let before := l.text ++ (if l.spans.isEmpty then "" else ", ") ++
    (if p.definition.isByReference then "ref " else "") ++ p.type.display ++ " "
  let name := p.definition.name.content
  let start := Text.units16 before
  ⟨before ++ name, l.spans ++ [(start, start + Text.units16 name)]⟩

/-- What comes before the parameters of a label. -/
def labelHead (f : CompiledFunction) : String :=
  let receiver :=
    match f.definition.isExtension, f.parameters.head? with
    | true, some this => this.type.display ++ "."
    | _, _ => ""
  let template :=
    match f.definition.template with
    | some names => "<" ++ String.intercalate ", " (names.map (·.content)) ++ ">"
    | none => ""
  f.result.display ++ " " ++ receiver ++ f.name ++ template ++ "("

/-- The parameters that a label shows: all but receivers. -/
def shownParameters (f : CompiledFunction) : List CompiledParameter :=
  f.parameters.filter (!·.definition.isReceiver)

/-- A function as a call may mean it. -/
def signature (s : Snapshot) (active : Nat) (f : CompiledFunction) : Signature :=
  let parts := (shownParameters f).foldl LabelParts.addParameter ⟨labelHead f, []⟩
  { label := parts.text ++ ")"
    documentation := (Symbol.function f none).documentation? s
    parameters := parts.spans
    activeParameter := if active < f.parameters.length then some active else none }

/-- The functions that the call at a position may mean; the active parameter is the number of commas
before the position. This number and the place of the active signature are words. -/
def signatureHelp (s : Snapshot) (p : Position) : Option SignatureHelp :=
  (callAt? s p).map fun call =>
    let active := Word.ofCount (call.commas.filter (·.range.stop.le p)).length
    let found := candidates s call
    { signatures := found.map fun (_, f) => signature s active f
      activeSignature := call.resolved.bind fun i => (found.findIdx? (·.1 == i)).map Word.ofCount
      activeParameter := active }

end LanguageServer
