import LanguageServer.Protocol.Params
import LanguageServer.Feature.Completion
import LanguageServer.Feature.Definition
import LanguageServer.Feature.Highlight
import LanguageServer.Feature.Hover
import LanguageServer.Feature.InlayHints
import LanguageServer.Feature.Outline
import LanguageServer.Feature.References
import LanguageServer.Feature.SignatureHelp

/-!
# Requests about documents

What an editor can ask about a document, and the answer from a snapshot of it.

* `Request`: the questions;
* `DocumentRequest.read?`: the question of a method with its parameters;
* `Request.answer`: the answer on the wire.
-/

namespace LanguageServer

/-- A question about a document, most of them at a position. -/
inductive Request
  | hover (at_ : Position)
  | completion (at_ : Position)
  | definition (at_ : Position)
  | typeDefinition (at_ : Position)
  | references (at_ : Position)
  | signatureHelp (at_ : Position)
  | outline
  | highlights
  | lenses
  | inlayHints (within : Range)
  deriving DecidableEq, Repr

/-- A question with the name of the document it is about. -/
structure DocumentRequest where
  document : Uri
  request : Request
  deriving DecidableEq, Repr

/-! ### Parameters -/

namespace Record

/-- A token by which the editor wants to hear of progress: a number or a string. -/
def progressToken? (r : Record) (name : String) : Option Unit := do
  let _ ← r.optional? name MessageId.ofJson?
  return ()

/-- The two tokens of a request that can be answered in parts. -/
def progressTokens? (r : Record) : Option Unit := do
  r.progressToken? "workDoneToken"
  r.progressToken? "partialResultToken"

/-- The document that a structure names. -/
def document? (r : Record) : Option Uri := r.required? "textDocument" (documentOf? Uri.strict?)

end Record

/-- A text, plain or in markup. -/
def documentationText? (j : Json) : Option (String ⊕ String) :=
  j.either? Json.string? fun j => do
    let r ← j.record? ["kind", "value"]
    let _ ← r.required? "kind" (Json.choice? [("plaintext", ()), ("markdown", ())])
    r.required? "value" Json.string?

/-- The parameter of a signature that the editor already shows. -/
def shownParameter? (j : Json) : Option Unit := do
  let r ← j.record? ["label", "documentation"]
  let offsets (j : Json) : Option (List Nat) :=
    (j.list? Json.unsigned32?).filter (·.length == 2)
  let _ ← r.required? "label" (Json.either? Json.string? offsets)
  let _ ← r.optional? "documentation" documentationText?
  return ()

/-- A signature that the editor already shows. -/
def shownSignature? (j : Json) : Option Unit := do
  let r ← j.record? ["label", "documentation", "parameters", "activeParameter"]
  let _ ← r.required? "label" Json.string?
  let _ ← r.optional? "documentation" documentationText?
  let _ ← r.optional? "parameters" (Json.list? shownParameter?)
  let _ ← r.optional? "activeParameter" Json.unsigned32?
  return ()

/-- The signatures that the editor already shows. -/
def shownSignatures? (j : Json) : Option Unit := do
  let r ← j.record? ["signatures", "activeSignature", "activeParameter"]
  let _ ← r.required? "signatures" (Json.list? shownSignature?)
  let _ ← r.optional? "activeSignature" Json.unsigned32?
  let _ ← r.optional? "activeParameter" Json.unsigned32?
  return ()

/-- How signature help was asked for. -/
def signatureContext? (j : Json) : Option Unit := do
  let r ← j.record? ["triggerKind", "triggerCharacter", "isRetrigger", "activeSignatureHelp"]
  let _ ← r.required? "triggerKind" Json.signed32?
  let _ ← r.optional? "triggerCharacter" Json.string?
  let _ ← r.required? "isRetrigger" Json.boolean?
  let _ ← r.optional? "activeSignatureHelp" shownSignatures?
  return ()

/-- How completion was asked for. -/
def completionContext? (j : Json) : Option Unit := do
  let r ← j.record? ["triggerKind", "triggerCharacter"]
  let _ ← r.required? "triggerKind" Json.signed32?
  let _ ← r.optional? "triggerCharacter" Json.string?
  return ()

/-- Whether the declaration itself counts as a use. -/
def referenceContext? (j : Json) : Option Bool := do
  (← j.record? ["includeDeclaration"]).required? "includeDeclaration" Json.boolean?

namespace DocumentRequest

/-- The fields that every request has. -/
def commonFields : List String := ["textDocument", "workDoneToken", "partialResultToken"]

/-- A question at a position, with a check of the fields that it has besides. -/
def readAt? (make : Position → Request) (more : List String) (check : Record → Option Unit)
    (params : Json) : Option DocumentRequest := do
  let r ← params.openRecord? (commonFields ++ "position" :: more)
  let document ← r.document?
  let position ← r.required? "position" Position.ofJson?
  check r
  return ⟨document, make position⟩

/-- A question about a whole document. -/
def readWhole? (request : Request) (params : Json) : Option DocumentRequest := do
  let r ← params.openRecord? commonFields
  let document ← r.document?
  r.progressTokens?
  return ⟨document, request⟩

/-- The reader of the parameters of a method. -/
def reader? (method : String) : Option (Json → Option DocumentRequest) :=
  match method with
  | "textDocument/hover" =>
    some <| readAt? .hover [] fun r => r.progressToken? "workDoneToken"
  | "textDocument/completion" =>
    some <| readAt? .completion ["context"] fun r => do
      r.progressTokens?
      let _ ← r.optional? "context" completionContext?
      return ()
  | "textDocument/definition" => some <| readAt? .definition [] Record.progressTokens?
  | "textDocument/typeDefinition" => some <| readAt? .typeDefinition [] Record.progressTokens?
  | "textDocument/references" =>
    some <| readAt? .references ["context"] fun r => do
      r.progressTokens?
      let _ ← r.required? "context" referenceContext?
      return ()
  | "textDocument/signatureHelp" =>
    some <| readAt? .signatureHelp ["context"] fun r => do
      r.progressToken? "workDoneToken"
      let _ ← r.optional? "context" signatureContext?
      return ()
  | "textDocument/documentSymbol" => some (readWhole? .outline)
  | "textDocument/semanticTokens/full" => some (readWhole? .highlights)
  | "textDocument/codeLens" => some (readWhole? .lenses)
  | "textDocument/inlayHint" =>
    some fun params => do
      let r ← params.openRecord? ["textDocument", "range", "workDoneToken"]
      let document ← r.document?
      let range ← r.required? "range" Range.ofJson?
      r.progressToken? "workDoneToken"
      return ⟨document, .inlayHints range⟩
  | _ => none

end DocumentRequest

/-! ### Answers -/

/-- The answer to a question about a document, from a snapshot of it. The outline uses the name by
which the editor asked. -/
def DocumentRequest.answer (fs : Files) (s : Snapshot) (q : DocumentRequest) : Json :=
  match q.request with
  | .hover p => .ofOption Hover.toJson (hover s p)
  | .completion p => .ofList CompletionItem.toJson (completions fs s p)
  | .definition p => .ofList Link.toJson (definitions s p)
  | .typeDefinition p => .ofList Link.toJson (typeDefinitions s p)
  | .references p => .ofList Location.toJson (references s p)
  | .signatureHelp p => .ofOption SignatureHelp.toJson (signatureHelp s p)
  | .outline => .ofList OutlineItem.toJson (outline s q.document)
  | .highlights => .obj [("data", .ofList .nat (highlights s))]
  | .lenses => .ofList Lens.toJson (lenses s)
  | .inlayHints r => .ofList InlayHint.toJson (inlayHints s r)

end LanguageServer
