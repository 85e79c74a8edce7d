import LanguageServer.Protocol.Params
import LanguageServer.Protocol.Answer

/-!
# Messages

What passes between the editor and the server.

* `Message`, `Message.ofJson?`: what the editor sends;
* `Outgoing`, `Outgoing.toJson`: what the server sends;
* `Outgoing.publish?`: the problems of a document, which replace those that were sent before.
-/

namespace LanguageServer

/-! ### From the editor -/

/-- What the editor sends: a request, which has to be answered, a notification, or the answer to a
request of the server. -/
inductive Message
  | request (id : MessageId) (method : String) (params : Json)
  | notification (method : String) (params : Json)
  | response (id : MessageId)
  deriving Inhabited

namespace Message

/-- A request. Parameters may be missing. -/
def readRequest? (j : Json) : Option Message := do
  let r ← j.record? ["id", "method", "params"]
  return .request (← r.required? "id" MessageId.ofJson?) (← r.required? "method" Json.string?)
    (← r.defaulted? "params" .null some)

/-- An error in an answer. -/
def readError? (j : Json) : Option Unit := do
  let r ← j.record? ["code", "message", "data"]
  let _ ← r.required? "code" Json.signed32?
  let _ ← r.required? "message" Json.string?
  return ()

/-- An answer. The result and the error may be missing. -/
def readResponse? (j : Json) : Option Message := do
  let r ← j.record? ["id", "result", "error"]
  let _ ← r.defaulted? "result" none (Json.optional? some)
  let _ ← r.defaulted? "error" none (Json.optional? readError?)
  return .response (← r.required? "id" MessageId.ofJson?)

/-- A notification. -/
def readNotification? (j : Json) : Option Message := do
  let r ← j.record? ["method", "params"]
  return .notification (← r.required? "method" Json.string?) (← r.defaulted? "params" .null some)

/-- A message: what has a name and a method is a request, what has only a name is an answer, and all
else is a notification. So an array that starts with a string is never a notification: the string is
taken for a name. -/
def ofJson? (j : Json) : Option Message :=
  readRequest? j <|> readResponse? j <|> readNotification? j

end Message

/-! ### To the editor -/

/-- How serious a shown text is. -/
inductive Alert
  | error
  | warning
  deriving DecidableEq, Repr

/-- The number of an alert. -/
def Alert.number : Alert → Nat
  | .error => 1
  | .warning => 2

/-- Why a request has no result. -/
inductive Refusal
  | unknownMethod (method : String)
  | invalidParams
  | cancelled
  deriving DecidableEq, Repr

namespace Refusal

/-- The code of a refusal. -/
def code : Refusal → Int
  | .unknownMethod _ => -32601
  | .invalidParams => -32602
  | .cancelled => -32800

/-- The wording of a refusal. -/
def message : Refusal → String
  | .unknownMethod method => "Unhandled request: " ++ method
  | .invalidParams => "invalid parameters"
  | .cancelled => "request was cancelled"

end Refusal

/-- What the server sends. -/
inductive Outgoing
  | problems (document : Uri) (shown : List Problem) (version : Option Int)
  | alert (seriousness : Alert) (text : String)
  | result (id : MessageId) (value : Json)
  | refusal (id : MessageId) (reason : Refusal)

namespace Outgoing

/-- A message on the wire. -/
def toJson : Outgoing → Json
  | .problems document shown version =>
    .obj [("method", .str "textDocument/publishDiagnostics"),
      ("params", .object [("uri", some (.str document.text)),
        ("diagnostics", some (.ofList Problem.toJson shown)), ("version", version.map .int)])]
  | .alert seriousness text =>
    .obj [("method", .str "window/showMessage"),
      ("params", .obj [("type", .nat seriousness.number), ("message", .str text)])]
  | .result id value => .obj [("id", id.toJson), ("result", value)]
  | .refusal id reason =>
    .obj [("id", id.toJson),
      ("error", .obj [("code", .int reason.code), ("message", .str reason.message)])]

/-- The message that replaces the problems shown in a document, if the protocol can name it. -/
def publish? (document : Uri) (shown : List Problem) (version : Option Int) : Option Outgoing :=
  if document.isValid then some (.problems document shown version) else none

/-- The request that a message answers. -/
def answered? : Outgoing → Option MessageId
  | .result id _ | .refusal id _ => some id
  | .problems _ _ _ | .alert _ _ => none

end Outgoing

end LanguageServer
