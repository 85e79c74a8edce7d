import LanguageServer.Json.Record
import LanguageServer.Notebook
import LanguageServer.Uri.Grammar

/-!
# Parameters of the editor protocol

What the editor sends, read from its form on the wire. A structure that carries the parameters of
others among its own cannot be an array.

* `TextDocument`, `DocumentChange`, `DocumentSave`: notifications about documents;
* `NotebookOpening`, `NotebookChange`, `NotebookClosing`: notifications about notebooks;
* `MessageId`: the name of a request;
* `Query`: what a request asks about a document.
-/

namespace LanguageServer

/-! ### Single values -/

/-- A position. -/
def Position.ofJson? (j : Json) : Option Position := do
  let r ← j.record? ["line", "character"]
  return ⟨← r.required? "line" Json.unsigned32?, ← r.required? "character" Json.unsigned32?⟩

/-- A span. -/
def Range.ofJson? (j : Json) : Option Range := do
  let r ← j.record? ["start", "end"]
  return ⟨← r.required? "start" Position.ofJson?, ← r.required? "end" Position.ofJson?⟩

/-- A name that the protocol takes for a URI. -/
def Uri.strict? (j : Json) : Option Uri := (j.string?.map Uri.mk).filter (·.isValid)

/-- A name, whatever it is. -/
def Uri.lenient? (j : Json) : Option Uri := j.string?.map Uri.mk

/-- The name of a request: a number or a string. -/
inductive MessageId
  | number (n : Int)
  | text (s : String)
  deriving DecidableEq, Repr, Inhabited

namespace MessageId

/-- The name of a request on the wire. -/
def toJson : MessageId → Json
  | .number n => .int n
  | .text s => .str s

/-- The name of a request. -/
def ofJson? (j : Json) : Option MessageId :=
  (j.signed32?.map .number) <|> (j.string?.map .text)

end MessageId

/-! ### Documents -/

/-- A document that is named by a structure. -/
def documentOf? (uri : Json → Option Uri) (j : Json) : Option Uri := do
  (← j.record? ["uri"]).required? "uri" uri

/-- A document with a version. -/
def versionedOf? (uri : Json → Option Uri) (j : Json) : Option (Uri × Int) := do
  let r ← j.record? ["uri", "version"]
  return (← r.required? "uri" uri, ← r.required? "version" Json.signed32?)

/-- A document as the editor opens it. -/
structure TextDocument where
  uri : Uri
  language : String
  version : Int
  text : String
  deriving DecidableEq, Repr

/-- A document as the editor opens it. -/
def TextDocument.read? (uri : Json → Option Uri) (j : Json) : Option TextDocument := do
  let r ← j.record? ["uri", "languageId", "version", "text"]
  return {
    uri := ← r.required? "uri" uri
    language := ← r.required? "languageId" Json.string?
    version := ← r.required? "version" Json.signed32?
    text := ← r.required? "text" Json.string? }

/-- The parameters of an opening. -/
def TextDocument.ofJson? (j : Json) : Option TextDocument := do
  (← j.record? ["textDocument"]).required? "textDocument" (TextDocument.read? Uri.strict?)

/-- An edit; the length of its span, if it is given, does not count. -/
def Text.Change.ofJson? (j : Json) : Option Text.Change := do
  let r ← j.record? ["range", "rangeLength", "text"]
  let range ← r.optional? "range" Range.ofJson?
  let _ ← r.optional? "rangeLength" Json.unsigned32?
  return ⟨range, ← r.required? "text" Json.string?⟩

/-- A change of a document. -/
structure DocumentChange where
  uri : Uri
  version : Int
  changes : List Text.Change
  deriving DecidableEq, Repr

/-- The parameters of a change. -/
def DocumentChange.ofJson? (j : Json) : Option DocumentChange := do
  let r ← j.record? ["textDocument", "contentChanges"]
  let (uri, version) ← r.required? "textDocument" (versionedOf? Uri.strict?)
  return ⟨uri, version, ← r.required? "contentChanges" (Json.list? Text.Change.ofJson?)⟩

/-- A document that was saved, perhaps with its text. -/
structure DocumentSave where
  uri : Uri
  text : Option String
  deriving DecidableEq, Repr

/-- The parameters of a saving. -/
def DocumentSave.ofJson? (j : Json) : Option DocumentSave := do
  let r ← j.record? ["textDocument", "text"]
  return ⟨← r.required? "textDocument" (documentOf? Uri.strict?),
    ← r.optional? "text" Json.string?⟩

/-- The parameters of a closing. -/
def closingOf? (j : Json) : Option Uri := do
  (← j.record? ["textDocument"]).required? "textDocument" (documentOf? Uri.strict?)

/-- The parameters of a change of the settings. -/
def settingsOf? (j : Json) : Option Json := do
  (← j.record? ["settings"]).required? "settings" some

/-- The parameters of a cancellation. -/
def cancelledOf? (j : Json) : Option MessageId := do
  (← j.record? ["id"]).required? "id" MessageId.ofJson?

/-! ### Notebooks -/

/-- A field that may be missing or `null`, also in an array. -/
def Record.lenient? {α : Type} (r : Record) (name : String) (read : Json → Option α) :
    Option (Option α) :=
  r.defaulted? name none (Json.optional? read)

/-- A cell. -/
def Cell.ofJson? (j : Json) : Option Cell := do
  let r ← j.record? ["kind", "document"]
  let number ← r.required? "kind" Json.unsigned8?
  let kind ← (CellKind.ofNumber number).toOption
  return ⟨kind, ← r.required? "document" Uri.lenient?⟩

/-- The text of a cell. -/
def CellText.ofJson? (j : Json) : Option CellText := do
  let d ← TextDocument.read? Uri.lenient? j
  return ⟨d.uri, d.language, d.version, d.text⟩

/-- The parameters of the opening of a notebook. -/
def NotebookOpening.ofJson? (j : Json) : Option NotebookOpening := do
  let r ← j.record? ["notebookDocument", "cellTextDocuments"]
  let n ← r.required? "notebookDocument" (Json.record? ["uri", "notebookType", "version", "cells"])
  return {
    uri := ← n.required? "uri" Uri.lenient?
    type := ← n.required? "notebookType" Json.string?
    version := ← n.required? "version" Json.signed32?
    cells := ← n.required? "cells" (Json.list? Cell.ofJson?)
    texts := ← r.required? "cellTextDocuments" (Json.list? CellText.ofJson?) }

/-- A change of the list of cells. -/
def CellSplice.ofJson? (j : Json) : Option CellSplice := do
  let r ← j.record? ["array", "didOpen", "didClose"]
  let a ← r.required? "array" (Json.record? ["start", "deleteCount", "cells"])
  let cells ← a.lenient? "cells" (Json.list? Cell.ofJson?)
  let opened ← r.lenient? "didOpen" (Json.list? CellText.ofJson?)
  let closed ← r.lenient? "didClose" (Json.list? (documentOf? Uri.lenient?))
  return {
    start := ← a.required? "start" Json.unsigned32?
    deleteCount := ← a.required? "deleteCount" Json.unsigned32?
    cells := cells.getD []
    opened := opened.getD []
    closed := closed.getD [] }

/-- A change of the text of a cell. -/
def CellEdit.ofJson? (j : Json) : Option CellEdit := do
  let r ← j.record? ["document", "changes"]
  let (uri, version) ← r.required? "document" (versionedOf? Uri.lenient?)
  return ⟨uri, version, ← r.required? "changes" (Json.list? Text.Change.ofJson?)⟩

/-- The parameters of the change of a notebook. -/
def NotebookChange.ofJson? (j : Json) : Option NotebookChange := do
  let r ← j.record? ["notebookDocument", "change"]
  let (uri, version) ← r.required? "notebookDocument" (versionedOf? Uri.lenient?)
  let change ← r.required? "change" (Json.record? ["cells"])
  match ← change.lenient? "cells" (Json.record? ["structure", "data", "textContent"]) with
  | none => return ⟨uri, version, none, none, []⟩
  | some c =>
    let edits ← c.lenient? "textContent" (Json.list? CellEdit.ofJson?)
    return {
      uri
      version
      splice := ← c.lenient? "structure" CellSplice.ofJson?
      data := ← c.lenient? "data" (Json.list? Cell.ofJson?)
      edits := edits.getD [] }

/-- The parameters of the saving of a notebook. -/
def notebookSaveOf? (j : Json) : Option Uri := do
  (← j.record? ["notebookDocument"]).required? "notebookDocument" (documentOf? Uri.lenient?)

/-- A notebook that was closed, with the documents of its cells. -/
structure NotebookClosing where
  uri : Uri
  cells : List Uri
  deriving DecidableEq, Repr

/-- The parameters of the closing of a notebook. -/
def NotebookClosing.ofJson? (j : Json) : Option NotebookClosing := do
  let r ← j.record? ["notebookDocument", "cellTextDocuments"]
  return ⟨← r.required? "notebookDocument" (documentOf? Uri.lenient?),
    ← r.defaulted? "cellTextDocuments" [] (Json.list? (documentOf? Uri.lenient?))⟩

end LanguageServer
