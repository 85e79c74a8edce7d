import LanguageServer.Protocol.Params

/-!
# Notifications

What the editor reports. Nothing is answered to it.

* `Notice`: a report whose parameters were read;
* `Notice.read?`: the report of a method with its parameters.
-/

namespace LanguageServer

/-- What the editor reports: documents, notebooks, its settings, or that it takes back a request. -/
inductive Notice
  | opened (d : TextDocument)
  | changed (c : DocumentChange)
  | saved (c : DocumentSave)
  | closed (uri : Uri)
  | notebookOpened (opening : NotebookOpening)
  | notebookChanged (change : NotebookChange)
  | notebookSaved (uri : Uri)
  | notebookClosed (closing : NotebookClosing)
  | configured (settings : Json)
  | cancelled (id : MessageId)

/-- The report of a method. There is none if the method is not known, or if its parameters cannot be
read. -/
def Notice.read? (method : String) (params : Json) : Option Notice :=
  match method with
  | "textDocument/didOpen" => (TextDocument.ofJson? params).map .opened
  | "textDocument/didChange" => (DocumentChange.ofJson? params).map .changed
  | "textDocument/didSave" => (DocumentSave.ofJson? params).map .saved
  | "textDocument/didClose" => (closingOf? params).map .closed
  | "notebookDocument/didOpen" => (NotebookOpening.ofJson? params).map .notebookOpened
  | "notebookDocument/didChange" => (NotebookChange.ofJson? params).map .notebookChanged
  | "notebookDocument/didSave" => (notebookSaveOf? params).map .notebookSaved
  | "notebookDocument/didClose" => (NotebookClosing.ofJson? params).map .notebookClosed
  | "workspace/didChangeConfiguration" => (settingsOf? params).map .configured
  | "$/cancelRequest" => (cancelledOf? params).map .cancelled
  | _ => none

end LanguageServer
