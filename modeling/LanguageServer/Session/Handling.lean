import LanguageServer.Session
import LanguageServer.Protocol.Notice

/-!
# Handling messages

What a message of the editor does to a session. Notifications take effect at once, in the order of
their arrival. A request about an open document becomes an inquiry, which is answered later; every
other request is answered at once.

* `Session.heed`, `notify`: notifications;
* `Session.ask`: requests;
* `Session.receive`, `endsSession`: messages, and which of them ends the session.
-/

namespace LanguageServer.Session

variable {σ : Type}

/-! ### Notifications -/

/-- The editor opened a document. One that cannot be registered is not opened. -/
def openDocument (h : Host σ) (s : Session σ) (d : TextDocument) : Session σ :=
  match s.store.register h.files d.uri d.language (some d.text) with
  | (store, .ok _) =>
    { s with store := store.update d.uri (·.opened d.text d.version) }.requestCompilation d.uri
  | (store, .error _) => { s with store }

/-- A document changes, and is registered first if it is unknown. -/
def updateDocument (h : Host σ) (s : Session σ) (uri : Uri) (f : Document → Document) : Session σ :=
  match s.store.registerByExtension h.files uri none with
  | (store, .ok _) => { s with store := store.update uri f }.recompile uri
  | (store, .error _) => { s with store }

/-- The editor opened a notebook: its cells are compiled. -/
def openNotebook (h : Host σ) (s : Session σ) (opening : NotebookOpening) : Session σ :=
  match s.store.openNotebook h.files opening with
  | (store, .ok cells) => cells.foldl requestCompilation { s with store }
  | (store, .error _) => { s with store }

/-- The editor changed a notebook: the cells that left it are closed, and those that were opened or
changed are compiled, unless the change failed. -/
def changeNotebook (h : Host σ) (s : Session σ) (change : NotebookChange) : Session σ :=
  let closed := (change.splice.map (·.closed)).getD []
  let (store, touched) := s.store.changeNotebook h.files change
  let s := closed.foldl closeDocument { s with store }
  match touched with
  | .ok cells => cells.foldl recompile s
  | .error _ => s

/-- The editor closed a notebook, and its cells with it. -/
def closeNotebook (s : Session σ) (closing : NotebookClosing) : Session σ :=
  let s := closing.cells.foldl closeDocument s
  { s with store := s.store.remove closing.uri }

/-- The editor takes back a request. One that is answered cannot be taken back. -/
def cancel (s : Session σ) (id : MessageId) : Session σ :=
  match s.pending.find? (·.1 == id) with
  | none => s
  | some (_, i) => s.updateInquiry i fun q => { q with cancelled := true }

/-- What a notification does. -/
def heed (h : Host σ) (s : Session σ) : Notice → Session σ
  | .opened d => s.openDocument h d
  | .changed c => s.updateDocument h c.uri (·.changed c.changes c.version)
  | .saved c => s.updateDocument h c.uri (·.saved c.text)
  | .closed uri => s.closeDocument uri
  | .notebookOpened opening => s.openNotebook h opening
  | .notebookChanged change => s.changeNotebook h change
  | .notebookSaved uri => { s with store := s.store.saveNotebook uri }
  | .notebookClosed closing => s.closeNotebook closing
  | .configured settings => { s with settings }
  | .cancelled id => s.cancel id

/-- A notification of a method. Parameters that cannot be read, and methods that are not known, are
passed over. -/
def notify (h : Host σ) (method : String) (params : Json) (s : Session σ) : Session σ :=
  match Notice.read? method params with
  | none => s
  | some notice => s.heed h notice

/-! ### Requests -/

/-- A question about a document: an inquiry for its present version, or an empty answer if it is not
open. -/
def inquire (s : Session σ) (id : MessageId) (question : DocumentRequest) : Session σ :=
  if (s.store.find? question.document).isNone then s.send (.result id .null)
  else
    let version := s.versionOf question.document
    let (s, worker) := s.scheduler question.document
    { s with
      inquiries := s.inquiries ++ [{ id, question, worker, version }]
      pending := s.pending.filter (·.1 != id) ++ [(id, s.inquiries.length)] }

/-- A request of a method. -/
def ask (s : Session σ) (id : MessageId) (method : String) (params : Json) : Session σ :=
  if method = "shutdown" then
    ({ s with shutdownRequested := true }.shutdown).send (.result id .null)
  else
    match DocumentRequest.reader? method with
    | none => s.send (.refusal id (.unknownMethod method))
    | some read =>
      match read params with
      | none => s.send (.refusal id .invalidParams)
      | some question => s.inquire id question

/-! ### Messages -/

/-- A message. -/
def receive (h : Host σ) (m : Message) (s : Session σ) : Session σ :=
  match m with
  | .request id method params => s.ask id method params
  | .notification method params => s.notify h method params
  | .response _ => s

/-- Whether a message ends the session. -/
def endsSession : Message → Bool
  | .notification method _ => method == "exit"
  | .request _ _ _ | .response _ => false

end LanguageServer.Session
