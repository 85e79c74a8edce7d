import LanguageServer.Notebook

/-!
# The store of open documents

The store holds what the editor has open, in the order of registration. It also answers imports from
the texts it holds, so that unsaved edits are compiled.

* `Store`, `Store.find?`, `Store.update`;
* `retainLast`, `Store.removeDuplicates`: one entry per name, the last one registered;
* `Store.register`: the document of a name, read from its file if need be;
* `Store.load`: imports;
* `Store.openNotebook`, `Store.changeNotebook`, `Store.saveNotebook`.
-/

namespace LanguageServer

/-- The items whose key does not occur again later in the list. -/
def retainLast {α κ : Type} [BEq κ] (key : α → κ) : List α → List α
  | [] => []
  | x :: xs => if xs.any (key · == key x) then retainLast key xs else x :: retainLast key xs

/-- What the editor has open. -/
structure Store where
  documents : List Document := []
  notebooks : List Notebook := []
  deriving Inhabited

namespace Store

/-! ### Documents -/

/-- The document of a name. -/
def find? (s : Store) (uri : Uri) : Option Document := s.documents.find? (·.uri == uri)

/-- The list with a function applied to the first item that satisfies a condition. -/
def updateFirst {α : Type} (p : α → Bool) (f : α → α) : List α → List α
  | [] => []
  | x :: xs => if p x then f x :: xs else x :: updateFirst p f xs

/-- The store with a document changed. -/
def update (s : Store) (uri : Uri) (f : Document → Document) : Store :=
  { s with documents := updateFirst (·.uri == uri) f s.documents }

/-- The store without the documents and notebooks of a name. -/
def remove (s : Store) (uri : Uri) : Store :=
  { documents := s.documents.filter (·.uri != uri)
    notebooks := s.notebooks.filter (·.uri != uri) }

/-- The number of entries. -/
def size (s : Store) : Nat := s.documents.length + s.notebooks.length

/-- The store with one document and one notebook per name, the last ones registered. -/
def removeDuplicates (s : Store) : Store :=
  { documents := retainLast (·.uri) s.documents
    notebooks := retainLast (·.uri) s.notebooks }

/-- The text of a document that is about to be registered: the one that was sent, or that of its
file. -/
def initialText (fs : Files) (uri : Uri) (text : Option String) :
    Except DocumentError (Option String) :=
  match text, uri.toFilePath? with
  | some text, _ => .ok (some text)
  | none, none => .ok none
  | none, some path =>
    if fs.isFile path then
      match fs.readText path with
      | .ok content => .ok (some content)
      | .error reason => .error (.unreadable path reason)
    else .error (.fileNotFound path)

/-- A document for a name that has none. -/
def make (fs : Files) (uri : Uri) (language : String) (text : Option String) :
    Except DocumentError Document := do
  let text ← initialText fs uri text
  let language ← Language.ofId language
  return Document.fresh uri language text

/-- The document of a name, registered if there is none. Duplicates are removed first, also when the
registration fails. -/
def register (fs : Files) (uri : Uri) (language : String) (text : Option String) (s : Store) :
    Store × Except DocumentError Document :=
  let s := s.removeDuplicates
  match s.find? uri with
  | some d => (s, .ok d)
  | none =>
    match make fs uri language text with
    | .ok d => ({ s with documents := s.documents ++ [d] }, .ok d)
    | .error e => (s, .error e)

/-- `register` with the language that the extension of the name says. -/
def registerByExtension (fs : Files) (uri : Uri) (text : Option String) (s : Store) :
    Store × Except DocumentError Document :=
  s.register fs uri (uri.extension?.getD "") text

/-- The version of a document that has a text. -/
def version? (s : Store) (uri : Uri) : Option Int :=
  ((s.find? uri).filter (·.text.isSome)).bind (·.version)

/-- The answer to an import, from the documents that are open. -/
def load (s : Store) (requested : String) (current : Option Uri) : Loaded :=
  let names := Source.bufferCandidates requested current
  let answer (uri : Uri) : Option Loaded :=
    (s.find? uri).map fun d =>
      match d.text with
      | some content => .found uri content
      | none => .failed uri "Document not loaded"
  match names.findSome? answer with
  | some loaded => loaded
  | none => if names.isEmpty then .deferred else .missing names.getLast?

/-! ### Notebooks -/

/-- The notebook of a name. -/
def notebook? (s : Store) (uri : Uri) : Option Notebook := s.notebooks.find? (·.uri == uri)

/-- The store with a notebook for a name, registered if there is none. Duplicates are removed
first. -/
def withNotebook (uri : Uri) (s : Store) : Store :=
  let s := s.removeDuplicates
  if s.notebooks.any (·.uri == uri) then s
  else { s with notebooks := s.notebooks ++ [Notebook.fresh uri] }

/-- The store with a notebook changed, which is registered if there is none. -/
def updateNotebook (uri : Uri) (f : Notebook → Notebook) (s : Store) : Store :=
  let s := s.withNotebook uri
  { s with notebooks := updateFirst (·.uri == uri) f s.notebooks }

/-- Opens the documents of cells, up to the first failure. The names are those that were opened. -/
def openCells (fs : Files) (s : Store) : List CellText → Store × Except DocumentError (List Uri)
  | [] => (s, .ok [])
  | cell :: cells =>
    match s.register fs cell.uri cell.language (some cell.text) with
    | (s, .error e) => (s, .error e)
    | (s, .ok _) =>
      match openCells fs (s.update cell.uri (·.opened cell.text cell.version)) cells with
      | (s, .ok uris) => (s, .ok (cell.uri :: uris))
      | (s, .error e) => (s, .error e)

/-- Changes the texts of cells, up to the first failure. The names are those that were changed. -/
def editCells (fs : Files) (s : Store) : List CellEdit → Store × Except DocumentError (List Uri)
  | [] => (s, .ok [])
  | edit :: edits =>
    match s.register fs edit.uri Keyword.languageId none with
    | (s, .error e) => (s, .error e)
    | (s, .ok _) =>
      match editCells fs (s.update edit.uri (·.changed edit.changes edit.version)) edits with
      | (s, .ok uris) => (s, .ok (edit.uri :: uris))
      | (s, .error e) => (s, .error e)

/-- Closes a cell of a notebook: it leaves the list, and its document is removed. A name that is no
cell of the notebook is passed over. -/
def closeCell (notebook : Uri) (s : Store) (closed : Uri) : Store :=
  let s := s.withNotebook notebook
  let isCell := (s.notebook? notebook).any (·.cells.any (·.document == closed))
  if isCell then
    (s.updateNotebook notebook fun n => { n with cells := Notebook.eraseCell closed n.cells }).remove
      closed
  else s

/-- A change of the list of cells: the splice, then the closed documents, then the opened ones. -/
def spliceCells (fs : Files) (notebook : Uri) (change : CellSplice) (s : Store) :
    Store × Except DocumentError (List Uri) :=
  let s := s.updateNotebook notebook fun n => { n with cells := Notebook.splice change n.cells }
  openCells fs (change.closed.foldl (closeCell notebook) s) change.opened

/-- The editor opened a notebook; the names are those of the opened cells. -/
def openNotebook (fs : Files) (opening : NotebookOpening) (s : Store) :
    Store × Except DocumentError (List Uri) :=
  match openCells fs s opening.texts with
  | (s, .error e) => (s, .error e)
  | (s, .ok uris) =>
    let s := s.updateNotebook opening.uri fun n =>
      { n with
        cells := opening.cells
        type := some opening.type
        language := Keyword.languageId
        version := some opening.version }
    (s, .ok uris)

/-- Puts cells in the places of those of the same documents, if such a change was reported. -/
def replaceCells (notebook : Uri) (data : Option (List Cell)) (s : Store) : Store :=
  match data with
  | none => s
  | some data =>
    s.updateNotebook notebook fun n =>
      { n with cells := data.foldl (fun cells cell => Notebook.replaceCell cell cells) n.cells }

/-- Changes the list of cells, if such a change was reported. -/
def spliceReported (fs : Files) (notebook : Uri) (change : Option CellSplice) (s : Store) :
    Store × Except DocumentError (List Uri) :=
  match change with
  | none => (s, .ok [])
  | some change => s.spliceCells fs notebook change

/-- The editor changed a notebook: the list of cells, then cells in place, then their texts, and the
version last. A failure leaves what was done before it. The names are those of the opened and of the
changed cells. -/
def changeNotebook (fs : Files) (change : NotebookChange) (s : Store) :
    Store × Except DocumentError (List Uri) :=
  match s.spliceReported fs change.uri change.splice with
  | (s, .error e) => (s, .error e)
  | (s, .ok opened) =>
    match editCells fs (s.replaceCells change.uri change.data) change.edits with
    | (s, .error e) => (s, .error e)
    | (s, .ok edited) =>
      (s.updateNotebook change.uri fun n => { n with version := some change.version },
        .ok (opened ++ edited))

/-- The editor saved a notebook. -/
def saveNotebook (uri : Uri) (s : Store) : Store := s.withNotebook uri

end Store

end LanguageServer
