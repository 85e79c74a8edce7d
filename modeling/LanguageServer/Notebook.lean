import LanguageServer.Document

/-!
# Notebooks

A notebook is a list of cells, and the text of a cell is a document of its own. What follows is the
data of notebooks and of the changes that an editor reports; the store of documents makes them.
-/

namespace LanguageServer

/-- What a cell holds. -/
inductive CellKind
  | markup
  | code
  deriving DecidableEq, Repr

namespace CellKind

/-- The kind of a number. -/
def ofNumber (n : Nat) : Except String CellKind :=
  if n = 1 then .ok .markup
  else if n = 2 then .ok .code
  else .error ("invalid notebook cell kind " ++ toString n)

/-- The word for a kind. -/
def word : CellKind → String
  | .markup => "markup"
  | .code => "code"

end CellKind

/-- A cell with the name of the document that holds its text. -/
structure Cell where
  kind : CellKind
  document : Uri
  deriving DecidableEq, Repr

/-- A notebook. It has no type and no version until the editor opened it. -/
structure Notebook where
  uri : Uri
  language : String
  type : Option String
  version : Option Int
  cells : List Cell
  deriving DecidableEq, Repr

/-- A notebook that was not opened yet. -/
def Notebook.fresh (uri : Uri) : Notebook :=
  { uri, language := Keyword.languageId, type := none, version := none, cells := [] }

/-- The text of a cell, as the editor sends it. -/
structure CellText where
  uri : Uri
  language : String
  version : Int
  text : String
  deriving DecidableEq, Repr

/-- A notebook, as the editor opens it, with the texts of its cells. -/
structure NotebookOpening where
  uri : Uri
  type : String
  version : Int
  cells : List Cell
  texts : List CellText
  deriving DecidableEq, Repr

/-- A change of the list of cells: the cells to remove from a place on and those to insert there, and
the documents that are opened and closed with it. -/
structure CellSplice where
  start : Nat
  deleteCount : Nat
  cells : List Cell
  opened : List CellText
  closed : List Uri
  deriving DecidableEq, Repr

/-- A change of the text of a cell. -/
structure CellEdit where
  uri : Uri
  version : Int
  changes : List Text.Change
  deriving DecidableEq, Repr

/-- A change of a notebook: of the list of cells, of cells in place, and of their texts. -/
structure NotebookChange where
  uri : Uri
  version : Int
  splice : Option CellSplice
  data : Option (List Cell)
  edits : List CellEdit
  deriving DecidableEq, Repr

namespace Notebook

/-- The list with the cells from a place on removed and others put there; both numbers are cut at the
end of the list. -/
def splice (change : CellSplice) (cells : List Cell) : List Cell :=
  cells.take change.start ++ change.cells ++ cells.drop (change.start + change.deleteCount)

/-- The list without the first cell of a document. -/
def eraseCell (uri : Uri) (cells : List Cell) : List Cell := cells.eraseP (·.document == uri)

/-- The list with a cell in the place of the first one of the same document. -/
def replaceCell (cell : Cell) : List Cell → List Cell
  | [] => []
  | c :: cs => if c.document == cell.document then cell :: cs else c :: replaceCell cell cs

end Notebook

end LanguageServer
