import LanguageServer.Store

/-!
# Actions on the store

A report about a notebook is a list of actions: cells are opened, edited and closed one by one, and the
notebook is revised in between. The first action that fails ends the list.

* `Revision`: what becomes of a notebook;
* `Store.Action`, `Action.perform`, `Store.performAll`: actions, and lists of them;
* `NotebookOpening.actions`, `NotebookChange.actions`: what reports are made of;
* `Store.openNotebook_eq`, `Store.changeNotebook_eq`: a report does what its actions do.
-/

namespace LanguageServer

/-! ### Revisions -/

/-- What becomes of a notebook: its list of cells is spliced, cells are put in the places of others, the
editor opens it, or it has a new version. -/
inductive Revision
  | splice (change : CellSplice)
  | replace (data : List Cell)
  | enter (opening : NotebookOpening)
  | date (version : Int)
  deriving DecidableEq, Repr

/-- The notebook after a revision. -/
def Revision.apply (r : Revision) (n : Notebook) : Notebook :=
  match r with
  | .splice change => { n with cells := Notebook.splice change n.cells }
  | .replace data =>
    { n with cells := data.foldl (fun cells cell => Notebook.replaceCell cell cells) n.cells }
  | .enter opening =>
    { n with
      cells := opening.cells
      type := some opening.type
      language := Keyword.languageId
      version := some opening.version }
  | .date version => { n with version := some version }

@[simp] theorem Revision.uri_apply (r : Revision) (n : Notebook) : (r.apply n).uri = n.uri := by
  cases r <;> rfl

namespace Store

/-! ### Actions -/

/-- The actions that reports about notebooks are made of. -/
inductive Action
  | openCell (cell : CellText)
  | editCell (edit : CellEdit)
  | closeCell (notebook closed : Uri)
  | revise (notebook : Uri) (revision : Revision)
  deriving DecidableEq, Repr

/-- A document is registered if there is none of its name, and then changed. The error is that of the
registration. -/
def write (fs : Files) (uri : Uri) (language : String) (text : Option String)
    (f : Document → Document) (s : Store) : Store × Option DocumentError :=
  match s.register fs uri language text with
  | (s, .ok _) => (s.update uri f, none)
  | (s, .error e) => (s, some e)

/-- Whether a document is a cell of a notebook. -/
def isCell (s : Store) (notebook uri : Uri) : Bool :=
  ((s.withNotebook notebook).notebook? notebook).any (·.cells.any (·.document == uri))

theorem closeCell_eq (s : Store) (notebook closed : Uri) :
    s.closeCell notebook closed =
      if s.isCell notebook closed then
        ((s.withNotebook notebook).updateNotebook notebook fun n =>
          { n with cells := Notebook.eraseCell closed n.cells }).remove closed
      else s.withNotebook notebook := rfl

namespace Action

/-- What an action does, and why it failed if it did. -/
def perform (fs : Files) (s : Store) : Action → Store × Option DocumentError
  | .openCell cell =>
    s.write fs cell.uri cell.language (some cell.text) (·.opened cell.text cell.version)
  | .editCell edit =>
    s.write fs edit.uri Keyword.languageId none (·.changed edit.changes edit.version)
  | .closeCell notebook closed => (s.closeCell notebook closed, none)
  | .revise notebook revision => (s.updateNotebook notebook revision.apply, none)

/-- The documents that an action opens or edits. -/
def touches : Action → List Uri
  | .openCell cell => [cell.uri]
  | .editCell edit => [edit.uri]
  | .closeCell _ _ | .revise _ _ => []

/-- The names that an action takes out of a store: a document that it closes, if that is a cell. -/
def drops (s : Store) : Action → List Uri
  | .closeCell notebook closed => if s.isCell notebook closed then [closed] else []
  | .openCell _ | .editCell _ | .revise _ _ => []

end Action

/-- Actions one after the other, up to the first that fails. -/
def performAll (fs : Files) (s : Store) : List Action → Store × Option DocumentError
  | [] => (s, none)
  | a :: as =>
    match a.perform fs s with
    | (s, none) => performAll fs s as
    | (s, some e) => (s, some e)

/-- The names that actions take out of a store. -/
def dropsAll (fs : Files) (s : Store) : List Action → List Uri
  | [] => []
  | a :: as =>
    match a.perform fs s with
    | (t, none) => a.drops s ++ dropsAll fs t as
    | (_, some _) => []

theorem performAll_cons_of_done {fs : Files} {s t : Store} {a : Action}
    (h : a.perform fs s = (t, none)) (as : List Action) :
    performAll fs s (a :: as) = performAll fs t as := by
  rw [performAll, h]

theorem performAll_cons_of_failed {fs : Files} {s t : Store} {a : Action} {e : DocumentError}
    (h : a.perform fs s = (t, some e)) (as : List Action) :
    performAll fs s (a :: as) = (t, some e) := by
  rw [performAll, h]

theorem performAll_append (fs : Files) (s : Store) (as bs : List Action) :
    performAll fs s (as ++ bs) =
      match performAll fs s as with
      | (t, none) => performAll fs t bs
      | (t, some e) => (t, some e) := by
  induction as generalizing s with
  | nil => rfl
  | cons a as ih =>
    rw [List.cons_append, performAll, performAll]
    split
    · exact ih _
    · rfl

/-- What is reported of actions: the documents that they opened and edited, if none of them failed. -/
def report (touched : List Uri) (r : Store × Option DocumentError) :
    Store × Except DocumentError (List Uri) :=
  match r with
  | (s, none) => (s, .ok touched)
  | (s, some e) => (s, .error e)

end Store

/-! ### Reports -/

/-- The editor opens the cells of a notebook, and then the notebook. -/
def NotebookOpening.actions (o : NotebookOpening) : List Store.Action :=
  o.texts.map .openCell ++ [.revise o.uri (.enter o)]

/-- A splice of the list of cells, then the closed documents, then the opened ones. -/
def CellSplice.actions (notebook : Uri) (c : CellSplice) : List Store.Action :=
  .revise notebook (.splice c) :: c.closed.map (.closeCell notebook) ++ c.opened.map .openCell

/-- What a change of a notebook does to cells: to their list, to cells in place, and to their texts. -/
def NotebookChange.cellActions (c : NotebookChange) : List Store.Action :=
  (c.splice.map (·.actions c.uri)).getD [] ++
    (c.data.map fun data => Store.Action.revise c.uri (.replace data)).toList ++
    c.edits.map .editCell

/-- A change of a notebook: its cells, and the version last. -/
def NotebookChange.actions (c : NotebookChange) : List Store.Action :=
  c.cellActions ++ [.revise c.uri (.date c.version)]

/-- What a change does to cells: it revises the notebook, closes and opens documents of the splice, puts cells
in place, or edits texts. -/
theorem NotebookChange.mem_cellActions_iff {c : NotebookChange} {a : Store.Action} :
    a ∈ c.cellActions ↔
      (∃ splice, c.splice = some splice ∧ (a = .revise c.uri (.splice splice) ∨
        (∃ uri ∈ splice.closed, a = .closeCell c.uri uri) ∨ ∃ cell ∈ splice.opened, a = .openCell cell)) ∨
      (∃ data, c.data = some data ∧ a = .revise c.uri (.replace data)) ∨
      ∃ edit ∈ c.edits, a = .editCell edit := by
  cases hc : c.splice <;> cases hd : c.data <;>
    simp [cellActions, CellSplice.actions, hc, hd, eq_comm, or_assoc]

namespace Store

variable {fs : Files}

theorem write_of_ok {s t : Store} {uri : Uri} {language : String} {text : Option String} {d : Document}
    (h : s.register fs uri language text = (t, .ok d)) (f : Document → Document) :
    s.write fs uri language text f = (t.update uri f, none) := by
  rw [write, h]

theorem write_of_error {s t : Store} {uri : Uri} {language : String} {text : Option String}
    {e : DocumentError} (h : s.register fs uri language text = (t, .error e))
    (f : Document → Document) : s.write fs uri language text f = (t, some e) := by
  rw [write, h]

theorem report_fst (touched : List Uri) (r : Store × Option DocumentError) :
    (report touched r).1 = r.1 := by
  obtain ⟨s, _ | e⟩ := r <;> rfl

theorem report_ok_iff {t : Store} {touched uris : List Uri} {r : Store × Option DocumentError} :
    report touched r = (t, .ok uris) ↔ r = (t, none) ∧ uris = touched := by
  obtain ⟨s, _ | e⟩ := r <;> simp [report, eq_comm]

theorem report_error_iff {t : Store} {touched : List Uri} {r : Store × Option DocumentError}
    {e : DocumentError} : report touched r = (t, .error e) ↔ r = (t, some e) := by
  obtain ⟨s, _ | e'⟩ := r <;> simp [report]

theorem openCells_eq (s : Store) (cells : List CellText) :
    openCells fs s cells = report (cells.map (·.uri)) (performAll fs s (cells.map .openCell)) := by
  induction cells generalizing s with
  | nil => rfl
  | cons cell cells ih =>
    rw [openCells, List.map_cons, List.map_cons]
    split
    · next h => rw [performAll_cons_of_failed (a := .openCell cell) (write_of_error h _), report]
    · next h =>
      rw [performAll_cons_of_done (a := .openCell cell) (write_of_ok h _), ih]
      generalize performAll fs _ _ = r
      obtain ⟨t, _ | e⟩ := r <;> rfl

theorem editCells_eq (s : Store) (edits : List CellEdit) :
    editCells fs s edits = report (edits.map (·.uri)) (performAll fs s (edits.map .editCell)) := by
  induction edits generalizing s with
  | nil => rfl
  | cons edit edits ih =>
    rw [editCells, List.map_cons, List.map_cons]
    split
    · next h => rw [performAll_cons_of_failed (a := .editCell edit) (write_of_error h _), report]
    · next h =>
      rw [performAll_cons_of_done (a := .editCell edit) (write_of_ok h _), ih]
      generalize performAll fs _ _ = r
      obtain ⟨t, _ | e⟩ := r <;> rfl

theorem performAll_closeCell (s : Store) (notebook : Uri) (closed : List Uri) :
    performAll fs s (closed.map (.closeCell notebook)) =
      (closed.foldl (closeCell notebook) s, none) := by
  induction closed generalizing s with
  | nil => rfl
  | cons u us ih => exact ih _

/-- A notebook is opened by its actions. -/
theorem openNotebook_eq (s : Store) (o : NotebookOpening) :
    s.openNotebook fs o = report (o.texts.map (·.uri)) (performAll fs s o.actions) := by
  rw [openNotebook, openCells_eq, NotebookOpening.actions, performAll_append]
  generalize performAll fs s (o.texts.map .openCell) = r
  obtain ⟨t, _ | e⟩ := r <;> rfl

theorem spliceCells_eq (s : Store) (notebook : Uri) (c : CellSplice) :
    s.spliceCells fs notebook c =
      report (c.opened.map (·.uri)) (performAll fs s (c.actions notebook)) := by
  rw [spliceCells, openCells_eq, CellSplice.actions, List.cons_append, performAll_cons_of_done rfl,
    performAll_append, performAll_closeCell]
  rfl

theorem spliceReported_eq (s : Store) (notebook : Uri) (splice : Option CellSplice) :
    s.spliceReported fs notebook splice =
      report ((splice.map (·.opened.map (·.uri))).getD [])
        (performAll fs s ((splice.map (·.actions notebook)).getD [])) := by
  cases splice with
  | none => rfl
  | some c => exact spliceCells_eq s notebook c

theorem performAll_replace (s : Store) (notebook : Uri) (data : Option (List Cell)) :
    performAll fs s (data.map fun data => Action.revise notebook (.replace data)).toList =
      (s.replaceCells notebook data, none) := by
  cases data <;> rfl

/-- A notebook is changed by its actions. -/
theorem changeNotebook_eq (s : Store) (c : NotebookChange) :
    s.changeNotebook fs c =
      report ((c.splice.map (·.opened.map (·.uri))).getD [] ++ c.edits.map (·.uri))
        (performAll fs s c.actions) := by
  rw [changeNotebook, spliceReported_eq, NotebookChange.actions, NotebookChange.cellActions]
  simp only [performAll_append]
  generalize performAll fs s ((c.splice.map (·.actions c.uri)).getD []) = r
  obtain ⟨t, _ | e⟩ := r
  · simp only [report, performAll_replace, editCells_eq]
    generalize performAll fs _ (c.edits.map .editCell) = r
    obtain ⟨u, _ | e⟩ := r <;> rfl
  · rfl

end Store

end LanguageServer
