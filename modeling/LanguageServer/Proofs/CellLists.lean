import LanguageServer.Proofs.ClosedCells

/-!
# What a change makes of the cells of a notebook

A change of a notebook splices its list of cells, takes out the cells of documents that it closes, and puts
cells in the places of others. Seen from the notebook, the actions of a change are steps of a draft: the
notebook as it is so far, and the cells that were taken out. The other notebooks stay, unless such a cell
has their name.

* `Notebook.spliceUpTo?`: the splice on indices that have a greatest one;
* `Notebook.Closes`, `Notebook.Replaces`: what it means to close documents and to put cells in place;
* `NotebookChange.Splices`: what the splice of a change asks for;
* `Store.Draft`, `Draft.advance`, `Draft.Shows`: drafts, and the stores that show them;
* `Draft.Shows.perform`, `Draft.Shows.performAll`: one action, and a list of them;
* `Store.cells_edited`: what a change does to the notebook and to the others.
-/

namespace LanguageServer

/-! ### Splices -/

namespace Notebook

/-- The splice, step by step on indices up to a greatest one. The first place is cut at the end of the list;
the sum stops at the greatest index, and is cut too. A range that the list does not have is refused. -/
def spliceUpTo? (greatest : Nat) (change : CellSplice) (cells : List Cell) : Option (List Cell) :=
  let start := min change.start cells.length
  let stop := min (min (start + change.deleteCount) greatest) cells.length
  if start ≤ stop ∧ stop ≤ cells.length then
    some (cells.take start ++ change.cells ++ cells.drop stop)
  else none

variable {change : CellSplice} {cells before after : List Cell} {cell old : Cell} {u : Uri}

/-- Places beyond the end of the list are its end. -/
theorem splice_eq (change : CellSplice) (cells : List Cell) :
    splice change cells =
      cells.take (min change.start cells.length) ++ change.cells ++
        cells.drop (min (change.start + change.deleteCount) cells.length) := by
  have first : cells.take (min change.start cells.length) = cells.take change.start := by
    rw [← List.take_take, List.take_length]
  have last : cells.drop (min (change.start + change.deleteCount) cells.length) =
      cells.drop (change.start + change.deleteCount) := by
    by_cases inside : change.start + change.deleteCount ≤ cells.length
    · rw [Nat.min_eq_left inside]
    · rw [Nat.min_eq_right (by omega), List.drop_length, List.drop_eq_nil_of_le (by omega)]
  rw [splice, first, last]

/-- No range is refused, and the greatest index is never missed. -/
theorem spliceUpTo?_eq {greatest : Nat} (h : cells.length ≤ greatest) :
    spliceUpTo? greatest change cells = some (splice change cells) := by
  have stop : min (min (min change.start cells.length + change.deleteCount) greatest) cells.length =
      min (change.start + change.deleteCount) cells.length := by omega
  rw [spliceUpTo?, stop, splice_eq, if_pos (by omega)]

/-! ### The first cell of a document -/

/-- A document is the name of no cell, or there is a first cell that has it. -/
theorem first_cell (u : Uri) (cells : List Cell) :
    u ∉ cells.map (·.document) ∧ cells.find? (·.document == u) = none ∨
      ∃ before cell after, cells = before ++ cell :: after ∧ cell.document = u ∧
        u ∉ before.map (·.document) ∧ cells.find? (·.document == u) = some cell := by
  cases found : cells.find? (·.document == u) with
  | none =>
    refine Or.inl ⟨fun mem => ?_, rfl⟩
    obtain ⟨cell, hc, rfl⟩ := List.mem_map.1 mem
    simpa using List.find?_eq_none.1 found cell hc
  | some cell =>
    obtain ⟨name, before, after, rfl, others⟩ := List.find?_eq_some_iff_append.1 found
    refine Or.inr ⟨before, cell, after, rfl, by simpa using name, fun mem => ?_, rfl⟩
    obtain ⟨c, hc, he⟩ := List.mem_map.1 mem
    simpa [he] using others c hc

theorem eraseCell_of_first (name : cell.document = u) (first : u ∉ before.map (·.document)) :
    eraseCell u (before ++ cell :: after) = before ++ after := by
  have others : ∀ c ∈ before, ¬ (c.document == u) = true := fun c hc he =>
    first (List.mem_map.2 ⟨c, hc, by simpa using he⟩)
  rw [eraseCell, List.eraseP_append_right _ others, List.eraseP_cons_of_pos (by simpa using name)]

theorem replaceCell_of_first (name : old.document = cell.document)
    (first : cell.document ∉ before.map (·.document)) :
    replaceCell cell (before ++ old :: after) = before ++ cell :: after := by
  induction before with
  | nil => simp [replaceCell, name]
  | cons c before ih =>
    rw [List.map_cons, List.mem_cons, not_or] at first
    have other : ¬ (c.document == cell.document) = true := by simpa using Ne.symm first.1
    rw [List.cons_append, replaceCell, if_neg other, ih first.2, List.cons_append]

theorem replaceCell_of_not_mem (h : cell.document ∉ cells.map (·.document)) :
    replaceCell cell cells = cells := by
  induction cells with
  | nil => rfl
  | cons c cells ih =>
    rw [List.map_cons, List.mem_cons, not_or] at h
    have other : ¬ (c.document == cell.document) = true := by simpa using Ne.symm h.1
    rw [replaceCell, if_neg other, ih h.2]

/-! ### Closing documents and putting cells in place -/

/-- Documents are closed one after the other. Each takes out the first of the remaining cells that has its
name, if there is one; `removed` are the cells that are taken out. -/
inductive Closes : (documents : List Uri) → (cells removed left : List Cell) → Prop
  | done (cells : List Cell) : Closes [] cells [] cells
  | found {u : Uri} {us : List Uri} {before after removed left : List Cell} {cell : Cell}
    (name : cell.document = u) (first : u ∉ before.map (·.document))
    (later : Closes us (before ++ after) removed left) :
    Closes (u :: us) (before ++ cell :: after) (cell :: removed) left
  | missing {u : Uri} {us : List Uri} {cells removed left : List Cell}
    (unknown : u ∉ cells.map (·.document)) (later : Closes us cells removed left) :
    Closes (u :: us) cells removed left

/-- Cells are put in place one after the other. Each takes the place of the first cell of its document, if
there is one. -/
inductive Replaces : (data cells new : List Cell) → Prop
  | done (cells : List Cell) : Replaces [] cells cells
  | found {cell old : Cell} {data before after new : List Cell}
    (name : old.document = cell.document) (first : cell.document ∉ before.map (·.document))
    (later : Replaces data (before ++ cell :: after) new) :
    Replaces (cell :: data) (before ++ old :: after) new
  | missing {cell : Cell} {data cells new : List Cell}
    (unknown : cell.document ∉ cells.map (·.document)) (later : Replaces data cells new) :
    Replaces (cell :: data) cells new

/-- The documents of the cells stay in their order. -/
theorem Replaces.documents {data cells new : List Cell} (h : Replaces data cells new) :
    new.map (·.document) = cells.map (·.document) := by
  induction h with
  | done => rfl
  | found name first later ih => simp [ih, name]
  | missing unknown later ih => exact ih

theorem replaces_foldl (data cells : List Cell) :
    Replaces data cells (data.foldl (fun cells cell => replaceCell cell cells) cells) := by
  induction data generalizing cells with
  | nil => exact .done cells
  | cons cell data ih =>
    rw [List.foldl_cons]
    obtain ⟨unknown, -⟩ | ⟨before, old, after, rfl, name, first, -⟩ := first_cell cell.document cells
    · rw [replaceCell_of_not_mem unknown]
      exact .missing unknown (ih cells)
    · rw [replaceCell_of_first name first]
      exact .found name first (ih _)

end Notebook

/-! ### What a change asks for -/

/-- What the splice of a change makes of a list of cells: the cells before the start, those that are inserted,
and the cells after those that are removed, where places beyond the end of the list are its end. The same on
indices that reach up to the length of the list. -/
def NotebookChange.Splices (c : NotebookChange) (old new : List Cell) : Prop :=
  match c.splice with
  | none => new = old
  | some change =>
    new = old.take (min change.start old.length) ++ change.cells ++
      old.drop (min (change.start + change.deleteCount) old.length) ∧
    ∀ greatest, old.length ≤ greatest → Notebook.spliceUpTo? greatest change old = some new

/-- The documents that a change of a notebook closes. -/
def NotebookChange.closings (c : NotebookChange) : List Uri := (c.splice.map (·.closed)).getD []

namespace Store

variable {s t : Store} {fs : Files} {notebook closed : Uri} {as : List Action}
  {change : NotebookChange} {uris : List Uri}

/-! ### One notebook and the others -/

/-- The other notebooks. -/
def others (s : Store) (notebook : Uri) : List Notebook := s.notebooks.filter (·.uri != notebook)

theorem Unique.others_withNotebook (hs : s.Unique) (notebook : Uri) :
    (s.withNotebook notebook).others notebook = s.others notebook := by
  simp only [withNotebook, hs.removeDuplicates_eq]
  split
  · rfl
  · simp [others, Notebook.fresh]

theorem Unique.others_updateNotebook (hs : s.Unique) {f : Notebook → Notebook}
    (name : ∀ n, (f n).uri = n.uri) :
    (s.updateNotebook notebook f).others notebook = s.others notebook := by
  have kept (ns : List Notebook) : (updateFirst (·.uri == notebook) f ns).filter (·.uri != notebook) =
      ns.filter (·.uri != notebook) := by
    induction ns with
    | nil => rfl
    | cons n ns ih =>
      unfold updateFirst
      by_cases hn : n.uri = notebook
      · simp [hn, name]
      · simp [hn, ih]
  rw [← hs.others_withNotebook]
  exact kept _

theorem others_remove (s : Store) (notebook closed : Uri) :
    (s.remove closed).others notebook = (s.others notebook).filter (·.uri != closed) := by
  rw [others, remove, others, List.filter_comm]

/-! ### Drafts -/

/-- A notebook as it is so far, and the cells that were taken out of it. -/
structure Draft where
  notebook : Notebook
  removed : List Cell

/-- An action that concerns no notebook but one, as far as its cells go: it closes and revises nothing of
another, and does not close the notebook itself. -/
def Action.About (notebook : Uri) : Action → Prop
  | .openCell _ | .editCell _ => True
  | .closeCell book closed => book = notebook ∧ closed ≠ notebook
  | .revise book _ => book = notebook

namespace Draft

/-- What an action does to a draft. -/
def advance (d : Draft) : Action → Draft
  | .openCell _ | .editCell _ => d
  | .closeCell _ closed =>
    match d.notebook.cells.find? (·.document == closed) with
    | some cell =>
      ⟨{ d.notebook with cells := Notebook.eraseCell closed d.notebook.cells }, d.removed ++ [cell]⟩
    | none => d
  | .revise _ revision => { d with notebook := revision.apply d.notebook }

/-- A store that shows a draft: it has the notebook, and those of the other notebooks that it had at first,
except where a cell that was taken out has the name of one. -/
structure Shows (d : Draft) (first : Store) (notebook : Uri) (s : Store) : Prop where
  unique : s.Unique
  own : s.notebookOf notebook = d.notebook
  others : s.others notebook = (first.others notebook).filter (·.uri ∉ d.removed.map (·.document))

/-- The draft of a notebook that nothing was done to. -/
theorem shows_start (hs : s.Unique) (notebook : Uri) : Shows ⟨s.notebookOf notebook, []⟩ s notebook s :=
  ⟨hs, rfl, by simp⟩

variable {d : Draft} {first : Store}

/-- Documents do not matter. -/
theorem Shows.of_notebooks (h : d.Shows first notebook s) (unique : t.Unique)
    (same : t.notebooks = s.notebooks) : d.Shows first notebook t := by
  refine ⟨unique, ?_, ?_⟩
  · rw [← h.own, notebookOf, notebook?, same, notebookOf, notebook?]
  · rw [← h.others, Store.others, same, Store.others]

theorem Shows.withNotebook (h : d.Shows first notebook s) :
    d.Shows first notebook (s.withNotebook notebook) :=
  ⟨(h.unique.advances_withNotebook notebook).unique,
    (h.unique.notebookOf_withNotebook notebook).trans h.own,
    (h.unique.others_withNotebook notebook).trans h.others⟩

theorem Shows.updateNotebook (h : d.Shows first notebook s) {f : Notebook → Notebook}
    (name : ∀ n, (f n).uri = n.uri) :
    Shows { d with notebook := f d.notebook } first notebook (s.updateNotebook notebook f) :=
  ⟨(h.unique.advances_updateNotebook notebook name).unique,
    (h.unique.notebookOf_updateNotebook notebook name).trans (congrArg f h.own),
    (h.unique.others_updateNotebook name).trans h.others⟩

theorem Shows.remove (h : d.Shows first notebook s) {cell : Cell} (alien : cell.document ≠ notebook) :
    Shows { d with removed := d.removed ++ [cell] } first notebook (s.remove cell.document) := by
  refine ⟨(h.unique.advances_remove _).unique, (notebookOf_remove_of_ne alien).trans h.own, ?_⟩
  rw [others_remove, h.others, List.filter_filter]
  refine List.filter_congr fun n _ => ?_
  by_cases name : n.uri = cell.document <;> simp [name]

/-- A document is closed. -/
theorem Shows.closeCell (h : d.Shows first notebook s) (alien : closed ≠ notebook) :
    (d.advance (.closeCell notebook closed)).Shows first notebook (s.closeCell notebook closed) := by
  have isCell_iff : s.isCell notebook closed ↔ closed ∈ d.notebook.cells.map (·.document) := by
    rw [h.unique.isCell_iff, cellsOf_eq, h.own]
  rw [closeCell_eq, advance]
  obtain ⟨unknown, absent⟩ | ⟨before, cell, after, parts, rfl, -, found⟩ :=
    Notebook.first_cell closed d.notebook.cells
  · rw [absent, if_neg (isCell_iff.not.2 unknown)]
    exact h.withNotebook
  · have known : cell.document ∈ d.notebook.cells.map (·.document) := by simp [parts]
    rw [found, if_pos (isCell_iff.2 known)]
    exact (h.withNotebook.updateNotebook
      (f := fun n => { n with cells := Notebook.eraseCell cell.document n.cells }) fun _ => rfl).remove
        alien

/-- **An action is a step of the draft**, whatever it does to documents. -/
theorem Shows.perform (h : d.Shows first notebook s) (fs : Files) {a : Action}
    (about : a.About notebook) :
    (d.advance a).Shows first notebook (a.perform fs s).1 := by
  have unique : (a.perform fs s).1.Unique := by
    obtain ⟨t, he, advances, -⟩ | ⟨e, he⟩ := h.unique.perform_cases fs a <;> rw [he]
    · exact advances.unique
    · exact h.unique
  cases a with
  | openCell cell | editCell edit =>
    refine h.of_notebooks unique ?_
    rw [Action.perform, notebooks_write, h.unique.removeDuplicates_eq]
  | closeCell book closed =>
    obtain ⟨rfl, alien⟩ := about
    exact h.closeCell alien
  | revise book revision =>
    obtain rfl : book = notebook := about
    exact h.updateNotebook revision.uri_apply

/-- Actions are steps of the draft, one after the other. -/
theorem Shows.performAll (h : d.Shows first notebook s) (about : ∀ a ∈ as, a.About notebook)
    (done : performAll fs s as = (t, none)) : (as.foldl advance d).Shows first notebook t := by
  -- along the actions, from any draft: the store after each of them shows the draft after it
  induction as generalizing d s with
  | nil =>
    cases done
    exact h
  | cons a as ih =>
    rw [List.forall_mem_cons] at about
    have step := h.perform fs about.1
    rw [Store.performAll] at done
    split at done
    · next he =>
      rw [he] at step
      exact ih step about.2 done
    · cases done

/-! ### The draft after a change -/

/-- Documents are closed as `Notebook.Closes` has it. -/
theorem exists_foldl_closeCell (d : Draft) (notebook : Uri) (us : List Uri) :
    ∃ removed left, Notebook.Closes us d.notebook.cells removed left ∧
      (us.map (.closeCell notebook)).foldl advance d =
        ⟨{ d.notebook with cells := left }, d.removed ++ removed⟩ := by
  -- along the documents, from any draft: which cells remain is what the first of them changes
  induction us generalizing d with
  | nil => exact ⟨[], _, .done _, by rw [List.append_nil]; rfl⟩
  | cons u us ih =>
    rw [List.map_cons, List.foldl_cons, advance]
    obtain ⟨unknown, absent⟩ | ⟨before, cell, after, parts, name, first, found⟩ :=
      Notebook.first_cell u d.notebook.cells
    · obtain ⟨removed, left, closes, led⟩ := ih d
      rw [absent]
      exact ⟨removed, left, .missing unknown closes, led⟩
    · rw [found, parts, Notebook.eraseCell_of_first name first]
      obtain ⟨removed, left, closes, led⟩ :=
        ih ⟨{ d.notebook with cells := before ++ after }, d.removed ++ [cell]⟩
      refine ⟨cell :: removed, left, .found name first closes, led.trans ?_⟩
      rw [List.append_assoc, List.singleton_append]

theorem foldl_openCell (d : Draft) (cells : List CellText) :
    (cells.map .openCell).foldl advance d = d := by
  rw [List.foldl_map]
  exact List.foldl_fixed cells

theorem foldl_editCell (d : Draft) (edits : List CellEdit) :
    (edits.map .editCell).foldl advance d = d := by
  rw [List.foldl_map]
  exact List.foldl_fixed edits

/-- The splice of a change comes first, then the closings; what it opens does not matter. -/
theorem exists_foldl_splice (d : Draft) (c : NotebookChange) :
    ∃ spliced removed left, c.Splices d.notebook.cells spliced ∧
      Notebook.Closes c.closings spliced removed left ∧
      ((c.splice.map (·.actions c.uri)).getD []).foldl advance d =
        ⟨{ d.notebook with cells := left }, d.removed ++ removed⟩ := by
  cases hc : c.splice with
  | none =>
    refine ⟨d.notebook.cells, [], d.notebook.cells, by simp [NotebookChange.Splices, hc], ?_, by simp⟩
    simpa [NotebookChange.closings, hc] using Notebook.Closes.done d.notebook.cells
  | some change =>
    obtain ⟨removed, left, closes, led⟩ := exists_foldl_closeCell
      (d.advance (.revise c.uri (.splice change))) c.uri change.closed
    refine ⟨Notebook.splice change d.notebook.cells, removed, left, ?_, ?_, ?_⟩
    · rw [NotebookChange.Splices, hc]
      exact ⟨Notebook.splice_eq _ _, fun _ reaches => Notebook.spliceUpTo?_eq reaches⟩
    · rw [NotebookChange.closings, hc]
      exact closes
    · show (change.actions c.uri).foldl advance d = _
      rw [CellSplice.actions, List.cons_append, List.foldl_cons, List.foldl_append, led, foldl_openCell]
      rfl

/-- What a change does to the draft of its notebook, up to the version. -/
theorem exists_foldl_cellActions (d : Draft) (c : NotebookChange) :
    ∃ spliced removed left new, c.Splices d.notebook.cells spliced ∧
      Notebook.Closes c.closings spliced removed left ∧ Notebook.Replaces (c.data.getD []) left new ∧
      c.cellActions.foldl advance d = ⟨{ d.notebook with cells := new }, d.removed ++ removed⟩ := by
  obtain ⟨spliced, removed, left, splices, closes, led⟩ := exists_foldl_splice d c
  refine ⟨spliced, removed, left, _, splices, closes, Notebook.replaces_foldl (c.data.getD []) left, ?_⟩
  rw [NotebookChange.cellActions, List.foldl_append, List.foldl_append, led, foldl_editCell]
  cases c.data <;> rfl

end Draft

/-! ### Duplicates -/

/-- Every action removes duplicates first. -/
theorem perform_removeDuplicates (fs : Files) (s : Store) (a : Action) :
    a.perform fs s.removeDuplicates = a.perform fs s := by
  have again := (unique_removeDuplicates s).removeDuplicates_eq
  have registered (notebook : Uri) :
      s.removeDuplicates.withNotebook notebook = s.withNotebook notebook := by
    simp only [withNotebook, again]
  cases a with
  | openCell | editCell => simp only [Action.perform, write, register, again]
  | closeCell => rw [Action.perform, Action.perform, closeCell_eq, closeCell_eq, isCell, isCell, registered]
  | revise => rw [Action.perform, Action.perform, updateNotebook, updateNotebook, registered]

/-- A change has an action to do, so it removes duplicates. -/
theorem performAll_change_removeDuplicates (fs : Files) (s : Store) (c : NotebookChange) :
    performAll fs s.removeDuplicates c.actions = performAll fs s c.actions := by
  cases actions : c.actions with
  | nil => simp [NotebookChange.actions] at actions
  | cons a as => rw [performAll, perform_removeDuplicates, performAll]

/-! ### Changes -/

theorem about_of_mem_cellActions (foreign : change.uri ∉ change.closings) :
    ∀ a ∈ change.cellActions, a.About change.uri := by
  intro a ha
  obtain ⟨splice, hc, rfl | ⟨closed, mem, rfl⟩ | ⟨cell, -, rfl⟩⟩ | ⟨data, -, rfl⟩ | ⟨edit, -, rfl⟩ :=
    NotebookChange.mem_cellActions_iff.1 ha
  · exact rfl
  · rw [NotebookChange.closings, hc] at foreign
    exact ⟨rfl, fun self => foreign (self ▸ mem)⟩
  · exact trivial
  · exact rfl
  · exact trivial

/-- A change that does not fail dates its notebook after all else is done. -/
theorem exists_of_changeNotebook (changed : s.changeNotebook fs change = (t, .ok uris)) :
    ∃ u, performAll fs s.removeDuplicates change.cellActions = (u, none) ∧
      t = u.updateNotebook change.uri (Revision.date change.version).apply := by
  rw [changeNotebook_eq] at changed
  obtain ⟨done, -⟩ := report_ok_iff.1 changed
  rw [← performAll_change_removeDuplicates, NotebookChange.actions, performAll_append] at done
  split at done
  · next u led =>
    cases done
    exact ⟨u, led, rfl⟩
  · cases done

/-- **What a change does to notebooks.** If a change of a notebook does not fail, and does not close the
notebook itself, the cells of the notebook are spliced, those of closed documents are taken out, and cells are
put in place, which leaves the documents of the cells in their order. The notebook has the version of the
change, and all else of it is as before. The other notebooks are as before and in their order, without those
that have the name of a cell that was taken out. -/
theorem cells_edited (foreign : change.uri ∉ change.closings)
    (changed : s.changeNotebook fs change = (t, .ok uris)) :
    ∃ spliced removed left new,
      change.Splices (s.removeDuplicates.notebookOf change.uri).cells spliced ∧
      Notebook.Closes change.closings spliced removed left ∧ Notebook.Replaces (change.data.getD []) left new ∧
      new.map (·.document) = left.map (·.document) ∧
      t.notebook? change.uri = some { s.removeDuplicates.notebookOf change.uri with
        cells := new
        version := some change.version } ∧
      t.others change.uri =
        (s.removeDuplicates.others change.uri).filter (·.uri ∉ removed.map (·.document)) := by
  obtain ⟨u, led, rfl⟩ := exists_of_changeNotebook changed
  have shown := (Draft.shows_start (unique_removeDuplicates s) change.uri).performAll
    (about_of_mem_cellActions foreign) led
  obtain ⟨spliced, removed, left, new, splices, closes, replaces, drafted⟩ :=
    Draft.exists_foldl_cellActions ⟨s.removeDuplicates.notebookOf change.uri, []⟩ change
  rw [drafted] at shown
  have name := (Revision.date change.version).uri_apply
  refine ⟨spliced, removed, left, new, splices, closes, replaces, replaces.documents, ?_, ?_⟩
  · rw [shown.unique.notebook?_updateNotebook _ name, shown.own]
    rfl
  · rw [shown.unique.others_updateNotebook name, shown.others, List.nil_append]

end Store

/-! ### A notebook with a namesake -/

namespace Sample

/-- A notebook in which one cell stands twice. -/
def longBook : NotebookOpening :=
  { shortBook with cells := [⟨.code, codeCell.uri⟩, ⟨.code, proseCell.uri⟩, ⟨.code, codeCell.uri⟩] }

/-- A notebook that has the name of a cell. -/
def namesake : NotebookOpening := ⟨proseCell.uri, "jupyter-notebook", 1, [], []⟩

/-- The store in which both are open. -/
def crowdedShelf : Store :=
  ((({} : Store).openNotebook ⟨[]⟩ namesake).1.openNotebook ⟨[]⟩ longBook).1

/-- A cell is inserted beyond the end of the list and becomes prose; two others are closed, and a document
that is no cell. -/
def rearranging : NotebookChange :=
  ⟨longBook.uri, 2,
    some ⟨5, 0xFFFFFFFF, [⟨.code, ⟨"cell:c"⟩⟩], [], [proseCell.uri, ⟨"cell:z"⟩, codeCell.uri]⟩,
    some [⟨.markup, ⟨"cell:c"⟩⟩], []⟩

end Sample

namespace Store

open Sample

/-- The case of a notebook in which one cell stands twice, and another has a notebook as its namesake. -/
theorem crowded_shelf_edited :
    ∃ t, rearranging.uri ∉ rearranging.closings ∧
      crowdedShelf.changeNotebook ⟨[]⟩ rearranging = (t, .ok []) ∧
      t.cellsOf rearranging.uri = [⟨.code, codeCell.uri⟩, ⟨.markup, ⟨"cell:c"⟩⟩] ∧
      t.others rearranging.uri = [] ∧
      ∃ spliced removed left new,
        rearranging.Splices (crowdedShelf.removeDuplicates.notebookOf rearranging.uri).cells spliced ∧
        Notebook.Closes rearranging.closings spliced removed left ∧
        Notebook.Replaces (rearranging.data.getD []) left new ∧
        new.map (·.document) = left.map (·.document) ∧
        t.notebook? rearranging.uri = some
          { crowdedShelf.removeDuplicates.notebookOf rearranging.uri with
            cells := new
            version := some rearranging.version } ∧
        t.others rearranging.uri =
          (crowdedShelf.removeDuplicates.others rearranging.uri).filter
            (·.uri ∉ removed.map (·.document)) := by
  have foreign : rearranging.uri ∉ rearranging.closings := by decide
  have changed : crowdedShelf.changeNotebook ⟨[]⟩ rearranging =
      ((crowdedShelf.changeNotebook ⟨[]⟩ rearranging).1, .ok []) := rfl
  exact ⟨_, foreign, changed, rfl, rfl, cells_edited foreign changed⟩

end Store

end LanguageServer
