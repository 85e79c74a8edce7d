import LanguageServer.Proofs.Failing

/-!
# Cells that a change closes

A change of a notebook closes documents one after the other, and closes only those that it finds among the
cells of the notebook at that time. The splice comes first, so a cell that the same change takes out of the
list is not found, and its document stays open.

* `CellSplice.Finds`: a change finds a document that it closes;
* `Store.cellsOf`, `Store.notebookOf`: the cells of a notebook, and all of it;
* `Store.Unique.isCell_closeCell`, `Store.Unique.find?_closeCell`: what closing one document leaves;
* `Store.Unique.find?_closeCells`: what closing many documents leaves;
* `Store.closed_cell_removed_iff`: which of the closed documents are removed.
-/

namespace LanguageServer

/-! ### What a change finds -/

/-- The documents whose cells a splice leaves in the list. -/
def CellSplice.leaves (c : CellSplice) (cells : List Cell) : List Uri :=
  (Notebook.splice c cells).map (·.document)

/-- A change that splices the cells of a notebook finds a document that it closes: the splice leaves its
cell, and the notebook itself is not closed before it, as one of its cells. -/
def CellSplice.Finds (c : CellSplice) (notebook : Uri) (cells : List Cell) (u : Uri) : Prop :=
  u ∈ c.leaves cells ∧ (notebook ∈ c.closed.takeWhile (· != u) → notebook ∉ c.leaves cells)

instance (c : CellSplice) (notebook : Uri) (cells : List Cell) (u : Uri) :
    Decidable (c.Finds notebook cells u) := inferInstanceAs (Decidable (_ ∧ _))

namespace Store

variable {s t : Store} {notebook u closed : Uri} {fs : Files}

/-! ### The cells of a notebook -/

/-- The cells of a notebook; there are none if it is not registered. -/
def cellsOf (s : Store) (notebook : Uri) : List Cell := ((s.notebook? notebook).map (·.cells)).getD []

/-- The notebook of a name, as it is or as it would be registered. -/
def notebookOf (s : Store) (notebook : Uri) : Notebook := (s.notebook? notebook).getD (.fresh notebook)

theorem cellsOf_eq (s : Store) (notebook : Uri) : s.cellsOf notebook = (s.notebookOf notebook).cells := by
  rw [cellsOf, notebookOf]
  cases s.notebook? notebook <;> rfl

/-- The notebook is registered as it is, or with no cells. -/
theorem Unique.notebook?_withNotebook (hs : s.Unique) (notebook : Uri) :
    (s.withNotebook notebook).notebook? notebook = some (s.notebookOf notebook) := by
  simp only [withNotebook, hs.removeDuplicates_eq, notebookOf, notebook?]
  cases found : s.notebooks.find? (·.uri == notebook) with
  | some n =>
    have known : s.notebooks.any (·.uri == notebook) = true :=
      List.any_eq_true.2 ⟨n, List.mem_of_find?_eq_some found, by simpa using List.find?_some found⟩
    rw [if_pos known, found]
    rfl
  | none =>
    have unknown : ¬ s.notebooks.any (·.uri == notebook) = true := by
      simpa using found
    rw [if_neg unknown, List.find?_append, found]
    simp [Notebook.fresh]

theorem Unique.notebookOf_withNotebook (hs : s.Unique) (notebook : Uri) :
    (s.withNotebook notebook).notebookOf notebook = s.notebookOf notebook := by
  rw [notebookOf, hs.notebook?_withNotebook, Option.getD_some]

theorem Unique.cellsOf_withNotebook (hs : s.Unique) (notebook : Uri) :
    (s.withNotebook notebook).cellsOf notebook = s.cellsOf notebook := by
  rw [cellsOf_eq, hs.notebookOf_withNotebook, cellsOf_eq]

/-- The notebook that is changed is registered. -/
theorem Unique.notebook?_updateNotebook (hs : s.Unique) (notebook : Uri) {f : Notebook → Notebook}
    (name : ∀ n, (f n).uri = n.uri) :
    (s.updateNotebook notebook f).notebook? notebook = some (f (s.notebookOf notebook)) := by
  have changed : (s.updateNotebook notebook f).notebook? notebook =
      ((s.withNotebook notebook).notebook? notebook).map f :=
    find?_updateFirst (fun n hn => by simpa [name n] using hn) _
  rw [changed, hs.notebook?_withNotebook, Option.map_some]

theorem Unique.notebookOf_updateNotebook (hs : s.Unique) (notebook : Uri) {f : Notebook → Notebook}
    (name : ∀ n, (f n).uri = n.uri) :
    (s.updateNotebook notebook f).notebookOf notebook = f (s.notebookOf notebook) := by
  rw [notebookOf, hs.notebook?_updateNotebook notebook name, Option.getD_some]

theorem Unique.cellsOf_updateNotebook (hs : s.Unique) (notebook : Uri) (g : List Cell → List Cell) :
    (s.updateNotebook notebook fun n => { n with cells := g n.cells }).cellsOf notebook =
      g (s.cellsOf notebook) := by
  rw [cellsOf_eq, hs.notebookOf_updateNotebook (f := fun n => { n with cells := g n.cells }) notebook
    fun _ => rfl, cellsOf_eq]

theorem cellsOf_remove_self : (s.remove notebook).cellsOf notebook = [] := by
  have gone : (s.remove notebook).notebook? notebook = none := by simp [notebook?, remove]
  rw [cellsOf, gone]
  rfl

theorem notebookOf_remove_of_ne (hu : u ≠ notebook) :
    (s.remove u).notebookOf notebook = s.notebookOf notebook := by
  have kept : (s.remove u).notebook? notebook = s.notebook? notebook :=
    find?_filter_of_ne Notebook.uri hu s.notebooks
  rw [notebookOf, kept, notebookOf]

theorem cellsOf_remove_of_ne (hu : u ≠ notebook) :
    (s.remove u).cellsOf notebook = s.cellsOf notebook := by
  rw [cellsOf_eq, notebookOf_remove_of_ne hu, cellsOf_eq]

theorem Unique.isCell_iff (hs : s.Unique) :
    s.isCell notebook u ↔ u ∈ (s.cellsOf notebook).map (·.document) := by
  rw [isCell, hs.notebook?_withNotebook, cellsOf_eq]
  simp

theorem Unique.isCell_withNotebook (hs : s.Unique) :
    (s.withNotebook notebook).isCell notebook u ↔ s.isCell notebook u := by
  rw [(hs.advances_withNotebook notebook).unique.isCell_iff, hs.cellsOf_withNotebook, hs.isCell_iff]

/-! ### Documents of notebooks that are registered or changed -/

theorem Unique.find?_withNotebook (hs : s.Unique) (notebook u : Uri) :
    (s.withNotebook notebook).find? u = s.find? u :=
  (edited_withNotebook (fun _ => False) s notebook).find?_eq hs.documents not_false

theorem Unique.find?_updateNotebook (hs : s.Unique) (notebook u : Uri) (f : Notebook → Notebook) :
    (s.updateNotebook notebook f).find? u = s.find? u :=
  (edited_updateNotebook (fun _ => False) s notebook f).find?_eq hs.documents not_false

/-! ### Closing one document -/

theorem mem_eraseCell_of_ne {cells : List Cell} (hu : u ≠ closed) :
    u ∈ (Notebook.eraseCell closed cells).map (·.document) ↔ u ∈ cells.map (·.document) := by
  simp only [List.mem_map, Notebook.eraseCell]
  refine exists_congr fun cell => and_congr_left fun hc => ?_
  exact List.mem_eraseP_of_neg (by simpa [hc] using hu)

theorem closeCell_of_not_isCell (h : ¬ s.isCell notebook closed) :
    s.closeCell notebook closed = s.withNotebook notebook := by
  rw [closeCell_eq, if_neg h]

/-- The other cells stay, unless the notebook itself is removed as one of its cells. -/
theorem Unique.isCell_closeCell (hs : s.Unique) (notebook : Uri) (hu : u ≠ closed) :
    (s.closeCell notebook closed).isCell notebook u ↔
      s.isCell notebook u ∧ ¬ (closed = notebook ∧ s.isCell notebook closed) := by
  have unique := (hs.advances_closeCell notebook closed).unique
  by_cases cell : s.isCell notebook closed
  · rw [unique.isCell_iff, closeCell_eq, if_pos cell]
    by_cases self : closed = notebook
    · simp [self, cellsOf_remove_self, self ▸ cell]
    · rw [cellsOf_remove_of_ne self,
        (hs.advances_withNotebook notebook).unique.cellsOf_updateNotebook notebook
          (Notebook.eraseCell closed),
        hs.cellsOf_withNotebook, mem_eraseCell_of_ne hu, hs.isCell_iff]
      simp [self]
  · rw [closeCell_of_not_isCell cell, hs.isCell_withNotebook]
    simp [cell]

theorem Unique.isCell_self_closeCell (hs : s.Unique)
    (other : ¬ (closed = notebook ∧ s.isCell notebook closed)) :
    (s.closeCell notebook closed).isCell notebook notebook ↔ s.isCell notebook notebook := by
  by_cases self : closed = notebook
  · rw [closeCell_of_not_isCell fun cell => other ⟨self, cell⟩, hs.isCell_withNotebook]
  · rw [hs.isCell_closeCell notebook (Ne.symm self)]
    simp [self]

/-- The document is removed if it is a cell, and the others stay. -/
theorem Unique.find?_closeCell (hs : s.Unique) :
    (s.closeCell notebook closed).find? u = none ↔
      s.find? u = none ∨ u = closed ∧ s.isCell notebook u := by
  have registered := hs.advances_withNotebook notebook
  by_cases cell : s.isCell notebook closed
  · rw [closeCell_eq, if_pos cell]
    by_cases self : closed = u
    · simp [self, find?_remove_self, self ▸ cell]
    · rw [find?_remove_of_ne self, registered.unique.find?_updateNotebook, hs.find?_withNotebook]
      simp [Ne.symm self]
  · rw [closeCell_of_not_isCell cell, hs.find?_withNotebook]
    have other : ¬ (u = closed ∧ s.isCell notebook u) := fun ⟨self, found⟩ => cell (self ▸ found)
    simp [other]

/-! ### Closing many documents -/

/-- **A document is removed if it is a cell.** It is not found any more once the notebook itself was closed
before it, as one of its cells. -/
theorem Unique.find?_closeCells (hs : s.Unique) (cs : List Uri) :
    (cs.foldl (closeCell notebook) s).find? u = none ↔
      s.find? u = none ∨ u ∈ cs ∧ s.isCell notebook u ∧
        (notebook ∈ cs.takeWhile (· != u) → ¬ s.isCell notebook notebook) := by
  -- along the closings, from any store: which cells there are still is what the first one changes
  induction cs generalizing s with
  | nil => simp
  | cons c cs ih =>
    have unique := (hs.advances_closeCell notebook c).unique
    rw [List.foldl_cons, ih unique, hs.find?_closeCell]
    by_cases self : u = c
    · -- it is closed first; if it is no cell now, then it is none later
      subst self
      have same : (s.closeCell notebook u).isCell notebook u → s.isCell notebook u := by
        intro later
        by_contra never
        rw [closeCell_of_not_isCell never, hs.isCell_withNotebook] at later
        exact never later
      have first : (u :: cs).takeWhile (· != u) = [] := by simp
      rw [first]
      grind
    · -- another one is closed first
      have first : (c :: cs).takeWhile (· != u) = c :: cs.takeWhile (· != u) := by
        simp [Ne.symm self]
      rw [hs.isCell_closeCell notebook self, first, List.mem_cons, List.mem_cons]
      by_cases gone : c = notebook ∧ s.isCell notebook c
      · -- that is the notebook, and there are no cells any more
        obtain ⟨rfl, cell⟩ := gone
        simp [self, cell]
      · have alien : notebook = c → ¬ s.isCell notebook notebook :=
          fun he cell => gone ⟨he.symm, he ▸ cell⟩
        rw [hs.isCell_self_closeCell gone]
        grind

/-! ### Changes of a notebook -/

variable {change : NotebookChange} {splice : CellSplice} {uris : List Uri}

/-- Actions that close nothing are about the documents that they touch. -/
theorem ClosesNothing.flatMap_names {as : List Action} (gentle : ClosesNothing as) :
    as.flatMap Action.names = as.flatMap Action.touches := by
  refine List.flatMap_congr fun a ha => ?_
  cases a with
  | closeCell notebook closed => exact absurd ha (gentle notebook closed)
  | openCell | editCell | revise => rfl

/-- A change that splices the list of cells removes duplicates first. -/
theorem changeNotebook_removeDuplicates (fs : Files) (s : Store) (hsplice : change.splice = some splice) :
    s.removeDuplicates.changeNotebook fs change = s.changeNotebook fs change := by
  simp only [changeNotebook, hsplice, spliceReported, spliceCells, updateNotebook, withNotebook,
    (unique_removeDuplicates s).removeDuplicates_eq]

/-- The splice comes before the closings. -/
theorem Unique.isCell_splice (hs : s.Unique) :
    (s.updateNotebook notebook (Revision.splice splice).apply).isCell notebook u ↔
      u ∈ splice.leaves (s.cellsOf notebook) := by
  have spliced := hs.advances_updateNotebook notebook (Revision.splice splice).uri_apply
  have cells := hs.cellsOf_updateNotebook notebook (Notebook.splice splice)
  rw [spliced.unique.isCell_iff, CellSplice.leaves, ← cells]
  rfl

/-- A change with a splice does what comes after the closings in the store that they lead to. -/
theorem performAll_afterClosing (hsplice : change.splice = some splice)
    (changed : s.changeNotebook fs change = (t, .ok uris)) :
    performAll fs
      (splice.closed.foldl (closeCell change.uri)
        (s.updateNotebook change.uri (Revision.splice splice).apply))
      (afterClosing change) = (t, none) := by
  rw [changeNotebook_eq] at changed
  obtain ⟨done, -⟩ := report_ok_iff.1 changed
  rw [actions_eq_append, hsplice, Option.map_some, Option.getD_some, List.cons_append,
    performAll_cons_of_done rfl, performAll_append, performAll_closeCell] at done
  exact done

theorem Unique.find?_changeNotebook (hs : s.Unique) (hsplice : change.splice = some splice)
    (changed : s.changeNotebook fs change = (t, .ok uris)) (closed : u ∈ splice.closed)
    (untouched : u ∉ splice.opened.map (·.uri) ++ change.edits.map (·.uri)) :
    t.find? u = none ↔ s.find? u = none ∨ splice.Finds change.uri (s.cellsOf change.uri) u := by
  have spliced := (hs.advances_updateNotebook change.uri (Revision.splice splice).uri_apply).unique
  have closings : performAll fs (s.updateNotebook change.uri (Revision.splice splice).apply)
      (splice.closed.map (.closeCell change.uri)) = _ := performAll_closeCell _ _ _
  have later : Edited (· ∈ (afterClosing change).flatMap Action.names) _ (performAll fs _ _).1 :=
    edited_performAll (fun _ h => h) (splice.closed.foldl (closeCell change.uri)
      (s.updateNotebook change.uri (Revision.splice splice).apply))
  rw [performAll_afterClosing hsplice changed, (closesNothing_afterClosing change).flatMap_names,
    flatMap_touches_afterClosing, hsplice] at later
  rw [later.find?_eq (spliced.of_performAll closings).documents untouched, spliced.find?_closeCells,
    hs.find?_updateNotebook, hs.isCell_splice, hs.isCell_splice]
  simp [closed, CellSplice.Finds]

/-- **Which closed cells are removed.** After a change of a notebook that did not fail, a document that it
closed, and neither opened nor edited, is registered no more just if it was not registered before, or was
found among the cells that the splice left. -/
theorem closed_cell_removed_iff (hsplice : change.splice = some splice)
    (changed : s.changeNotebook fs change = (t, .ok uris)) (closed : u ∈ splice.closed)
    (unopened : u ∉ splice.opened.map (·.uri)) (unedited : u ∉ change.edits.map (·.uri)) :
    t.find? u = none ↔
      s.find? u = none ∨ splice.Finds change.uri (s.removeDuplicates.cellsOf change.uri) u := by
  rw [← changeNotebook_removeDuplicates fs s hsplice] at changed
  have untouched : u ∉ splice.opened.map (·.uri) ++ change.edits.map (·.uri) :=
    fun h => (List.mem_append.1 h).elim unopened unedited
  rw [(unique_removeDuplicates s).find?_changeNotebook hsplice changed closed untouched,
    find?_removeDuplicates_eq_none]

end Store

/-! ### Two ways to close a cell -/

namespace Sample

/-- The cell of a notebook is closed, and the splice leaves it in the list. -/
def closingInPlace : NotebookChange :=
  ⟨shortBook.uri, 2, some ⟨1, 0, [], [], [codeCell.uri]⟩, none, []⟩

/-- The cell of a notebook is taken out of the list, and closed. -/
def cuttingOut : NotebookChange :=
  ⟨shortBook.uri, 2, some ⟨0, 1, [], [], [codeCell.uri]⟩, none, []⟩

end Sample

namespace Store

open Sample

/-- The case of a cell that the splice leaves. -/
theorem cell_left_in_place_removed :
    ∃ t, shelf.changeNotebook ⟨[]⟩ closingInPlace = (t, .ok []) ∧ (shelf.find? codeCell.uri).isSome ∧
      t.find? codeCell.uri = none := by
  have splices : closingInPlace.splice = some ⟨1, 0, [], [], [codeCell.uri]⟩ := rfl
  have changed : shelf.changeNotebook ⟨[]⟩ closingInPlace =
      ((shelf.changeNotebook ⟨[]⟩ closingInPlace).1, .ok []) := rfl
  exact ⟨_, changed, rfl, (closed_cell_removed_iff splices changed (by decide) (by decide)
    (by decide)).2 (Or.inr (by decide))⟩

/-- A cell that the change takes out of the list keeps its document, though the change closes it and
neither opens nor edits it. -/
theorem cell_taken_out_stays_registered :
    ∃ t splice, shelf.Unique ∧ shelf.changeNotebook ⟨[]⟩ cuttingOut = (t, .ok []) ∧
      cuttingOut.splice = some splice ∧ codeCell.uri ∈ splice.closed ∧
      codeCell.uri ∉ splice.opened.map (·.uri) ∧ codeCell.uri ∉ cuttingOut.edits.map (·.uri) ∧
      (t.find? codeCell.uri).isSome :=
  ⟨(shelf.changeNotebook ⟨[]⟩ cuttingOut).1, _, unique_shelf, rfl, rfl, by decide, by decide, by decide,
    rfl⟩

end Store

end LanguageServer
