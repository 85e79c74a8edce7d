import LanguageServer.Proofs.Registry

/-!
# Reports about notebooks that fail

A report about a notebook is done action by action, and nothing is taken back. So a report that fails
leaves what was done before: the store is the one in which the next action could not register its
document.

* `Store.Action.Fails`, `Store.Unique.perform_failed_iff`: why an action fails;
* `Store.StopsAt`, `Store.Unique.performAll_failed_iff`: where a list of actions stops;
* `Store.Undated`: no notebook has a new version;
* `Store.failed_report_stops`: what a failed report leaves.
-/

namespace LanguageServer

namespace Store

variable {s t u : Store} {fs : Files} {e : DocumentError} {as : List Action}

/-! ### Why an action fails -/

/-- An action fails if it has to register a document and cannot. -/
def Action.Fails (fs : Files) (s : Store) (e : DocumentError) : Action → Prop
  | .openCell cell =>
    s.find? cell.uri = none ∧ make fs cell.uri cell.language (some cell.text) = .error e
  | .editCell edit => s.find? edit.uri = none ∧ make fs edit.uri Keyword.languageId none = .error e
  | .closeCell _ _ | .revise _ _ => False

theorem Unique.write_failed_iff (hs : s.Unique) {uri : Uri} {language : String} {text : Option String}
    {f : Document → Document} :
    s.write fs uri language text f = (t, some e) ↔
      t = s ∧ s.find? uri = none ∧ make fs uri language text = .error e := by
  simp only [write, register, hs.removeDuplicates_eq]
  cases s.find? uri with
  | some d => simp
  | none =>
    cases make fs uri language text with
    | ok d => simp
    | error e' => simp [eq_comm]

/-- An action that fails changes nothing. -/
theorem Unique.perform_failed_iff (hs : s.Unique) {a : Action} :
    a.perform fs s = (t, some e) ↔ t = s ∧ a.Fails fs s e := by
  cases a with
  | openCell cell => exact hs.write_failed_iff
  | editCell edit => exact hs.write_failed_iff
  | closeCell | revise => simp [Action.perform, Action.Fails]

/-! ### Where actions stop -/

/-- Actions stop in a store `t`: some of them lead there, and the next one fails. -/
def StopsAt (fs : Files) (s : Store) (as : List Action) (t : Store) (e : DocumentError) : Prop :=
  ∃ done a rest, as = done ++ a :: rest ∧ performAll fs s done = (t, none) ∧ a.Fails fs t e

theorem Unique.of_performAll (hs : s.Unique) (h : performAll fs s as = (t, none)) : t.Unique := by
  have advances := hs.advances_performAll fs as
  rw [h] at advances
  exact advances.unique

/-- **Actions fail where they stop.** The store is the one before the action that fails, and the actions
after it are not begun. -/
theorem Unique.performAll_failed_iff (hs : s.Unique) :
    performAll fs s as = (t, some e) ↔ StopsAt fs s as t e := by
  constructor
  · intro h
    induction as generalizing s with
    | nil => cases h
    | cons a as ih =>
      obtain ⟨u, he, advances, -⟩ | ⟨e', he⟩ := hs.perform_cases fs a
      · rw [performAll_cons_of_done he] at h
        obtain ⟨done, b, rest, rfl, led, fails⟩ := ih advances.unique h
        exact ⟨a :: done, b, rest, rfl, by rw [performAll_cons_of_done he, led], fails⟩
      · rw [performAll_cons_of_failed he] at h
        cases h
        exact ⟨[], a, as, rfl, rfl, (hs.perform_failed_iff.1 he).2⟩
  · rintro ⟨done, a, rest, rfl, led, fails⟩
    have failed : a.perform fs t = (t, some e) :=
      (hs.of_performAll led).perform_failed_iff.2 ⟨rfl, fails⟩
    simp only [performAll_append, led, performAll_cons_of_failed failed]

/-- A revision never fails. -/
theorem performAll_concat_revise_failed {notebook : Uri} {revision : Revision}
    (h : performAll fs s (as ++ [.revise notebook revision]) = (t, some e)) :
    performAll fs s as = (t, some e) := by
  rw [performAll_append] at h
  split at h
  · cases h
  · next he => rw [he, h]

/-! ### Notebooks -/

theorem notebooks_write (s : Store) (uri : Uri) (language : String) (text : Option String)
    (f : Document → Document) :
    (s.write fs uri language text f).1.notebooks = s.removeDuplicates.notebooks := by
  obtain ⟨d, -, he⟩ | ⟨d, -, -, he⟩ | ⟨e, -, he⟩ := Store.register_cases fs uri language text s
  · rw [write_of_ok he]
    rfl
  · rw [write_of_ok he]
    rfl
  · rw [write_of_error he]

/-- The cells that are opened leave the notebooks as they are. -/
theorem Unique.notebooks_openCells (hs : s.Unique) (fs : Files) (cells : List CellText) :
    (performAll fs s (cells.map .openCell)).1.notebooks = s.notebooks := by
  refine performAll_preserves (P := fun t => t.notebooks = s.notebooks) (fun a ha t ht => ?_) rfl
  obtain ⟨cell, -, rfl⟩ := List.mem_map.1 ha
  rw [Action.perform, notebooks_write, removeDuplicates, ht]
  exact retainLast_of_nodup _ hs.notebooks

/-- No notebook has a version that it did not have; one that is new has none. -/
def Undated (s t : Store) : Prop :=
  ∀ n ∈ t.notebooks, n.version = none ∨ ∃ m ∈ s.notebooks, m.uri = n.uri ∧ m.version = n.version

namespace Undated

theorem refl (s : Store) : Undated s s := fun n hn => Or.inr ⟨n, hn, rfl, rfl⟩

theorem of_subset (h : Undated s t) (sub : u.notebooks ⊆ t.notebooks) : Undated s u :=
  fun n hn => h n (sub hn)

theorem withNotebook (h : Undated s t) (notebook : Uri) : Undated s (t.withNotebook notebook) := by
  have deduplicated : Undated s t.removeDuplicates := h.of_subset (retainLast_sublist _ _).subset
  simp only [Store.withNotebook]
  split
  · exact deduplicated
  · intro n hn
    rcases List.mem_append.1 hn with old | new
    · exact deduplicated n old
    · rw [List.mem_singleton.1 new]
      exact Or.inl rfl

theorem updateNotebook (h : Undated s t) (notebook : Uri) {f : Notebook → Notebook}
    (name : ∀ n, (f n).uri = n.uri) (version : ∀ n, (f n).version = n.version) :
    Undated s (t.updateNotebook notebook f) := by
  intro n hn
  rcases mem_updateFirst hn with old | ⟨m, old, -, rfl⟩
  · exact h.withNotebook notebook n old
  · rw [name, version]
    exact h.withNotebook notebook m old

end Undated

/-- Whether an action says which version a notebook has. -/
def Action.dates : Action → Bool
  | .revise _ (.enter _) | .revise _ (.date _) => true
  | .revise _ (.splice _) | .revise _ (.replace _) => false
  | .openCell _ | .editCell _ | .closeCell _ _ => false

theorem Undated.perform (h : Undated s t) {a : Action} (silent : a.dates = false) :
    Undated s (a.perform fs t).1 := by
  cases a with
  | openCell cell | editCell edit =>
    refine h.of_subset ?_
    rw [Action.perform, notebooks_write]
    exact (retainLast_sublist _ _).subset
  | closeCell notebook closed =>
    rw [Action.perform, closeCell_eq]
    split
    · exact ((h.withNotebook notebook).updateNotebook notebook
        (f := fun n => { n with cells := Notebook.eraseCell closed n.cells }) (fun _ => rfl)
        fun _ => rfl).of_subset List.filter_sublist.subset
    · exact h.withNotebook notebook
  | revise notebook revision =>
    cases revision with
    | splice | replace => exact h.updateNotebook notebook (fun _ => rfl) fun _ => rfl
    | enter | date => cases silent

theorem dates_of_mem_cellActions {c : NotebookChange} {a : Action} (h : a ∈ c.cellActions) :
    a.dates = false := by
  obtain ⟨splice, -, rfl | ⟨closed, -, rfl⟩ | ⟨cell, -, rfl⟩⟩ | ⟨data, -, rfl⟩ | ⟨edit, -, rfl⟩ :=
    NotebookChange.mem_cellActions_iff.1 h <;> rfl

/-! ### Failed reports -/

/-- **A failed report is left where it stopped.** In a store with unique names: when a notebook cannot be
opened, some of its cells are open, the next one cannot be registered, and the notebooks are as before.
When a notebook cannot be changed, the store is the one that the actions before the failed one lead to,
and no notebook has a new version. Documents that the report does not name are as before. -/
theorem failed_report_stops (hs : s.Unique) (fs : Files) :
    (∀ (opening : NotebookOpening) t e, s.openNotebook fs opening = (t, .error e) →
      StopsAt fs s (opening.texts.map .openCell) t e ∧ t.notebooks = s.notebooks ∧
        ∀ uri ∉ opening.texts.map (·.uri), t.find? uri = s.find? uri) ∧
    (∀ (change : NotebookChange) t e, s.changeNotebook fs change = (t, .error e) →
      StopsAt fs s change.cellActions t e ∧ Undated s t ∧
        ∀ uri ∉ change.documents, t.find? uri = s.find? uri) := by
  refine ⟨fun opening t e h => ?_, fun change t e h => ?_⟩
  · have others := (reports_openNotebook fs (· ∈ opening.texts.map (·.uri)) opening
      (fun cell hc => List.mem_map_of_mem hc) s).edited
    rw [h] at others
    rw [openNotebook_eq, report_error_iff, NotebookOpening.actions] at h
    have stopped := performAll_concat_revise_failed h
    have same := hs.notebooks_openCells fs opening.texts
    rw [stopped] at same
    exact ⟨hs.performAll_failed_iff.1 stopped, same, fun uri => others.find?_eq hs.documents⟩
  · have others := (reports_changeNotebook fs (· ∈ change.documents) change (fun _ hu => hu) s).edited
    rw [h] at others
    rw [changeNotebook_eq, report_error_iff, NotebookChange.actions] at h
    have stopped := performAll_concat_revise_failed h
    have undated : Undated s (performAll fs s change.cellActions).1 :=
      performAll_preserves (fun a ha t ht => ht.perform (dates_of_mem_cellActions ha)) (.refl s)
    rw [stopped] at undated
    exact ⟨hs.performAll_failed_iff.1 stopped, undated, fun uri => others.find?_eq hs.documents⟩

end Store

/-! ### Two reports -/

namespace Sample

/-- A cell of code. -/
def codeCell : CellText := ⟨⟨"cell:a"⟩, Keyword.languageId, 1, "int a;"⟩

/-- A cell in a language that documents cannot have. -/
def proseCell : CellText := ⟨⟨"cell:b"⟩, "markdown", 1, "About a."⟩

/-- A notebook of one cell. -/
def shortBook : NotebookOpening :=
  ⟨⟨"untitled:book"⟩, "jupyter-notebook", 1, [⟨.code, codeCell.uri⟩], [codeCell]⟩

/-- A notebook whose second cell cannot be opened. -/
def mixedBook : NotebookOpening :=
  { shortBook with
    cells := [⟨.code, codeCell.uri⟩, ⟨.markup, proseCell.uri⟩]
    texts := [codeCell, proseCell] }

/-- The store in which the notebook of one cell is open. -/
def shelf : Store := (({} : Store).openNotebook ⟨[]⟩ shortBook).1

/-- The cell of a notebook is closed, and one opened in its place that cannot be. -/
def rewriting : NotebookChange :=
  ⟨shortBook.uri, 2,
    some ⟨0, 0, [⟨.markup, proseCell.uri⟩], [proseCell], [codeCell.uri]⟩, none, []⟩

end Sample

namespace Store

open Sample

theorem unique_shelf : shelf.Unique :=
  (unique_empty.advances_perform ⟨[]⟩ (.openNotebook shortBook)).unique

/-- The cases of a notebook whose second cell cannot be opened, and of a change that closes a cell and
cannot open another one. -/
theorem mixed_reports_stop :
    (∃ t e, ({} : Store).Unique ∧ ({} : Store).openNotebook ⟨[]⟩ mixedBook = (t, .error e) ∧
      StopsAt ⟨[]⟩ {} (mixedBook.texts.map .openCell) t e ∧ t.notebooks = []) ∧
    ∃ t e, shelf.Unique ∧ shelf.changeNotebook ⟨[]⟩ rewriting = (t, .error e) ∧
      StopsAt ⟨[]⟩ shelf rewriting.cellActions t e ∧ Undated shelf t := by
  constructor
  · have failed : ({} : Store).openNotebook ⟨[]⟩ mixedBook =
        ((({} : Store).openNotebook ⟨[]⟩ mixedBook).1, .error (.unknownLanguage "markdown")) := rfl
    obtain ⟨stops, same, -⟩ := (failed_report_stops unique_empty ⟨[]⟩).1 _ _ _ failed
    exact ⟨_, _, unique_empty, failed, stops, same⟩
  · have failed : shelf.changeNotebook ⟨[]⟩ rewriting =
        ((shelf.changeNotebook ⟨[]⟩ rewriting).1, .error (.unknownLanguage "markdown")) := rfl
    obtain ⟨stops, undated, -⟩ := (failed_report_stops unique_shelf ⟨[]⟩).2 _ _ _ failed
    exact ⟨_, _, unique_shelf, failed, stops, undated⟩

/-- Nothing is taken back. The first cell of a notebook stays open though the second one cannot be opened;
and the cell that was closed stays closed though that in its place cannot be opened. -/
theorem failed_reports_not_undone :
    (∃ t e, ({} : Store).Unique ∧ ({} : Store).openNotebook ⟨[]⟩ mixedBook = (t, .error e) ∧
      t.documents.map (·.uri) = [codeCell.uri] ∧ t ≠ {}) ∧
    ∃ t e, shelf.Unique ∧ shelf.changeNotebook ⟨[]⟩ rewriting = (t, .error e) ∧
      shelf.documents.map (·.uri) = [codeCell.uri] ∧ t.documents = [] ∧ t ≠ shelf := by
  refine ⟨⟨_, .unknownLanguage "markdown", unique_empty, rfl, rfl, fun same => ?_⟩,
    _, .unknownLanguage "markdown", unique_shelf, rfl, rfl, rfl, fun same => ?_⟩
  · cases congrArg (·.documents.length) same
  · cases congrArg (·.documents.length) same

end Store

end LanguageServer
