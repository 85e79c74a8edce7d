import LanguageServer.Proofs.Store

/-!
# One entry per name, in the order of registration

No operation on a store gives a name a second entry or moves an entry. Entries are taken out by `remove`
and by the closings of a change of a notebook, and by nothing else.

* `Store.Unique`: every name has one document and one notebook at most;
* `Store.Advances`: some names are taken out, the others stay in their order, and new ones come last;
* `Store.Unique.perform_cases`, `Store.Unique.advances_performAll`: an action, and a list of them;
* `Store.Unique.isSome_of_changeNotebook`: what a report touched is open;
* `Store.Operation`, `Store.after`: all that can be done to a store, and sequences of it;
* `Store.one_entry_per_name`: what holds after any sequence of operations.
-/

namespace LanguageServer

namespace Store

variable {s t u : Store} {uri : Uri} {d : Document} {fs : Files} {dropped more : List Uri}

/-! ### Unique names -/

/-- Every name has one document and one notebook at most. -/
structure Unique (s : Store) : Prop where
  documents : s.Distinct
  notebooks : (s.notebooks.map (·.uri)).Nodup

theorem unique_empty : ({} : Store).Unique := ⟨List.nodup_nil, List.nodup_nil⟩

theorem unique_removeDuplicates (s : Store) : s.removeDuplicates.Unique :=
  ⟨nodup_retainLast _ _, nodup_retainLast _ _⟩

/-- A store with unique names has no duplicates to remove. -/
theorem Unique.removeDuplicates_eq (hs : s.Unique) : s.removeDuplicates = s := by
  rw [removeDuplicates, retainLast_of_nodup _ hs.documents, retainLast_of_nodup _ hs.notebooks]

/-! ### Names that stay -/

/-- A store whose names are those of another one: some are taken out, the others stay in their order, and
new ones come last. -/
structure Advances (dropped : List Uri) (s t : Store) : Prop where
  unique : t.Unique
  documents : ∃ new, t.documents.map (·.uri) =
    (s.documents.map (·.uri)).filter (· ∉ dropped) ++ new
  notebooks : ∃ new, t.notebooks.map (·.uri) =
    (s.notebooks.map (·.uri)).filter (· ∉ dropped) ++ new

theorem filter_not_mem_nil (xs : List Uri) : xs.filter (· ∉ ([] : List Uri)) = xs := by simp

theorem filter_not_mem_append (xs : List Uri) :
    xs.filter (· ∉ dropped ++ more) = (xs.filter (· ∉ dropped)).filter (· ∉ more) := by
  rw [List.filter_filter]
  exact List.filter_congr fun u _ => by simp [Bool.and_comm]

namespace Advances

/-- Nothing is taken out if the names are those from before, with others after them. -/
theorem of_append (ht : t.Unique) {new more : List Uri}
    (documents : t.documents.map (·.uri) = s.documents.map (·.uri) ++ new)
    (notebooks : t.notebooks.map (·.uri) = s.notebooks.map (·.uri) ++ more) : Advances [] s t :=
  ⟨ht, ⟨new, by rw [filter_not_mem_nil, documents]⟩, ⟨more, by rw [filter_not_mem_nil, notebooks]⟩⟩

theorem refl (hs : s.Unique) : Advances [] s s :=
  of_append hs (List.append_nil _).symm (List.append_nil _).symm

theorem trans (first : Advances dropped s t) (second : Advances more t u) :
    Advances (dropped ++ more) s u := by
  obtain ⟨new, hd⟩ := first.documents
  obtain ⟨new', hd'⟩ := second.documents
  obtain ⟨books, hn⟩ := first.notebooks
  obtain ⟨books', hn'⟩ := second.notebooks
  refine ⟨second.unique, ⟨new.filter (· ∉ more) ++ new', ?_⟩,
    ⟨books.filter (· ∉ more) ++ books', ?_⟩⟩
  · rw [hd', hd, List.filter_append, filter_not_mem_append, List.append_assoc]
  · rw [hn', hn, List.filter_append, filter_not_mem_append, List.append_assoc]

/-- A document that is not taken out stays. -/
theorem isSome_find? (h : Advances dropped s t) (found : (s.find? uri).isSome)
    (stays : uri ∉ dropped) : (t.find? uri).isSome := by
  obtain ⟨new, names⟩ := h.documents
  obtain ⟨d, hd⟩ := Option.isSome_iff_exists.1 found
  have old : uri ∈ s.documents.map (·.uri) :=
    List.mem_map.2 ⟨d, mem_of_find? hd, uri_of_find? hd⟩
  have kept : uri ∈ t.documents.map (·.uri) := by
    rw [names]
    exact List.mem_append_left _ (List.mem_filter.2 ⟨old, by simpa using stays⟩)
  obtain ⟨d', hd', rfl⟩ := List.mem_map.1 kept
  rw [h.unique.documents.find?_of_mem hd']
  rfl

end Advances

/-! ### The moves that operations are made of -/

theorem Unique.advances_add (hs : s.Unique) (unknown : s.find? d.uri = none) :
    Advances [] s { s with documents := s.documents ++ [d] } :=
  .of_append ⟨hs.documents.append unknown, hs.notebooks⟩ (by rw [List.map_append])
    (List.append_nil _).symm

theorem Unique.advances_update (hs : s.Unique) {f : Document → Document}
    (name : ∀ d, (f d).uri = d.uri) (uri : Uri) : Advances [] s (s.update uri f) := by
  have same : (s.update uri f).documents.map (·.uri) = s.documents.map (·.uri) :=
    uris_update fun d hd => (name d).trans hd
  refine .of_append ⟨?_, hs.notebooks⟩ (same.trans (List.append_nil _).symm) (List.append_nil _).symm
  rw [Distinct, same]
  exact hs.documents

theorem Unique.advances_remove (hs : s.Unique) (uri : Uri) : Advances [uri] s (s.remove uri) := by
  have filtered {α : Type} (name : α → Uri) (xs : List α) :
      (xs.filter (name · != uri)).map name = (xs.map name).filter (· ∉ [uri]) := by
    rw [List.filter_map]
    congr 1
    exact List.filter_congr fun x _ => by by_cases h : name x = uri <;> simp [h]
  refine ⟨⟨hs.documents.sublist (List.filter_sublist.map _), ?_⟩, ⟨[], ?_⟩, ⟨[], ?_⟩⟩
  · exact hs.notebooks.sublist (List.filter_sublist.map _)
  · rw [List.append_nil]
    exact filtered _ _
  · rw [List.append_nil]
    exact filtered _ _

theorem Unique.advances_withNotebook (hs : s.Unique) (notebook : Uri) :
    Advances [] s (s.withNotebook notebook) := by
  simp only [withNotebook, hs.removeDuplicates_eq]
  split
  · exact .refl hs
  · next unknown =>
    have new : notebook ∉ s.notebooks.map (·.uri) := fun hmem => by
      obtain ⟨n, hn, rfl⟩ := List.mem_map.1 hmem
      exact unknown (List.any_eq_true.2 ⟨n, hn, by simp⟩)
    refine .of_append ⟨hs.documents, ?_⟩ (List.append_nil _).symm List.map_append
    rw [List.map_append]
    exact hs.notebooks.append (List.nodup_singleton _) (List.disjoint_singleton.2 new)

theorem Unique.advances_updateNotebook (hs : s.Unique) (notebook : Uri) {f : Notebook → Notebook}
    (name : ∀ n, (f n).uri = n.uri) : Advances [] s (s.updateNotebook notebook f) := by
  have registered := hs.advances_withNotebook notebook
  refine registered.trans ⟨⟨registered.unique.documents, ?_⟩, ⟨[], by simp [updateNotebook]⟩,
    ⟨[], ?_⟩⟩
  · rw [updateNotebook, map_updateFirst fun n _ => name n]
    exact registered.unique.notebooks
  · rw [updateNotebook, map_updateFirst fun n _ => name n, List.append_nil, filter_not_mem_nil]

/-! ### Actions -/

/-- All that can follow from the registration of a name in a store with unique names: it has a document,
or gets one, or there is an error and nothing changes. -/
theorem Unique.register_cases (hs : s.Unique) (fs : Files) (uri : Uri) (language : String)
    (text : Option String) :
    (∃ t d, s.register fs uri language text = (t, .ok d) ∧ Advances [] s t ∧
      t.find? uri = some d) ∨
    ∃ e, s.register fs uri language text = (s, .error e) := by
  obtain ⟨d, found, he⟩ | ⟨d, unknown, made, he⟩ | ⟨e, -, he⟩ :=
    Store.register_cases fs uri language text s <;>
    rw [hs.removeDuplicates_eq] at *
  · exact Or.inl ⟨s, d, he, .refl hs, found⟩
  · obtain ⟨l, text', rfl⟩ := make_ok made
    exact Or.inl ⟨_, _, he, hs.advances_add unknown, find?_register he⟩
  · exact Or.inr ⟨e, he⟩

/-- The same with a change of the document that was registered. -/
theorem Unique.register_update_cases (hs : s.Unique) (fs : Files) (uri : Uri) (language : String)
    (text : Option String) {f : Document → Document} (name : ∀ d, (f d).uri = d.uri) :
    (∃ t d, s.register fs uri language text = (t, .ok d) ∧ Advances [] s (t.update uri f) ∧
      ((t.update uri f).find? uri).isSome) ∨
    ∃ e, s.register fs uri language text = (s, .error e) := by
  refine (hs.register_cases fs uri language text).imp_left ?_
  rintro ⟨t, d, he, advances, found⟩
  refine ⟨t, d, he, advances.trans (advances.unique.advances_update name uri), ?_⟩
  rw [find?_update_of_some name found]
  rfl

theorem Unique.write_cases (hs : s.Unique) (fs : Files) (uri : Uri) (language : String)
    (text : Option String) {f : Document → Document} (name : ∀ d, (f d).uri = d.uri) :
    (∃ t, s.write fs uri language text f = (t, none) ∧ Advances [] s t ∧ (t.find? uri).isSome) ∨
    ∃ e, s.write fs uri language text f = (s, some e) := by
  obtain ⟨t, d, he, written⟩ | ⟨e, he⟩ := hs.register_update_cases fs uri language text name
  · exact Or.inl ⟨_, write_of_ok he f, written⟩
  · exact Or.inr ⟨e, write_of_error he f⟩

theorem Unique.advances_closeCell (hs : s.Unique) (notebook closed : Uri) :
    Advances ((Action.closeCell notebook closed).drops s) s (s.closeCell notebook closed) := by
  have registered := hs.advances_withNotebook notebook
  rw [closeCell_eq, Action.drops]
  by_cases cell : s.isCell notebook closed
  · have erased := registered.unique.advances_updateNotebook notebook
      (f := fun n => { n with cells := Notebook.eraseCell closed n.cells }) fun _ => rfl
    rw [if_pos cell, if_pos cell]
    exact (registered.trans erased).trans (erased.unique.advances_remove closed)
  · rw [if_neg cell, if_neg cell]
    exact registered

/-- **An action is done or fails.** In a store with unique names it takes out what it closes and opens
what it touches; or it fails and changes nothing. -/
theorem Unique.perform_cases (hs : s.Unique) (fs : Files) (a : Action) :
    (∃ t, a.perform fs s = (t, none) ∧ Advances (a.drops s) s t ∧
      ∀ uri ∈ a.touches, (t.find? uri).isSome) ∨
    ∃ e, a.perform fs s = (s, some e) := by
  cases a with
  | openCell cell =>
    refine (hs.write_cases fs cell.uri cell.language (some cell.text)
      (f := (·.opened cell.text cell.version)) fun _ => rfl).imp ?_ id
    rintro ⟨t, he, advances, found⟩
    exact ⟨t, he, advances, List.forall_mem_singleton.2 found⟩
  | editCell edit =>
    refine (hs.write_cases fs edit.uri Keyword.languageId none
      (f := (·.changed edit.changes edit.version)) fun _ => rfl).imp ?_ id
    rintro ⟨t, he, advances, found⟩
    exact ⟨t, he, advances, List.forall_mem_singleton.2 found⟩
  | closeCell notebook closed =>
    exact Or.inl ⟨_, rfl, hs.advances_closeCell notebook closed, nofun⟩
  | revise notebook revision =>
    exact Or.inl ⟨_, rfl, hs.advances_updateNotebook notebook revision.uri_apply, nofun⟩

/-- Actions take out what they close, as far as they are done. -/
theorem Unique.advances_performAll (hs : s.Unique) (fs : Files) (as : List Action) :
    Advances (dropsAll fs s as) s (performAll fs s as).1 := by
  induction as generalizing s with
  | nil => exact .refl hs
  | cons a as ih =>
    obtain ⟨t, he, advances, -⟩ | ⟨e, he⟩ := hs.perform_cases fs a
    · simp only [performAll, dropsAll, he]
      exact advances.trans (ih advances.unique)
    · simp only [performAll, dropsAll, he]
      exact .refl hs

/-- A name that is taken out is closed by one of the actions. -/
theorem exists_closeCell_of_mem_dropsAll {as : List Action} (h : uri ∈ dropsAll fs s as) :
    ∃ notebook, Action.closeCell notebook uri ∈ as := by
  induction as generalizing s with
  | nil => cases h
  | cons a as ih =>
    rw [dropsAll] at h
    split at h
    · rcases List.mem_append.1 h with first | later
      · cases a with
        | closeCell notebook closed =>
          rw [Action.drops] at first
          split at first
          · obtain rfl := List.mem_singleton.1 first
            exact ⟨notebook, List.mem_cons_self⟩
          · cases first
        | openCell | editCell | revise => cases first
      · obtain ⟨notebook, closes⟩ := ih later
        exact ⟨notebook, List.mem_cons_of_mem _ closes⟩
    · cases h

theorem mem_closed_of_closeCell {c : NotebookChange} {notebook : Uri}
    (h : Action.closeCell notebook uri ∈ c.actions) :
    uri ∈ (c.splice.map (·.closed)).getD [] := by
  cases hc : c.splice <;> cases hd : c.data <;>
    simp_all [NotebookChange.actions, NotebookChange.cellActions, CellSplice.actions]

/-- Actions that close no cell. -/
def ClosesNothing (as : List Action) : Prop := ∀ notebook uri, Action.closeCell notebook uri ∉ as

theorem ClosesNothing.dropsAll_eq_nil {as : List Action} (h : ClosesNothing as) (fs : Files)
    (s : Store) : dropsAll fs s as = [] := by
  refine List.eq_nil_iff_forall_not_mem.2 fun uri dropped => ?_
  obtain ⟨notebook, closes⟩ := exists_closeCell_of_mem_dropsAll dropped
  exact h notebook uri closes

/-- What actions touch is open after them, if they close nothing. -/
theorem Unique.isSome_of_touches (hs : s.Unique) {as : List Action} (gentle : ClosesNothing as)
    (done : performAll fs s as = (t, none)) {a : Action} (ha : a ∈ as) (hu : uri ∈ a.touches) :
    (t.find? uri).isSome := by
  induction as generalizing s with
  | nil => cases ha
  | cons b as ih =>
    have rest_gentle : ClosesNothing as :=
      fun notebook uri closes => gentle notebook uri (List.mem_cons_of_mem _ closes)
    obtain ⟨u, he, advances, touched⟩ | ⟨e, he⟩ := hs.perform_cases fs b
    · rw [performAll_cons_of_done he] at done
      rcases List.mem_cons.1 ha with rfl | later
      · -- the document is there after this action, and the others take nothing out
        have rest := advances.unique.advances_performAll fs as
        rw [rest_gentle.dropsAll_eq_nil, done] at rest
        exact rest.isSome_find? (touched uri hu) List.not_mem_nil
      · exact ih advances.unique rest_gentle done later
    · rw [performAll_cons_of_failed he] at done
      cases done

/-! ### Documents that reports name -/

theorem closesNothing_opening (o : NotebookOpening) : ClosesNothing o.actions := by
  simp [ClosesNothing, NotebookOpening.actions]

/-- The cells of a notebook that was opened are open. -/
theorem Unique.isSome_of_openNotebook (hs : s.Unique) {opening : NotebookOpening} {cells : List Uri}
    (opened : s.openNotebook fs opening = (t, .ok cells)) (hu : uri ∈ cells) :
    (t.find? uri).isSome := by
  rw [openNotebook_eq] at opened
  obtain ⟨done, rfl⟩ := report_ok_iff.1 opened
  obtain ⟨cell, hc, rfl⟩ := List.mem_map.1 hu
  have mem : Action.openCell cell ∈ opening.actions := List.mem_append_left _ (List.mem_map_of_mem hc)
  exact hs.isSome_of_touches (closesNothing_opening opening) done mem List.mem_cons_self

/-- What a change of a notebook does after it closed documents. -/
def afterClosing (c : NotebookChange) : List Action :=
  (c.splice.map (·.opened.map .openCell)).getD [] ++
    (c.data.map fun data => Action.revise c.uri (.replace data)).toList ++
    c.edits.map .editCell ++ [.revise c.uri (.date c.version)]

/-- A change closes documents first. -/
theorem actions_eq_append (c : NotebookChange) :
    c.actions =
      (c.splice.map fun splice =>
        .revise c.uri (.splice splice) :: splice.closed.map (.closeCell c.uri)).getD [] ++
      afterClosing c := by
  cases hc : c.splice <;>
    simp [afterClosing, NotebookChange.actions, NotebookChange.cellActions, CellSplice.actions, hc]

theorem closesNothing_afterClosing (c : NotebookChange) : ClosesNothing (afterClosing c) := by
  intro notebook uri closes
  cases hc : c.splice <;> cases hd : c.data <;> simp [afterClosing, hc, hd] at closes

/-- After that it touches what it opens and edits. -/
theorem flatMap_touches_afterClosing (c : NotebookChange) :
    (afterClosing c).flatMap Action.touches =
      (c.splice.map (·.opened.map (·.uri))).getD [] ++ c.edits.map (·.uri) := by
  cases hc : c.splice <;> cases hd : c.data <;>
    simp [afterClosing, Action.touches, List.map_eq_flatMap, List.flatMap_assoc, hc, hd]

/-- The cells that a change opened or edited are open after it. -/
theorem Unique.isSome_of_changeNotebook (hs : s.Unique) {change : NotebookChange} {cells : List Uri}
    (changed : s.changeNotebook fs change = (t, .ok cells)) (hu : uri ∈ cells) :
    (t.find? uri).isSome := by
  rw [changeNotebook_eq] at changed
  obtain ⟨done, rfl⟩ := report_ok_iff.1 changed
  rw [← flatMap_touches_afterClosing] at hu
  obtain ⟨a, ha, touches⟩ := List.mem_flatMap.1 hu
  obtain ⟨before, parts⟩ : ∃ before, change.actions = before ++ afterClosing change :=
    ⟨_, actions_eq_append change⟩
  have advances := hs.advances_performAll fs before
  rw [parts, performAll_append] at done
  split at done
  · next he =>
    rw [he] at advances
    exact advances.unique.isSome_of_touches (closesNothing_afterClosing change) done ha touches
  · cases done

/-! ### Operations -/

/-- All that can be done to a store. A document is registered, or changed under its name; the documents
and notebooks of a name are removed; or the editor reports about a notebook. -/
inductive Operation
  | register (uri : Uri) (language : String) (text : Option String)
  | registerByExtension (uri : Uri) (text : Option String)
  | opened (uri : Uri) (text : String) (version : Int)
  | changed (uri : Uri) (changes : List Text.Change) (version : Int)
  | saved (uri : Uri) (text : Option String)
  | remove (uri : Uri)
  | withNotebook (notebook : Uri)
  | openNotebook (opening : NotebookOpening)
  | changeNotebook (change : NotebookChange)
  | saveNotebook (notebook : Uri)

namespace Operation

/-- The store after an operation, also after one that failed. -/
def perform (fs : Files) (s : Store) : Operation → Store
  | .register uri language text => (s.register fs uri language text).1
  | .registerByExtension uri text => (s.registerByExtension fs uri text).1
  | .opened uri text version => s.update uri (·.opened text version)
  | .changed uri changes version => s.update uri (·.changed changes version)
  | .saved uri text => s.update uri (·.saved text)
  | .remove uri => s.remove uri
  | .withNotebook notebook => s.withNotebook notebook
  | .openNotebook opening => (s.openNotebook fs opening).1
  | .changeNotebook change => (s.changeNotebook fs change).1
  | .saveNotebook notebook => s.saveNotebook notebook

/-- The names that an operation may take out of a store. -/
def closes : Operation → List Uri
  | .remove uri => [uri]
  | .changeNotebook change => (change.splice.map (·.closed)).getD []
  | _ => []

/-- The names that an operation takes out of a store. -/
def drops (fs : Files) (s : Store) : Operation → List Uri
  | .remove uri => [uri]
  | .changeNotebook change => dropsAll fs s change.actions
  | _ => []

theorem drops_subset (fs : Files) (s : Store) (o : Operation) : o.drops fs s ⊆ o.closes := by
  cases o with
  | remove uri => exact List.Subset.refl _
  | changeNotebook change =>
    intro uri dropped
    obtain ⟨notebook, closed⟩ := exists_closeCell_of_mem_dropsAll dropped
    exact mem_closed_of_closeCell closed
  | _ => exact List.Subset.refl _

end Operation

/-- A store goes on from one operation to the next. -/
theorem Unique.advances_perform (hs : s.Unique) (fs : Files) (o : Operation) :
    Advances (o.drops fs s) s (o.perform fs s) := by
  have registered (uri : Uri) (language : String) (text : Option String) :
      Advances [] s (s.register fs uri language text).1 := by
    obtain ⟨t, d, he, advances, -⟩ | ⟨e, he⟩ := hs.register_cases fs uri language text <;> rw [he]
    · exact advances
    · exact .refl hs
  cases o with
  | register uri language text => exact registered uri language text
  | registerByExtension uri text => exact registered uri _ text
  | opened uri text version => exact hs.advances_update (f := (·.opened text version)) (fun _ => rfl) uri
  | changed uri changes version =>
    exact hs.advances_update (f := (·.changed changes version)) (fun _ => rfl) uri
  | saved uri text => exact hs.advances_update (uri_saved · text) uri
  | remove uri => exact hs.advances_remove uri
  | withNotebook notebook | saveNotebook notebook => exact hs.advances_withNotebook notebook
  | openNotebook opening =>
    have advances := hs.advances_performAll fs opening.actions
    rw [(closesNothing_opening opening).dropsAll_eq_nil] at advances
    rw [Operation.perform, openNotebook_eq, report_fst]
    exact advances
  | changeNotebook change =>
    rw [Operation.perform, changeNotebook_eq, report_fst]
    exact hs.advances_performAll fs change.actions

/-- The store after a sequence of operations on an empty one, each with the files that it finds. -/
def after (os : List (Files × Operation)) : Store :=
  os.foldl (fun s (fs, o) => o.perform fs s) {}

theorem unique_after (os : List (Files × Operation)) : (after os).Unique :=
  List.foldlRecOn os _ unique_empty fun _ unique o _ => (unique.advances_perform o.1 o.2).unique

/-- **One entry per name.** After any operations on an empty store, every name has one document and one
notebook at most, and there are no duplicates to remove. One more operation leaves the names that stay in
their order, and takes out none but those that it removes or closes. -/
theorem one_entry_per_name (os : List (Files × Operation)) (fs : Files) (o : Operation) :
    (after os).Unique ∧ (after os).removeDuplicates = after os ∧
      Advances (o.drops fs (after os)) (after os) (o.perform fs (after os)) ∧
      o.drops fs (after os) ⊆ o.closes :=
  have unique := unique_after os
  ⟨unique, unique.removeDuplicates_eq, unique.advances_perform fs o, o.drops_subset fs _⟩

end Store

end LanguageServer
