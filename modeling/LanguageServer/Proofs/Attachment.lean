import LanguageServer.Proofs.Calls
import LanguageServer.Proofs.Isolation
import LanguageServer.Proofs.Registry

/-!
# Workers and the documents they work for

A worker is hired for a document that is open, and told to stop when the document is closed. Two reports
forget one of the two sides: a notebook that is closed takes a document of its name out of the store, but
not its worker; and a change that closes a document and touches it again leaves it closed, with a worker.

* `Session.employers`, `Session.Attached`: the documents that have workers, and that all of them are open;
* `Session.attached_recompile_iff`, `Session.mem_employers_closeDocument`: what the moves do;
* `Session.Detaches`: the two reports;
* `Session.attached_heed_iff`: what one report does;
* `Session.attached_iff`: what a whole run does.
-/

namespace LanguageServer

/-- The outcome of a compilation leaves the names as they are. -/
theorem Store.Unique.advances_afterCall {s : Store} (hs : s.Unique) (uri : Uri)
    (result : Except Crash Outcome) : Advances [] s (afterCall s uri result).1 := by
  obtain same | ⟨o, d, -, found, -, stored⟩ := afterCall_cases s uri result
  · rw [same]
    exact .refl hs
  · rw [stored, update_const_eq_withAnalysis found]
    exact hs.advances_update (f := fun d => { d with analysis := o.analysis }) (fun _ => rfl) uri

namespace Session

variable {σ : Type} {s t : Session σ} {h : Host σ} {e : Step} {uri u : Uri} {uris : List Uri}
  {store : Store}

/-! ### Who has a worker -/

/-- The documents that have workers which were not told to stop. -/
def employers (s : Session σ) : List Uri := s.schedulers.map (·.1)

/-- Every document that has a worker is open. -/
def Attached (s : Session σ) : Prop := ∀ uri ∈ s.employers, (s.store.find? uri).isSome

theorem mem_employers_scheduler :
    u ∈ (s.scheduler uri).1.employers ↔ u ∈ s.employers ∨ u = uri := by
  unfold scheduler
  split
  · next v w found =>
    obtain rfl : v = uri := by simpa using List.find?_some found
    have old : v ∈ s.employers := List.mem_map.2 ⟨_, List.mem_of_find?_eq_some found, rfl⟩
    exact ⟨Or.inl, fun hu => hu.elim id fun he => he ▸ old⟩
  · simp [employers]

theorem mem_employers_requestCompilation :
    u ∈ (s.requestCompilation uri).employers ↔ u ∈ s.employers ∨ u = uri := by
  simp only [requestCompilation, employers, post_schedulers]
  exact mem_employers_scheduler

theorem mem_employers_stopScheduler :
    u ∈ (s.stopScheduler uri).employers ↔ u ∈ s.employers ∧ u ≠ uri := by
  unfold stopScheduler
  split
  · next none =>
    have absent : uri ∉ s.employers := fun hu => by
      obtain ⟨p, hp, rfl⟩ := List.mem_map.1 hu
      exact (List.find?_eq_none.1 none p hp) (by simp)
    exact ⟨fun hu => ⟨hu, fun he => absent (he ▸ hu)⟩, And.left⟩
  · rw [employers, post_schedulers]
    simp [employers]

theorem mem_employers_closeDocument :
    u ∈ (s.closeDocument uri).employers ↔ u ∈ s.employers ∧ u ≠ uri := by
  have same : (s.closeDocument uri).schedulers =
      ({ s with store := s.store.remove uri }.stopScheduler uri).schedulers :=
    (sameCrew_publish _ _ _).schedulers
  rw [employers, same]
  exact mem_employers_stopScheduler (s := { s with store := s.store.remove uri })

theorem mem_employers_closeDocuments :
    u ∈ (uris.foldl closeDocument s).employers ↔ u ∈ s.employers ∧ u ∉ uris := by
  induction uris generalizing s with
  | nil => simp
  | cons v vs ih =>
    rw [List.foldl_cons, ih, mem_employers_closeDocument, List.mem_cons, not_or, and_assoc]

theorem find?_closeDocuments_of_not_mem (hu : u ∉ uris) :
    (uris.foldl closeDocument s).store.find? u = s.store.find? u := by
  refine foldl_preserves (P := fun t : Session σ => t.store.find? u = s.store.find? u)
    (fun t v hv ht => ?_) rfl
  have other : v ≠ u := fun he => hu (he ▸ hv)
  rw [closeDocument_store, Store.find?_remove_of_ne other, ht]

theorem attached_requestCompilation_iff :
    (s.requestCompilation uri).Attached ↔ s.Attached ∧ (s.store.find? uri).isSome := by
  simp only [Attached, mem_employers_requestCompilation, requestCompilation_store, or_imp, forall_and,
    forall_eq]

theorem attached_recompile_iff :
    (s.recompile uri).Attached ↔ s.Attached ∧ (s.store.find? uri).isSome :=
  attached_requestCompilation_iff (s := { s with cache := s.cache.erase uri })

theorem attached_foldl_requestCompilation_iff :
    (uris.foldl requestCompilation s).Attached ↔
      s.Attached ∧ ∀ uri ∈ uris, (s.store.find? uri).isSome := by
  induction uris generalizing s with
  | nil => simp
  | cons v vs ih =>
    rw [List.foldl_cons, ih, attached_requestCompilation_iff, requestCompilation_store, and_assoc,
      List.forall_mem_cons]

theorem attached_foldl_recompile_iff :
    (uris.foldl recompile s).Attached ↔
      s.Attached ∧ ∀ uri ∈ uris, (s.store.find? uri).isSome := by
  induction uris generalizing s with
  | nil => simp
  | cons v vs ih =>
    rw [List.foldl_cons, ih, attached_recompile_iff, recompile_store, and_assoc, List.forall_mem_cons]

theorem Attached.withStore (ha : s.Attached) (advances : Store.Advances [] s.store store) :
    Attached { s with store } :=
  fun uri hu => advances.isSome_find? (ha uri hu) List.not_mem_nil

/-- Documents that are closed one after the other lose their workers, and the others keep both. -/
theorem attached_closeDocuments (uris : List Uri)
    (others : ∀ u ∈ s.employers, u ∉ uris → (s.store.find? u).isSome) :
    (uris.foldl closeDocument s).Attached := by
  intro u hu
  obtain ⟨old, kept⟩ := mem_employers_closeDocuments.1 hu
  rw [find?_closeDocuments_of_not_mem kept]
  exact others u old kept

/-- A name that leaves the store must have no worker. -/
theorem Attached.remove_iff (ha : s.Attached) :
    Attached { s with store := s.store.remove uri } ↔ uri ∉ s.employers := by
  constructor
  · intro attached hu
    have found := attached uri hu
    rw [Store.find?_remove_self] at found
    cases found
  · intro free u hu
    have other : uri ≠ u := fun he => free (he ▸ hu)
    rw [Store.find?_remove_of_ne other]
    exact ha u hu

/-! ### Reports in a store with unique names -/

theorem openDocument_cases_of_unique (hs : s.store.Unique) (h : Host σ) (d : TextDocument) :
    (∃ store, Store.Advances [] s.store store ∧ (store.find? d.uri).isSome ∧
      s.openDocument h d = { s with store }.requestCompilation d.uri) ∨
    s.openDocument h d = s := by
  obtain ⟨store, doc, registered, advances, found⟩ | ⟨e, registered⟩ :=
    hs.register_update_cases h.files d.uri d.language (some d.text)
      (f := (·.opened d.text d.version)) fun _ => rfl
  · exact Or.inl ⟨_, advances, found, by rw [openDocument, registered]⟩
  · exact Or.inr (by rw [openDocument, registered])

theorem updateDocument_cases_of_unique (hs : s.store.Unique) (h : Host σ) (uri : Uri)
    {f : Document → Document} (name : ∀ d, (f d).uri = d.uri) :
    (∃ store, Store.Advances [] s.store store ∧ (store.find? uri).isSome ∧
      s.updateDocument h uri f = { s with store }.recompile uri) ∨
    s.updateDocument h uri f = s := by
  obtain ⟨store, doc, registered, advances, found⟩ | ⟨e, registered⟩ :=
    hs.register_update_cases h.files uri (uri.extension?.getD "") none name
  · exact Or.inl ⟨_, advances, found, by rw [updateDocument, Store.registerByExtension, registered]⟩
  · exact Or.inr (by rw [updateDocument, Store.registerByExtension, registered])

theorem advances_openNotebook (hs : s.store.Unique) (h : Host σ) (opening : NotebookOpening) :
    Store.Advances [] s.store (s.store.openNotebook h.files opening).1 :=
  hs.advances_perform h.files (.openNotebook opening)

/-- A change of a notebook takes out no other documents than those that it closes. -/
theorem advances_changeNotebook (hs : s.store.Unique) (h : Host σ) (change : NotebookChange) :
    ∃ dropped ⊆ (change.splice.map (·.closed)).getD [],
      Store.Advances dropped s.store (s.store.changeNotebook h.files change).1 :=
  ⟨_, Store.Operation.drops_subset h.files s.store (.changeNotebook change),
    hs.advances_perform h.files (.changeNotebook change)⟩

theorem unique_closeDocuments (hs : s.store.Unique) (uris : List Uri) :
    (uris.foldl closeDocument s).store.Unique := by
  refine foldl_preserves (P := fun t : Session σ => t.store.Unique) (fun t u _ ht => ?_) hs
  rw [closeDocument_store]
  exact (ht.advances_remove u).unique

/-- Names stay unique. -/
theorem unique_heed (hs : s.store.Unique) (n : Notice) : (s.heed h n).store.Unique := by
  have updated (uri : Uri) {f : Document → Document} (name : ∀ d, (f d).uri = d.uri) :
      (s.updateDocument h uri f).store.Unique := by
    obtain ⟨store, advances, -, he⟩ | he := updateDocument_cases_of_unique hs h uri name <;> rw [he]
    · rw [recompile_store]
      exact advances.unique
    · exact hs
  cases n with
  | opened d =>
    rw [heed]
    obtain ⟨store, advances, -, he⟩ | he := openDocument_cases_of_unique hs h d <;> rw [he]
    · rw [requestCompilation_store]
      exact advances.unique
    · exact hs
  | changed c => exact updated c.uri (f := (·.changed c.changes c.version)) fun _ => rfl
  | saved c => exact updated c.uri fun d => Store.uri_saved d c.text
  | closed uri =>
    rw [heed, closeDocument_store]
    exact (hs.advances_remove uri).unique
  | notebookOpened opening =>
    have advances := advances_openNotebook hs h opening
    simp only [heed, openNotebook]
    split
    · next he =>
      rw [store_foldl_requestCompilation]
      rw [he] at advances
      exact advances.unique
    · next he =>
      rw [he] at advances
      exact advances.unique
  | notebookChanged change =>
    obtain ⟨dropped, -, advances⟩ := advances_changeNotebook hs h change
    have closed := unique_closeDocuments
      (s := { s with store := (s.store.changeNotebook h.files change).1 }) advances.unique
    simp only [heed, changeNotebook]
    split
    · rw [store_foldl_recompile]
      exact closed _
    · exact closed _
  | notebookSaved uri => exact (hs.advances_withNotebook uri).unique
  | notebookClosed closing =>
    exact ((unique_closeDocuments hs closing.cells).advances_remove closing.uri).unique
  | configured settings => exact hs
  | cancelled id =>
    simp only [heed, cancel]
    split <;> exact hs

/-! ### What one report does -/

/-- The reports after which a document has a worker and is not open. A notebook is closed, and a document
of its name has a worker and is none of the cells; or a change closes a document, and opens or edits it
as well. -/
def Detaches (h : Host σ) (s : Session σ) : Notice → Prop
  | .notebookClosed closing => closing.uri ∈ s.employers ∧ closing.uri ∉ closing.cells
  | .notebookChanged change =>
    ∃ cells, (s.store.changeNotebook h.files change).2 = .ok cells ∧
      ∃ uri ∈ cells, uri ∈ (change.splice.map (·.closed)).getD []
  | _ => False

/-- A change of a notebook detaches no worker exactly if it touches none of the documents that it
closes. -/
theorem attached_changeNotebook_iff (ha : s.Attached) (hs : s.store.Unique) (change : NotebookChange) :
    (s.changeNotebook h change).Attached ↔ ¬ s.Detaches h (.notebookChanged change) := by
  obtain ⟨dropped, closes, advances⟩ := advances_changeNotebook hs h change
  have others := attached_closeDocuments ((change.splice.map (·.closed)).getD [])
    (s := { s with store := (s.store.changeNotebook h.files change).1 })
    fun u hu kept => advances.isSome_find? (ha u hu) fun gone => kept (closes gone)
  rw [changeNotebook, Detaches]
  cases hr : s.store.changeNotebook h.files change with
  | mk store touched =>
    rw [hr] at others
    cases touched with
    | error e => exact iff_of_true others (by simp)
    | ok cells =>
      simp only [attached_foldl_recompile_iff, others, true_and]
      constructor
      · rintro opened ⟨_, ⟨⟩, uri, touched, closed⟩
        have found := opened uri touched
        rw [find?_closeDocuments closed] at found
        cases found
      · intro apart uri touched
        rw [find?_closeDocuments_of_not_mem fun closed => apart ⟨cells, rfl, uri, touched, closed⟩]
        exact hs.isSome_of_changeNotebook hr touched

/-- **What a report does to workers.** If every worker has an open document, then after a report it is so
again, exactly if the report is none of the two. -/
theorem attached_heed_iff (ha : s.Attached) (hs : s.store.Unique) (n : Notice) :
    (s.heed h n).Attached ↔ ¬ s.Detaches h n := by
  have updated (uri : Uri) {f : Document → Document} (name : ∀ d, (f d).uri = d.uri) :
      (s.updateDocument h uri f).Attached := by
    obtain ⟨store, advances, found, he⟩ | he := updateDocument_cases_of_unique hs h uri name <;> rw [he]
    · exact attached_recompile_iff.2 ⟨ha.withStore advances, found⟩
    · exact ha
  cases n with
  | opened d =>
    refine iff_of_true ?_ id
    rw [heed]
    obtain ⟨store, advances, found, he⟩ | he := openDocument_cases_of_unique hs h d <;> rw [he]
    · exact attached_requestCompilation_iff.2 ⟨ha.withStore advances, found⟩
    · exact ha
  | changed c =>
    exact iff_of_true (updated c.uri (f := (·.changed c.changes c.version)) fun _ => rfl) id
  | saved c => exact iff_of_true (updated c.uri fun d => Store.uri_saved d c.text) id
  | closed uri =>
    exact iff_of_true (attached_closeDocuments [uri] fun u hu _ => ha u hu) id
  | notebookOpened opening =>
    have advances := advances_openNotebook hs h opening
    refine iff_of_true ?_ id
    simp only [heed, openNotebook]
    split
    · next store cells he =>
      rw [he] at advances
      exact attached_foldl_requestCompilation_iff.2
        ⟨ha.withStore advances, fun u hu => hs.isSome_of_openNotebook he hu⟩
    · next he =>
      rw [he] at advances
      exact ha.withStore advances
  | notebookChanged change => exact attached_changeNotebook_iff ha hs change
  | notebookSaved uri => exact iff_of_true (ha.withStore (hs.advances_withNotebook uri)) id
  | notebookClosed closing =>
    have cells := attached_closeDocuments closing.cells fun u hu _ => ha u hu
    rw [heed, closeNotebook, cells.remove_iff, mem_employers_closeDocuments, Detaches]
  | configured settings => exact iff_of_true ha id
  | cancelled id =>
    refine iff_of_true ?_ fun none => none
    simp only [heed, cancel]
    split <;> exact ha

/-! ### Runs -/

theorem attached_shutdown (s : Session σ) : s.shutdown.Attached := by
  simp [Attached, employers]

/-- A worker is hired for an inquiry only if its document is open. -/
theorem Attached.inquire (ha : s.Attached) (id : MessageId) (question : DocumentRequest) :
    (s.inquire id question).Attached := by
  unfold Session.inquire
  split
  · exact ha
  · next opened =>
    intro u hu
    have hu : u ∈ (s.scheduler question.document).1.employers := hu
    have opened : (s.store.find? question.document).isSome := by
      simpa [Option.isSome_iff_ne_none] using opened
    show ((s.scheduler question.document).1.store.find? u).isSome
    rw [scheduler_store]
    rcases mem_employers_scheduler.1 hu with old | rfl
    · exact ha u old
    · exact opened

theorem Attached.ask (ha : s.Attached) (id : MessageId) (method : String) (params : Json) :
    (s.ask id method params).Attached := by
  unfold Session.ask
  split
  · exact attached_shutdown (s := { s with shutdownRequested := true })
  · split
    · exact ha
    · split
      · exact ha
      · exact ha.inquire id _

/-- Without a message, documents stay open, and nobody is hired. -/
theorem advances_of_step (hs : s.store.Unique) (hstep : step? h s e = some t)
    (silent : ∀ m, e ≠ .handle m) : Store.Advances [] s.store t.store := by
  have of_eq (same : t.store = s.store) : Store.Advances [] s.store t.store := by
    rw [same]
    exact .refl hs
  cases taken_of_step? hstep with
  | handle m => exact absurd rfl (silent m)
  | shutdown => exact of_eq shutdown_store
  | receive | rest | start | miss | finish => exact of_eq (tell_store _)
  | stop => exact of_eq ((tell_store _).trans (tell_store _))
  | accept => exact hs.advances_afterCall _ _
  | place => exact of_eq (post_store _ _)
  | tick | call | yield | announce | answerNothing | answer | giveUp => exact of_eq rfl

theorem unique_step (hs : s.store.Unique) (hstep : step? h s e = some t) : t.store.Unique := by
  by_cases message : ∃ m, e = .handle m
  · obtain ⟨m, rfl⟩ := message
    cases hstep
    cases m with
    | request id method params =>
      rw [receive, ask_store]
      exact hs
    | notification method params =>
      simp only [receive, notify]
      split
      · exact hs
      · exact unique_heed hs _
    | response id => exact hs
  · exact (advances_of_step hs hstep fun m he => message ⟨m, he⟩).unique

theorem unique_of_run {compiler : σ} {es : List Step}
    (run : Run (step? h) (fun _ _ => True) { compiler } es s) : s.store.Unique :=
  run.invariant (I := fun s : Session σ => s.store.Unique)
    (fun _ _ _ hs _ hstep => unique_step hs hstep) Store.unique_empty

/-- What a step does to workers. -/
theorem attached_step_iff (ha : s.Attached) (hs : s.store.Unique) (hstep : step? h s e = some t) :
    t.Attached ↔ ∀ method params n, e = .handle (.notification method params) →
      Notice.read? method params = some n → ¬ s.Detaches h n := by
  by_cases message : ∃ m, e = .handle m
  · obtain ⟨m, rfl⟩ := message
    cases hstep
    cases m with
    | request id method params =>
      exact iff_of_true (ha.ask id method params) fun _ _ _ he => by cases he
    | notification method params =>
      simp only [receive, notify]
      cases reading : Notice.read? method params with
      | none =>
        refine iff_of_true ha ?_
        rintro _ _ n ⟨⟩ read
        cases reading.symm.trans read
      | some n =>
        refine (attached_heed_iff ha hs n).trans ⟨?_, fun kept => kept method params n rfl reading⟩
        rintro kept _ _ n' ⟨⟩ read
        cases reading.symm.trans read
        exact kept
    | response id => exact iff_of_true ha fun _ _ _ he => by cases he
  · have silent : ∀ m, e ≠ .handle m := fun m he => message ⟨m, he⟩
    refine iff_of_true ?_ fun _ _ _ he => absurd he (silent _)
    by_cases ends : e = .shutdown
    · subst ends
      cases hstep
      exact attached_shutdown s
    · have attached := ha.withStore (advances_of_step hs hstep silent)
      rw [Attached, employers, schedulers_of_step hstep silent ends]
      exact attached

/-- **When workers outlive their documents.** Along any run of a server, every document that has a worker
is open in every state, exactly if no report that is handled is one of the two. -/
theorem attached_iff (compiler : σ) (es : List Step) :
    (∀ before s, before <+: es → Run (step? h) (fun _ _ => True) { compiler } before s →
      s.Attached) ↔
    ∀ before s method params n, before ++ [.handle (.notification method params)] <+: es →
      Run (step? h) (fun _ _ => True) { compiler } before s →
      Notice.read? method params = some n → ¬ s.Detaches h n := by
  constructor
  · intro attached before s method params n prior run reading
    have ha := attached before s ((List.prefix_append _ _).trans prior) run
    have next := attached _ _ prior (run.snoc trivial rfl)
    exact (attached_step_iff ha (unique_of_run run) rfl).1 next method params n rfl reading
  · intro kept before s prior run
    induction run with
    | nil => exact fun _ hu => nomatch hu
    | @snoc t u before e run ok last ih =>
      have ha := ih ((List.prefix_append before [e]).trans prior)
      refine (attached_step_iff ha (unique_of_run run) last).2 fun method params n he reading => ?_
      subst he
      exact kept before t method params n prior run reading

end Session

/-! ### Two runs -/

namespace Sample

/-- The end of a notebook under the name of a file. -/
def closesBook : Step :=
  .handle (.notification "notebookDocument/didClose" (.obj
    [("notebookDocument", .obj [("uri", .str file.text)]), ("cellTextDocuments", .arr [])]))

/-- A cell of a notebook. -/
def cell : Json := .obj [("kind", .nat 2), ("document", .str uri.text)]

/-- The cell with its text. -/
def cellText (version : Int) (text : String) : Json :=
  .obj [("uri", .str uri.text), ("languageId", .str Keyword.languageId), ("version", .int version),
    ("text", .str text)]

/-- A notebook of one cell is opened. -/
def opensBook : Step :=
  .handle (.notification "notebookDocument/didOpen" (.obj
    [("notebookDocument", .obj [("uri", .str "untitled:book"), ("notebookType", .str "book"),
      ("version", .int 1), ("cells", .arr [cell])]),
    ("cellTextDocuments", .arr [cellText 1 "int one;"])]))

/-- The cell is replaced by one of the same name. -/
def reopensCell : Step :=
  .handle (.notification "notebookDocument/didChange" (.obj
    [("notebookDocument", .obj [("uri", .str "untitled:book"), ("version", .int 2)]),
    ("change", .obj [("cells", .obj [("structure", .obj
      [("array", .obj [("start", .nat 0), ("deleteCount", .nat 1), ("cells", .arr [cell])]),
      ("didOpen", .arr [cellText 2 "int two;"]),
      ("didClose", .arr [.obj [("uri", .str uri.text)]])])])])]))

end Sample

namespace Session

open Sample

/-- A file is opened, and then a notebook of the same name is closed: the file is closed with it, and
keeps its worker. Or a cell is closed and opened again by one change: it is closed after that, and has a
worker. -/
theorem workers_outlive_documents :
    (∃ t : Session Unit, Run (step? host) (fun _ _ => True) { compiler := () }
        [opensFile "int one;", closesBook] t ∧
      file ∈ t.employers ∧ t.store.find? file = none ∧ ¬ t.Attached) ∧
    ∃ t : Session Unit, Run (step? host) (fun _ _ => True) { compiler := () }
        [opensBook, reopensCell] t ∧
      uri ∈ t.employers ∧ t.store.find? uri = none ∧ ¬ t.Attached := by
  have run (es : List Step) (document : Uri)
      (ends : (es.foldlM (step? host) ({ compiler := () } : Session Unit)).any (fun t =>
        decide (document ∈ t.employers) && (t.store.find? document).isNone) = true) :
      ∃ t : Session Unit, Run (step? host) (fun _ _ => True) { compiler := () } es t ∧
        document ∈ t.employers ∧ t.store.find? document = none ∧ ¬ t.Attached := by
    obtain ⟨t, steps, found⟩ := (Option.any_eq_true _ _).1 ends
    obtain ⟨works, closed⟩ : document ∈ t.employers ∧ t.store.find? document = none := by
      simpa using found
    refine ⟨t, .of_foldlM (fun _ _ _ => trivial) steps, works, closed, fun attached => ?_⟩
    cases (congrArg Option.isSome closed).symm.trans (attached document works)
  exact ⟨run _ file (by decide +kernel), run _ uri (by decide +kernel)⟩

end Session

end LanguageServer
