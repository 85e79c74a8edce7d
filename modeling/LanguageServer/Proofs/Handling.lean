import LanguageServer.Session.Handling
import LanguageServer.Proofs.Store

/-!
# What messages change

* `Notice.documents`: the documents that a report is about;
* `Session.SameCrew`: sessions that differ in nothing that workers and inquiries see;
* `Session.edited_heed`: a report edits no other documents than those it is about;
* `Session.heed_induction_closes`: it asks for the compilation of these documents, stops their workers, or
  marks an inquiry as cancelled, and does nothing else to the crew.
-/

namespace LanguageServer

/-- The documents that a report is about. A notebook that is closed may also stand for a document of
its name. -/
def Notice.documents : Notice → List Uri
  | .opened d => [d.uri]
  | .changed c => [c.uri]
  | .saved c => [c.uri]
  | .closed uri => [uri]
  | .notebookOpened opening => opening.texts.map (·.uri)
  | .notebookChanged change => change.documents
  | .notebookClosed closing => closing.uri :: closing.cells
  | .notebookSaved _ | .configured _ | .cancelled _ => []

/-- The documents that a report closes. -/
def Notice.closes : Notice → List Uri
  | .closed uri => [uri]
  | .notebookChanged change => (change.splice.map (·.closed)).getD []
  | .notebookClosed closing => closing.uri :: closing.cells
  | _ => []

theorem Notice.closes_subset (n : Notice) : n.closes ⊆ n.documents := by
  cases n with
  | closed | notebookClosed => exact List.Subset.refl _
  | notebookChanged change =>
    exact fun u hu => List.mem_append_left _ (List.mem_append_left _ hu)
  | opened | changed | saved | notebookOpened | notebookSaved | configured | cancelled =>
    exact List.nil_subset _

namespace Session

variable {σ : Type} {s t : Session σ} {h : Host σ} {uri : Uri}

/-! ### What the moves leave as it was -/

theorem tell_eq (s : Session σ) (vs : List (Nat × Verdict)) :
    s.tell vs = { s with inquiries := (s.tell vs).inquiries } := by
  unfold tell
  induction vs generalizing s with
  | nil => rfl
  | cons v vs ih =>
    rw [List.foldl_cons, ih]
    rfl

theorem post_eq (s : Session σ) (w : Nat) (order : Order Nat) :
    s.post w order =
      { s with mail := (s.post w order).mail, inquiries := (s.post w order).inquiries } := by
  unfold post
  split
  · rfl
  · rw [tell_eq]

theorem scheduler_eq (s : Session σ) (uri : Uri) :
    (s.scheduler uri).1 =
      { s with
        workers := (s.scheduler uri).1.workers
        schedulers := (s.scheduler uri).1.schedulers } := by
  unfold scheduler
  split <;> rfl

@[simp] theorem tell_store (vs) : (s.tell vs).store = s.store := by
  rw [tell_eq]
@[simp] theorem tell_cache (vs) : (s.tell vs).cache = s.cache := by
  rw [tell_eq]
@[simp] theorem tell_workers (vs) : (s.tell vs).workers = s.workers := by
  rw [tell_eq]
@[simp] theorem tell_schedulers (vs) : (s.tell vs).schedulers = s.schedulers := by
  rw [tell_eq]
@[simp] theorem tell_mail (vs) : (s.tell vs).mail = s.mail := by
  rw [tell_eq]
@[simp] theorem tell_sent (vs) : (s.tell vs).sent = s.sent := by
  rw [tell_eq]

@[simp] theorem post_store (w o) : (s.post w o).store = s.store := by
  rw [post_eq]
@[simp] theorem post_cache (w o) : (s.post w o).cache = s.cache := by
  rw [post_eq]
@[simp] theorem post_workers (w o) : (s.post w o).workers = s.workers := by
  rw [post_eq]

@[simp] theorem post_schedulers (w o) : (s.post w o).schedulers = s.schedulers := by
  rw [post_eq]

@[simp] theorem scheduler_store (uri) : (s.scheduler uri).1.store = s.store := by
  rw [scheduler_eq]
@[simp] theorem scheduler_cache (uri) : (s.scheduler uri).1.cache = s.cache := by
  rw [scheduler_eq]
@[simp] theorem scheduler_inquiries (uri) : (s.scheduler uri).1.inquiries = s.inquiries := by
  rw [scheduler_eq]

@[simp] theorem requestCompilation_store (uri) : (s.requestCompilation uri).store = s.store := by
  simp [requestCompilation]

@[simp] theorem requestCompilation_cache (uri) : (s.requestCompilation uri).cache = s.cache := by
  simp [requestCompilation]

@[simp] theorem recompile_store (uri) : (s.recompile uri).store = s.store := by simp [recompile]

@[simp] theorem recompile_cache (uri) : (s.recompile uri).cache = s.cache.erase uri := by
  simp [recompile]

@[simp] theorem stopScheduler_store (uri) : (s.stopScheduler uri).store = s.store := by
  unfold stopScheduler
  split
  · rfl
  · exact post_store _ _

@[simp] theorem stopScheduler_cache (uri) : (s.stopScheduler uri).cache = s.cache := by
  unfold stopScheduler
  split
  · rfl
  · exact post_cache _ _

@[simp] theorem publish_store (uri shown version) :
    (s.publish uri shown version).store = s.store := by
  unfold publish
  split <;> rfl

@[simp] theorem publish_cache (uri shown version) :
    (s.publish uri shown version).cache = s.cache := by
  unfold publish
  split <;> rfl

@[simp] theorem closeDocument_store (uri) : (s.closeDocument uri).store = s.store.remove uri := by
  simp [closeDocument]

@[simp] theorem closeDocument_cache (uri) : (s.closeDocument uri).cache = s.cache := by
  simp [closeDocument]

theorem inquire_store (id : MessageId) (question : DocumentRequest) :
    (s.inquire id question).store = s.store := by
  unfold inquire
  split
  · rfl
  · exact scheduler_store _

theorem foldl_preserves {α β : Type} {P : β → Prop} {f : β → α → β} {xs : List α} {b : β}
    (step : ∀ b, ∀ x ∈ xs, P b → P (f b x)) (start : P b) : P (xs.foldl f b) := by
  induction xs generalizing b with
  | nil => exact start
  | cons x xs ih =>
    exact ih (fun b y hy => step b y (List.mem_cons_of_mem _ hy)) (step b x List.mem_cons_self start)

@[simp] theorem shutdown_store : s.shutdown.store = s.store :=
  foldl_preserves (P := fun t : Session σ => t.store = s.store) (fun _ _ _ ht => by simp [ht]) rfl

@[simp] theorem shutdown_schedulers : s.shutdown.schedulers = [] :=
  foldl_preserves (P := fun t : Session σ => t.schedulers = []) (fun _ _ _ ht => by simp [ht]) rfl

theorem ask_store (id : MessageId) (method : String) (params : Json) :
    (s.ask id method params).store = s.store := by
  unfold ask
  split
  · exact shutdown_store
  · split
    · rfl
    · split
      · rfl
      · exact inquire_store _ _

/-! ### The store -/

theorem edited_closeDocuments (about : Uri → Prop) {uris : List Uri} (hu : ∀ u ∈ uris, about u)
    (s : Session σ) : Store.Edited about s.store (uris.foldl closeDocument s).store := by
  refine foldl_preserves (P := fun t : Session σ => Store.Edited about s.store t.store) ?_ (.refl _)
  intro t u hmem ht
  rw [closeDocument_store]
  exact ht.trans (.remove _ u (hu u hmem))

/-- None of the documents that are closed one after the other is open afterwards. -/
theorem find?_closeDocuments {uris : List Uri} (hu : uri ∈ uris) :
    (uris.foldl closeDocument s).store.find? uri = none := by
  induction uris generalizing s with
  | nil => cases hu
  | cons u uris ih =>
    by_cases hmem : uri ∈ uris
    · exact ih hmem
    · obtain rfl : uri = u := (List.mem_cons.1 hu).resolve_right hmem
      have gone : (s.closeDocument uri).store.find? uri = none := by
        rw [closeDocument_store]
        exact Store.find?_remove_self
      rw [List.foldl_cons]
      refine foldl_preserves (P := fun t : Session σ => t.store.find? uri = none)
        (fun t u _ ht => ?_) gone
      rw [closeDocument_store]
      exact Store.find?_remove_of_none ht

theorem store_foldl_requestCompilation (uris : List Uri) (s : Session σ) :
    (uris.foldl requestCompilation s).store = s.store :=
  foldl_preserves (P := fun t : Session σ => t.store = s.store) (fun t u _ ht => by simp [ht]) rfl

theorem store_foldl_recompile (uris : List Uri) (s : Session σ) :
    (uris.foldl recompile s).store = s.store :=
  foldl_preserves (P := fun t : Session σ => t.store = s.store) (fun t u _ ht => by simp [ht]) rfl

/-- What becomes of a document that the editor opens. -/
theorem openDocument_cases (h : Host σ) (s : Session σ) (d : TextDocument) :
    (∃ store doc, s.store.register h.files d.uri d.language (some d.text) = (store, .ok doc) ∧
      s.openDocument h d =
        { s with store := store.update d.uri (·.opened d.text d.version) }.requestCompilation d.uri) ∨
    (∃ store e, s.store.register h.files d.uri d.language (some d.text) = (store, .error e) ∧
      s.openDocument h d = { s with store }) := by
  unfold openDocument
  split
  · next store doc he => exact Or.inl ⟨store, doc, he, rfl⟩
  · next store e he => exact Or.inr ⟨store, e, he, rfl⟩

/-- A document that can be registered is open then, with the text and the version that were sent. -/
theorem find?_openDocument {d : TextDocument} {store : Store} {doc : Document}
    (registered : s.store.register h.files d.uri d.language (some d.text) = (store, .ok doc)) :
    (s.openDocument h d).store.find? d.uri = some (doc.opened d.text d.version) := by
  rw [openDocument, registered]
  simp only [requestCompilation_store]
  exact Store.find?_update_of_some (f := (·.opened d.text d.version)) (fun _ => rfl)
    (Store.find?_register registered)

theorem distinct_openDocument (h : Host σ) (s : Session σ) (d : TextDocument) :
    (s.openDocument h d).store.Distinct := by
  have registered := Store.distinct_register h.files d.uri d.language (some d.text) s.store
  obtain ⟨store, doc, hr, he⟩ | ⟨store, e, hr, he⟩ := openDocument_cases h s d <;>
    rw [he] <;> rw [hr] at registered
  · rw [requestCompilation_store]
    exact (Store.edited_opened (· = d.uri) rfl d.text d.version).distinct registered
  · exact registered

theorem edited_openDocument (d : TextDocument) (s : Session σ) :
    Store.Edited (· = d.uri) s.store (s.openDocument h d).store := by
  have first := Store.edited_register (s := s.store) h.files (· = d.uri) rfl d.language (some d.text)
  obtain ⟨store, doc, hr, he⟩ | ⟨store, e, hr, he⟩ := openDocument_cases h s d <;>
    rw [he] <;> rw [hr] at first
  · rw [requestCompilation_store]
    exact first.trans (Store.edited_opened (· = d.uri) rfl _ _)
  · exact first

theorem edited_updateDocument {f : Document → Document} (name : ∀ d, (f d).uri = d.uri)
    (analysis : ∀ d, (f d).analysis = d.analysis) (uri : Uri) (s : Session σ) :
    Store.Edited (· = uri) s.store (s.updateDocument h uri f).store := by
  have first := Store.edited_register (s := s.store) h.files (· = uri) rfl
    (uri.extension?.getD "") none
  unfold updateDocument Store.registerByExtension
  split
  · next t _ he =>
    rw [he] at first
    rw [recompile_store]
    exact first.trans (.update _ _ f rfl name analysis)
  · next t _ he =>
    rw [he] at first
    exact first

theorem reports_openNotebook (h : Host σ) (s : Session σ) (opening : NotebookOpening) :
    Store.Reports (· ∈ (Notice.notebookOpened opening).documents) s.store
      (s.store.openNotebook h.files opening) :=
  Store.reports_openNotebook h.files _ opening (fun _ hc => List.mem_map_of_mem hc) s.store

theorem reports_changeNotebook (h : Host σ) (s : Session σ) (change : NotebookChange) :
    Store.Reports (· ∈ (Notice.notebookChanged change).documents) s.store
      (s.store.changeNotebook h.files change) :=
  Store.reports_changeNotebook h.files _ change (fun _ hu => hu) s.store

/-- A report edits no other documents than those it is about. -/
theorem edited_heed (n : Notice) (s : Session σ) :
    Store.Edited (· ∈ n.documents) s.store (s.heed h n).store := by
  cases n with
  | opened d => exact (edited_openDocument d s).mono (by simp [Notice.documents])
  | changed c =>
    exact (edited_updateDocument (h := h) (f := (·.changed c.changes c.version)) (fun _ => rfl)
      (fun _ => rfl) c.uri s).mono
      (by simp [Notice.documents])
  | saved c =>
    exact (edited_updateDocument (fun d => Store.uri_saved d c.text)
      (fun d => Store.analysis_saved d c.text) c.uri s).mono (by simp [Notice.documents])
  | closed uri =>
    rw [heed, closeDocument_store]
    exact .remove _ uri List.mem_cons_self
  | notebookOpened opening =>
    have cells := reports_openNotebook h s opening
    simp only [heed, openNotebook, Notice.documents]
    split
    · next t uris he =>
      rw [he] at cells
      rw [store_foldl_requestCompilation]
      exact cells.edited
    · next t e he =>
      rw [he] at cells
      exact cells.edited
  | notebookChanged change =>
    have cells := reports_changeNotebook h s change
    have closed := edited_closeDocuments (· ∈ change.documents)
      (fun u hu => List.mem_append_left _ (List.mem_append_left _ hu))
      { s with store := (s.store.changeNotebook h.files change).1 }
    have all := cells.edited.trans closed
    simp only [heed, changeNotebook, Notice.documents]
    split
    · rw [store_foldl_recompile]
      exact all
    · exact all
  | notebookSaved uri => exact Store.edited_withNotebook _ _ _
  | notebookClosed closing =>
    have cells := edited_closeDocuments (· ∈ closing.uri :: closing.cells)
      (fun u hu => List.mem_cons_of_mem _ hu) s
    exact cells.trans (.remove _ _ List.mem_cons_self)
  | configured settings => exact .refl _
  | cancelled id =>
    simp only [heed, cancel]
    split <;> exact .refl _

/-- A document that a report closes is not open afterwards. -/
theorem find?_heed_of_closes {n : Notice} (closes : uri ∈ n.closes) :
    (s.heed h n).store.find? uri = none := by
  cases n with
  | closed u =>
    obtain rfl : uri = u := List.mem_singleton.1 closes
    rw [heed, closeDocument_store]
    exact Store.find?_remove_self
  | notebookChanged change =>
    have gone := find?_closeDocuments (s := { s with
      store := (s.store.changeNotebook h.files change).1 }) closes
    simp only [heed, changeNotebook]
    split
    · rw [store_foldl_recompile]
      exact gone
    · exact gone
  | notebookClosed closing =>
    rcases List.mem_cons.1 closes with rfl | cell
    · exact Store.find?_remove_self
    · exact Store.find?_remove_of_none (find?_closeDocuments cell)
  | opened | changed | saved | notebookOpened | notebookSaved | configured | cancelled =>
    exact absurd closes (List.not_mem_nil)

/-! ### The crew -/

/-- Sessions that differ in nothing that workers and inquiries see of each other. -/
structure SameCrew (s t : Session σ) : Prop where
  workers : t.workers = s.workers
  schedulers : t.schedulers = s.schedulers
  mail : t.mail = s.mail
  inquiries : t.inquiries = s.inquiries

theorem sameCrew_publish (uri : Uri) (shown : List Problem) (version : Option Int) :
    s.SameCrew (s.publish uri shown version) := by
  unfold publish
  split <;> exact ⟨rfl, rfl, rfl, rfl⟩

section

variable {P : Session σ → Prop} (frame : ∀ s t : Session σ, s.SameCrew t → P s → P t)

include frame

theorem closeDocument_preserves (stop : ∀ s, P s → P (s.stopScheduler uri)) (start : P s) :
    P (s.closeDocument uri) :=
  frame _ _ (sameCrew_publish _ _ _) (stop _ (frame s _ ⟨rfl, rfl, rfl, rfl⟩ start))

theorem recompile_preserves (request : ∀ s, P s → P (s.requestCompilation uri)) (start : P s) :
    P (s.recompile uri) :=
  request _ (frame s _ ⟨rfl, rfl, rfl, rfl⟩ start)

theorem openDocument_preserves {d : TextDocument}
    (request : ∀ s, P s → P (s.requestCompilation d.uri)) (start : P s) :
    P (s.openDocument h d) := by
  unfold openDocument
  split
  · exact request _ (frame s _ ⟨rfl, rfl, rfl, rfl⟩ start)
  · exact frame s _ ⟨rfl, rfl, rfl, rfl⟩ start

theorem updateDocument_preserves {f : Document → Document}
    (request : ∀ s, P s → P (s.requestCompilation uri)) (start : P s) :
    P (s.updateDocument h uri f) := by
  unfold updateDocument
  split
  · exact recompile_preserves frame request (frame s _ ⟨rfl, rfl, rfl, rfl⟩ start)
  · exact frame s _ ⟨rfl, rfl, rfl, rfl⟩ start

/-- What a report does to the crew: compilations of its documents are asked for, the workers of those
that it closes are to stop, or an inquiry is marked as cancelled. -/
theorem heed_induction_closes {n : Notice}
    (request : ∀ s : Session σ, ∀ u ∈ n.documents, P s → P (s.requestCompilation u))
    (stop : ∀ s : Session σ, ∀ u ∈ n.closes, P s → P (s.stopScheduler u))
    (cancel : ∀ (s : Session σ) (i : Nat), P s →
      P (s.updateInquiry i fun q => { q with cancelled := true }))
    (start : P s) : P (s.heed h n) := by
  cases n with
  | opened d =>
    exact openDocument_preserves frame (fun s => request s d.uri List.mem_cons_self) start
  | changed c =>
    exact updateDocument_preserves frame (fun s => request s c.uri List.mem_cons_self) start
  | saved c =>
    exact updateDocument_preserves frame (fun s => request s c.uri List.mem_cons_self) start
  | closed uri =>
    exact closeDocument_preserves frame (fun s => stop s uri List.mem_cons_self) start
  | notebookOpened opening =>
    have cells := reports_openNotebook h s opening
    simp only [heed, openNotebook]
    split
    · next t uris he =>
      rw [he] at cells
      exact foldl_preserves (fun s u hu => request s u (cells.named uris rfl u hu))
        (frame s _ ⟨rfl, rfl, rfl, rfl⟩ start)
    · exact frame s _ ⟨rfl, rfl, rfl, rfl⟩ start
  | notebookChanged change =>
    have cells := reports_changeNotebook h s change
    have closed : P (((change.splice.map (·.closed)).getD []).foldl closeDocument
        { s with store := (s.store.changeNotebook h.files change).1 }) := by
      exact foldl_preserves (fun s u hu => closeDocument_preserves frame fun s => stop s u hu)
        (frame s _ ⟨rfl, rfl, rfl, rfl⟩ start)
    simp only [heed, changeNotebook]
    split
    · next uris he =>
      exact foldl_preserves
        (fun s u hu => recompile_preserves frame fun s => request s u (cells.named uris he u hu)) closed
    · exact closed
  | notebookSaved uri => exact frame s _ ⟨rfl, rfl, rfl, rfl⟩ start
  | notebookClosed closing =>
    refine frame (closing.cells.foldl closeDocument s) _ ⟨rfl, rfl, rfl, rfl⟩
      (foldl_preserves (fun s u hu => ?_) start)
    exact closeDocument_preserves frame fun s => stop s u (List.mem_cons_of_mem _ hu)
  | configured settings => exact frame s _ ⟨rfl, rfl, rfl, rfl⟩ start
  | cancelled id =>
    simp only [heed, Session.cancel]
    split
    · exact start
    · exact cancel _ _ start

theorem heed_induction {n : Notice}
    (request : ∀ s : Session σ, ∀ u ∈ n.documents, P s → P (s.requestCompilation u))
    (stop : ∀ s : Session σ, ∀ u ∈ n.documents, P s → P (s.stopScheduler u))
    (cancel : ∀ (s : Session σ) (i : Nat), P s →
      P (s.updateInquiry i fun q => { q with cancelled := true }))
    (start : P s) : P (s.heed h n) :=
  heed_induction_closes frame request (fun s u hu => stop s u (n.closes_subset hu)) cancel start

/-- What a request does to the crew: the server shuts down, or an inquiry is made. -/
theorem ask_induction {id : MessageId} {method : String} {params : Json}
    (shutdown : ∀ s : Session σ, P s → P s.shutdown)
    (inquire : ∀ (s : Session σ) question, P s → P (s.inquire id question))
    (start : P s) : P (s.ask id method params) := by
  unfold ask
  split
  · have asked : P { s with shutdownRequested := true } := frame s _ ⟨rfl, rfl, rfl, rfl⟩ start
    exact frame (Session.shutdown { s with shutdownRequested := true }) _ ⟨rfl, rfl, rfl, rfl⟩
      (shutdown _ asked)
  · split
    · exact frame s _ ⟨rfl, rfl, rfl, rfl⟩ start
    · split
      · exact frame s _ ⟨rfl, rfl, rfl, rfl⟩ start
      · exact inquire s _ start

/-- What a message does to the crew. -/
theorem receive_induction (m : Message)
    (request : ∀ (s : Session σ) u, P s → P (s.requestCompilation u))
    (stop : ∀ (s : Session σ) u, P s → P (s.stopScheduler u))
    (cancel : ∀ (s : Session σ) (i : Nat), P s →
      P (s.updateInquiry i fun q => { q with cancelled := true }))
    (shutdown : ∀ s : Session σ, P s → P s.shutdown)
    (inquire : ∀ (s : Session σ) id question, P s → P (s.inquire id question))
    (start : P s) : P (s.receive h m) := by
  cases m with
  | request id method params => exact ask_induction frame shutdown (fun s => inquire s id) start
  | notification method params =>
    simp only [receive, notify]
    split
    · exact start
    · exact heed_induction frame (fun s u _ => request s u) (fun s u _ => stop s u) cancel start
  | response id => exact start

end

end Session

end LanguageServer
