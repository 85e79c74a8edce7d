import LanguageServer.Proofs.Freshness

/-!
# Documents that are opened again

A worker that is to stop learns it some time later, and may store the outcome of a call that it made
before. The store knows documents by their names alone, so the outcome ends up in whatever was opened
under the name since.

* `Worker.Owes`: a worker that may still store the outcome of a call;
* `Session.Starts`, `Session.Brings`: compilations and analyses of a run;
* `Session.Renewed`: no analysis of an opened document is older than its opening;
* `Session.Unburdened`, `Session.renewed_iff_unburdened`: when that is so.
-/

namespace LanguageServer

/-- A worker that may still store the outcome of a call that was made. -/
def Worker.Owes (k : Worker) : Prop :=
  match k.stage with
  | some (.calling _ _) => k.actor.stopped = false
  | some (.returned _ (.ok _)) => True
  | _ => False

namespace Session

variable {σ : Type} {s t u : Session σ} {h : Host σ} {uri : Uri} {w : Nat} {k : Worker}
  {es : List Step} {e : Step}

/-! ### New workers -/

/-- Workers are as they were, or new and without a compilation. -/
def Hires (s t : Session σ) : Prop :=
  ∀ (w : Nat) (k : Worker), t.workers[w]? = some k → s.workers[w]? = some k ∨ k.stage = none

namespace Hires

theorem of_eq (he : t.workers = s.workers) : s.Hires t := fun _ _ hk => Or.inl (he ▸ hk)

theorem trans (first : s.Hires t) (second : t.Hires u) : s.Hires u := by
  intro w k hk
  rcases second w k hk with hk | none
  · exact first w k hk
  · exact Or.inr none

theorem scheduler (s : Session σ) (uri : Uri) : s.Hires (s.scheduler uri).1 := by
  unfold Session.scheduler
  split
  · exact of_eq rfl
  · intro w k hk
    rcases getElem?_concat_cases hk with hk | ⟨-, rfl⟩
    · exact Or.inl hk
    · exact Or.inr rfl

theorem requestCompilation (s : Session σ) (uri : Uri) : s.Hires (s.requestCompilation uri) :=
  (scheduler s uri).trans (of_eq (post_workers _ _))

theorem stopScheduler (s : Session σ) (uri : Uri) : s.Hires (s.stopScheduler uri) := by
  unfold Session.stopScheduler
  split
  · exact of_eq rfl
  · exact of_eq (post_workers _ _)

theorem heed (s : Session σ) (n : Notice) : s.Hires (s.heed h n) := by
  refine heed_induction (P := fun t : Session σ => s.Hires t) ?_ ?_ ?_ ?_ (of_eq rfl)
  · exact fun a b same ha => ha.trans (of_eq same.workers)
  · exact fun a u _ ha => ha.trans (requestCompilation a u)
  · exact fun a u _ ha => ha.trans (stopScheduler a u)
  · exact fun a i ha => ha

theorem shutdown (s : Session σ) : s.Hires s.shutdown :=
  foldl_preserves (P := fun t : Session σ => s.Hires t)
    (fun _ _ _ ht => ht.trans (of_eq (post_workers _ _))) (of_eq rfl)

theorem inquire (s : Session σ) (id : MessageId) (question : DocumentRequest) :
    s.Hires (s.inquire id question) := by
  unfold Session.inquire
  split
  · exact of_eq rfl
  · exact scheduler s _

theorem ask (s : Session σ) (id : MessageId) (method : String) (params : Json) :
    s.Hires (s.ask id method params) :=
  ask_induction (P := fun t : Session σ => s.Hires t) (fun _ _ same ht => ht.trans (of_eq same.workers))
    (fun t ht => ht.trans (shutdown t)) (fun t question ht => ht.trans (inquire t id question))
    (of_eq rfl)

theorem receive (s : Session σ) (m : Message) : s.Hires (s.receive h m) := by
  cases m with
  | request id method params => exact ask s id method params
  | notification method params =>
    simp only [Session.receive, notify]
    split
    · exact of_eq rfl
    · exact heed s _
  | response id => exact of_eq rfl

end Hires

/-! ### Where outcomes come from -/

theorem not_owes_of_none (stage : k.stage = none) : ¬ k.Owes := by
  simp [Worker.Owes, stage]

/-- The worker owed an outcome before a step that did not store it. -/
def OwedBefore (s : Session σ) (e : Step) (w : Nat) (k : Worker) : Prop :=
  e ≠ .accept w ∧ ∃ k', s.workers[w]? = some k' ∧ k'.document = k.document ∧
    k'.actor.stopped = k.actor.stopped ∧ k'.Owes

/-- A worker calls the compiler. -/
def Calls (e : Step) (w : Nat) (k : Worker) : Prop := e = .call w ∧ k.actor.stopped = false

/-- Only one worker changes in a step of a worker. -/
theorem owes_of_changed {v : Nat} {x : Worker}
    (changed : ∀ i, t.workers[i]? = if i = v then some x else s.workers[i]?)
    (worker : t.workers[w]? = some k) (owes : k.Owes)
    (self : x.Owes → Calls e v x ∨ s.OwedBefore e v x) (other : ∀ i, i ≠ v → e ≠ .accept i) :
    Calls e w k ∨ s.OwedBefore e w k := by
  rw [changed] at worker
  split at worker
  · next hw =>
    cases worker
    exact hw ▸ self owes
  · next hw => exact Or.inr ⟨other w hw, k, worker, rfl, rfl, owes⟩

/-- **What a worker owes goes back to a call.** A worker that owes an outcome after a step owed it
before, unless the step is the call. -/
theorem owes_step (hstep : step? h s e = some t) (worker : t.workers[w]? = some k) (owes : k.Owes) :
    Calls e w k ∨ s.OwedBefore e w k := by
  have of_hires : e ≠ .accept w → s.Hires t → Calls e w k ∨ s.OwedBefore e w k := by
    intro he hires
    rcases hires w k worker with old | none
    · exact Or.inr ⟨he, k, old, rfl, rfl, owes⟩
    · exact absurd owes (not_owes_of_none none)
  -- a worker that takes a step leaves all others as they are; messages at most hire new ones
  cases taken_of_step? hstep with
  | handle m => exact of_hires (by simp) (.receive s m)
  | shutdown => exact of_hires (by simp) (.shutdown s)
  | tick time => exact of_hires (by simp) (.of_eq (by rfl))
  | @receive v k₀ order mail worker₀ next free goes =>
    -- a stopped actor stays stopped
    have live : k₀.actor.stopped = false := by
      cases stopped : k₀.actor.stopped with
      | false => rfl
      | true => rwa [Actor.receive_of_stopped stopped, stopped] at goes
    refine owes_of_changed (getElem?_act (s := { s with mail }) worker₀ _ _) worker owes
      (fun owes => Or.inr ⟨by simp, k₀, worker₀, rfl, live.trans goes.symm, ?_⟩) (by simp)
    unfold Worker.Owes at owes ⊢
    split at owes <;> simp_all
  | @stop v k₀ order mail worker₀ next free stops =>
    rw [discardMail, tell_workers] at worker
    refine owes_of_changed (t := act { s with mail } v k₀ (Stage.orphaned k₀.stage) _)
      (getElem?_act (s := { s with mail }) worker₀ _ _) worker owes (fun owes => ?_) (by simp)
    -- only a call can be left, and its outcome goes nowhere
    simp only [Worker.Owes] at owes
    split at owes
    · rw [stops] at owes
      cases owes
    · next hs =>
      unfold Stage.orphaned at hs
      split at hs <;> cases hs
    · cases owes
  | rest worker₀ | miss worker₀ | finish worker₀ | start worker₀ =>
    exact owes_of_changed (getElem?_act worker₀ _ _) worker owes (fun owes => owes.elim) (by simp)
  | call worker₀ =>
    exact owes_of_changed (getElem?_updateWorker worker₀) worker owes
      (fun live => Or.inl ⟨rfl, live⟩) (by simp)
  | @yield v k₀ job project compiler cache result worker₀ stage run =>
    refine owes_of_changed (s := s) (getElem?_updateWorker (s := { s with compiler, cache }) worker₀)
      worker owes (fun owes => Or.inr ⟨by simp, k₀, worker₀, rfl, rfl, ?_⟩) (by simp)
    simp only [Worker.Owes, stage]
    cases live : k₀.actor.stopped with
    | false => rfl
    | true => simp [Worker.Owes, live] at owes
  | @accept v k₀ version result worker₀ stage =>
    -- who has stored an outcome has only messages left
    exact owes_of_changed (s := s) (getElem?_updateWorker
      (s := { s with store := (afterCall s.store k₀.document result).1 }) worker₀)
      worker owes (fun owes => owes.elim) (by simp [eq_comm])
  | announce worker₀ =>
    exact owes_of_changed (s := s) (getElem?_updateWorker worker₀) worker owes
      (fun owes => owes.elim) (by simp)
  | place => exact of_hires (by simp) (.of_eq (post_workers _ _))
  | answerNothing | answer | giveUp => exact of_hires (by simp) (.of_eq (by rfl))

/-- A worker that stopped owes nothing. -/
theorem not_owes_of_stopped {compiler : σ} (hr : Reaches h { compiler } s)
    (worker : s.workers[w]? = some k) (stopped : k.actor.stopped = true) : ¬ k.Owes := by
  obtain ⟨es, run⟩ := hr
  refine run.invariant (I := fun s : Session σ => ∀ (w : Nat) (k : Worker),
    s.workers[w]? = some k → k.actor.stopped = true → ¬ k.Owes) ?_ (by simp) w k worker stopped
  intro s e t hs _ hstep w k worker stopped owes
  rcases owes_step hstep worker owes with ⟨-, live⟩ | ⟨-, k', worker', -, same, owes'⟩
  · cases live.symm.trans stopped
  · exact hs w k' worker' (same.trans stopped) owes'

/-- The outcome that a worker is about to store. -/
def outcome? (s : Session σ) (w : Nat) : Option Outcome :=
  match s.workers[w]?.bind (·.stage) with
  | some (.returned _ (.ok o)) => some o
  | _ => none

/-- A worker of a document is about to store an outcome. -/
def Delivers (s : Session σ) (uri : Uri) (w : Nat) (o : Outcome) : Prop :=
  s.staff[w]? = some uri ∧ s.outcome? w = some o

theorem delivers_iff {o : Outcome} : s.Delivers uri w o ↔
    ∃ k v, s.workers[w]? = some k ∧ k.document = uri ∧ k.stage = some (.returned v (.ok o)) := by
  constructor
  · rintro ⟨document, outcome⟩
    obtain ⟨k, worker, document⟩ : ∃ k, s.workers[w]? = some k ∧ k.document = uri := by
      simpa [staff] using document
    unfold outcome? at outcome
    split at outcome
    · next v o' hs =>
      cases outcome
      exact ⟨k, v, worker, document, by simpa [worker] using hs⟩
    · cases outcome
  · rintro ⟨k, v, worker, document, stage⟩
    exact ⟨by simp [staff, worker, document], by simp [outcome?, worker, stage]⟩

theorem inherits_receive (m : Message) {d : Document} (hd : d ∈ (s.receive h m).store.documents) :
    d.analysis = {} ∨ ∃ d' ∈ s.store.documents, d'.uri = d.uri ∧ d'.analysis = d.analysis := by
  cases m with
  | request id method params =>
    simp only [Session.receive, ask_store] at hd
    exact Or.inr ⟨d, hd, rfl, rfl⟩
  | notification method params =>
    simp only [Session.receive, notify] at hd
    split at hd
    · exact Or.inr ⟨d, hd, rfl, rfl⟩
    · exact (edited_heed _ s).inherits hd
  | response id => exact Or.inr ⟨d, hd, rfl, rfl⟩

/-- **An analysis comes from an outcome.** After a step, a document has no analysis, or the one that it
had, or that of an outcome which the step stored. -/
theorem analysis_step (hstep : step? h s e = some t) {d : Document} (hd : d ∈ t.store.documents) :
    d.analysis = {} ∨ (∃ d' ∈ s.store.documents, d'.uri = d.uri ∧ d'.analysis = d.analysis) ∨
      ∃ w o, e = .accept w ∧ s.Delivers d.uri w o ∧ o.analysis = d.analysis := by
  have of_eq : t.store = s.store → d.analysis = {} ∨
      (∃ d' ∈ s.store.documents, d'.uri = d.uri ∧ d'.analysis = d.analysis) ∨
      ∃ w o, e = .accept w ∧ s.Delivers d.uri w o ∧ o.analysis = d.analysis := fun he =>
    Or.inr (Or.inl ⟨d, he ▸ hd, rfl, rfl⟩)
  cases taken_of_step? hstep with
  | handle m => exact (inherits_receive m hd).imp_right Or.inl
  | shutdown => exact of_eq shutdown_store
  | tick | call | yield | announce => exact of_eq (by rfl)
  | receive | rest | start | miss | finish => exact of_eq (tell_store _)
  | stop => exact of_eq ((tell_store _).trans (tell_store _))
  | @accept w k v result worker stage =>
    obtain he | ⟨o, d₀, rfl, hd₀, -, he⟩ := Store.afterCall_cases s.store k.document result
    · exact of_eq he
    · refine Or.inr ?_
      have hd : d ∈ (s.store.update k.document fun _ =>
          { d₀ with analysis := o.analysis }).documents := he ▸ hd
      rcases Store.mem_updateFirst hd with hd | ⟨d', -, -, rfl⟩
      · exact Or.inl ⟨d, hd, rfl, rfl⟩
      · have name : d₀.uri = k.document := Store.uri_of_find? hd₀
        exact Or.inr ⟨w, o, rfl, delivers_iff.2 ⟨k, v, worker, name.symm, stage⟩, rfl⟩
  | place => exact of_eq (post_store _ _)
  | answerNothing | answer | giveUp => exact of_eq (by rfl)

/-! ### Compilations of a run -/

/-- The steps that do not open a document again. -/
def NotReopened (uri : Uri) (_ : Session σ) : Step → Prop
  | .handle (.notification method params) =>
    ∀ d, Notice.read? method params = some (.opened d) → d.uri ≠ uri
  | _ => True

/-- A worker started a compilation in the course of some steps, and stored no outcome since. -/
def Starts (es : List Step) (w : Nat) : Prop :=
  ∃ before after, es = before ++ .call w :: after ∧ .accept w ∉ after

/-- An analysis is the outcome of a compilation of a document that started and was stored in the course
of a run. -/
def Brings (h : Host σ) (uri : Uri) (s : Session σ) (es : List Step) (a : Analysis) : Prop :=
  ∃ before after w t o, es = before ++ .accept w :: after ∧
    Run (step? h) (NotReopened uri) s before t ∧ t.Delivers uri w o ∧ Starts before w ∧ o.analysis = a

theorem Starts.snoc (hs : Starts es w) (he : e ≠ .accept w) : Starts (es ++ [e]) w := by
  obtain ⟨before, after, rfl, ha⟩ := hs
  exact ⟨before, after ++ [e], by simp, by simpa [ha] using he.symm⟩

theorem Starts.mem (hs : Starts es w) : .call w ∈ es := by
  obtain ⟨before, after, rfl, -⟩ := hs
  simp

theorem starts_call (es : List Step) (w : Nat) : Starts (es ++ [.call w]) w := ⟨es, [], rfl, by simp⟩

theorem Brings.snoc {a : Analysis} (hb : Brings h uri s es a) (e : Step) :
    Brings h uri s (es ++ [e]) a := by
  obtain ⟨before, after, w, t, o, rfl, hb⟩ := hb
  exact ⟨before, after ++ [e], w, t, o, by simp, hb⟩

/-- **No analysis outlives the opening of its document.** Until the document is opened again, every
outcome that is stored in it is that of a compilation which started after the opening; and the analysis
that outcomes are held against is one of these, if there is any. -/
structure Renewed (h : Host σ) (uri : Uri) (s : Session σ) : Prop where
  stored : ∀ es t w o, Run (step? h) (NotReopened uri) s es t → t.Delivers uri w o →
    (t.store.accept? uri o.analysis).isSome → Starts es w
  kept : ∀ es t d, Run (step? h) (NotReopened uri) s es t → t.store.find? uri = some d →
    d.analysis.version = none ∨ Brings h uri s es d.analysis

/-- Nothing of a document is left from before: it has no analysis, and no worker owes it an outcome. -/
structure Unburdened (s : Session σ) (uri : Uri) : Prop where
  analysis : ∀ d, s.store.find? uri = some d → d.analysis.version = none
  workers : ∀ (w : Nat) (k : Worker), s.workers[w]? = some k → k.document = uri → ¬ k.Owes

/-- What a worker owes, and what a document has, goes back to compilations of a run. -/
structure Dated (h : Host σ) (uri : Uri) (s : Session σ) (es : List Step) (t : Session σ) : Prop where
  workers : ∀ (w : Nat) (k : Worker), t.workers[w]? = some k → k.document = uri → k.Owes →
    Starts es w
  analysis : ∀ d ∈ t.store.documents, d.uri = uri →
    d.analysis.version = none ∨ Brings h uri s es d.analysis

theorem Delivers.starts {o : Outcome} (hd : Dated h uri s es t) (delivers : t.Delivers uri w o) :
    Starts es w := by
  obtain ⟨k, v, worker, document, stage⟩ := delivers_iff.1 delivers
  exact hd.workers w k worker document (by simp [Worker.Owes, stage])

theorem Dated.step (hd : Dated h uri s es t) (run : Run (step? h) (NotReopened uri) s es t)
    (hstep : step? h t e = some u) : Dated h uri s (es ++ [e]) u where
  workers := by
    intro w k worker document owes
    rcases owes_step hstep worker owes with ⟨rfl, -⟩ | ⟨he, k', worker', document', -, owes'⟩
    · exact starts_call es w
    · exact (hd.workers w k' worker' (document'.trans document) owes').snoc he
  analysis := by
    intro d hmem name
    rcases analysis_step hstep hmem with fresh | ⟨d', hmem', name', same⟩ |
        ⟨w, o, rfl, delivers, same⟩
    · exact Or.inl (by rw [fresh])
    · rw [← same]
      exact (hd.analysis d' hmem' (name'.trans name)).imp_right (·.snoc e)
    · rw [name] at delivers
      exact Or.inr ⟨es, [], w, t, o, rfl, run, delivers, delivers.starts hd, same⟩

theorem Unburdened.dated (hs : s.Unburdened uri) (distinct : s.store.Distinct)
    (run : Run (step? h) (NotReopened uri) s es t) : Dated h uri s es t := by
  -- at the start nothing is owed, so that the history may be empty
  induction run with
  | nil =>
    refine ⟨fun w k worker document owes => absurd owes (hs.workers w k worker document), ?_⟩
    intro d hd name
    exact Or.inl (hs.analysis d (name ▸ distinct.find?_of_mem hd))
  | snoc run _ hstep ih => exact ih.step run hstep

theorem Unburdened.renewed (hs : s.Unburdened uri) (distinct : s.store.Distinct) :
    Renewed h uri s where
  stored := fun _ _ _ _ run delivers _ => delivers.starts (hs.dated distinct run)
  kept := fun _ _ _ run found =>
    (hs.dated distinct run).analysis _ (Store.mem_of_find? found) (Store.uri_of_find? found)

/-! ### Openings -/

theorem Renewed.unburdened (hs : Renewed h uri s) (robust : h.compiler.Robust)
    (opened : (s.store.find? uri).isSome) : s.Unburdened uri := by
  obtain ⟨d, hd⟩ := Option.isSome_iff_exists.1 opened
  have none : d.analysis.version = none := by
    rcases hs.kept [] s d (.nil s) hd with none | ⟨before, after, w, t, o, he, -⟩
    · exact none
    · simp at he
  -- then every outcome is stored
  have stored : ∀ a, (s.store.accept? uri a).isSome := by
    intro a
    obtain ⟨closed, -⟩ | ⟨d', hd', newer, -⟩ | ⟨_, _, _, he⟩ := Store.accept?_cases s.store uri a
    · cases hd.symm.trans closed
    · obtain rfl : d = d' := Option.some.inj (hd.symm.trans hd')
      rw [none] at newer
      cases ha : a.version <;> simp [ha, versionLt] at newer
    · simp [he]
  refine ⟨fun d' hd' => ?_, fun w k worker document owes => ?_⟩
  · obtain rfl : d = d' := Option.some.inj (hd.symm.trans hd')
    exact none
  · unfold Worker.Owes at owes
    split at owes
    · next job project stage =>
      -- the compiler may return now, and then the outcome can be stored
      let call := job.run h.compiler (compilerSettings h.files s.store project) project s.cache
        s.compiler
      obtain ⟨o, ho⟩ := robust job (compilerSettings h.files s.store project) project s.cache s.compiler
      let t : Session σ := { s with compiler := call.1, cache := call.2.1 }.updateWorker w
        fun k' => { k' with stage := some (.returned job.version call.2.2) }
      have returns : step? h s (.yield w) = some t := by
        simp [step?, yield?, worker, stage, owes, t, call]
      have delivers : t.Delivers uri w o := by
        refine delivers_iff.2 ⟨_, job.version, workers_updateWorker_self worker, document, ?_⟩
        simp [call, ho]
      have starts := hs.stored [.yield w] t w o (.single trivial returns) delivers (stored _)
      simpa using starts.mem
    · next v o stage =>
      have starts := hs.stored [] s w o (.nil s) (delivers_iff.2 ⟨k, v, worker, document, stage⟩)
        (stored _)
      simpa using starts.mem
    · exact owes

/-- **What survives an opening.** After a document was opened, all its analyses are from compilations
that started later, in every run until it is opened again, if nothing was left of it from before. With
a compiler that does not crash this is the only way. -/
theorem renewed_iff_unburdened {s₀ s₁ : Session σ} {d : TextDocument} {method : String} {params : Json}
    (opening : Notice.read? method params = some (.opened d))
    (opens : step? h s₀ (.handle (.notification method params)) = some s₁)
    (opened : (s₁.store.find? d.uri).isSome) :
    (s₁.Unburdened d.uri → Renewed h d.uri s₁) ∧
      (h.compiler.Robust → Renewed h d.uri s₁ → s₁.Unburdened d.uri) := by
  have distinct : s₁.store.Distinct := by
    simp only [step?, Session.receive, notify, opening, heed, Option.some.injEq] at opens
    exact opens ▸ distinct_openDocument h s₀ d
  exact ⟨fun hs => hs.renewed distinct, fun robust hs => hs.unburdened robust opened⟩

/-- Nothing is left of a document that was closed, once all its workers have stopped. -/
theorem unburdened_of_stopped {compiler : σ} {s₀ : Session σ} {d : TextDocument}
    (start : Reaches h { compiler } s₀) (closed : s₀.store.find? d.uri = none)
    (stopped : ∀ (w : Nat) (k : Worker), s₀.workers[w]? = some k → k.document = d.uri →
      k.actor.stopped = true) :
    (s₀.openDocument h d).Unburdened d.uri where
  analysis := by
    intro doc hd
    rcases (edited_openDocument d s₀).inherits (Store.mem_of_find? hd) with fresh | ⟨d', hmem, name, -⟩
    · rw [fresh]
    · exact absurd (name.trans (Store.uri_of_find? hd)) (Store.find?_eq_none.1 closed d' hmem)
  workers := by
    intro w k worker document
    rcases Hires.heed s₀ (.opened d) w k worker with old | none
    · exact not_owes_of_stopped start old (stopped w k old document)
    · exact not_owes_of_none none

/-- A document that is opened once more, without being closed, keeps its analysis. -/
theorem not_renewed_of_open {s : Session σ} {doc : Document} {d : TextDocument}
    (distinct : s.store.Distinct) (found : s.store.find? d.uri = some doc)
    (analysed : doc.analysis.version ≠ none) : ¬ Renewed h d.uri (s.openDocument h d) := by
  intro renewed
  have registered := distinct.register_of_find? h.files found d.language (some d.text)
  rcases renewed.kept [] _ _ (.nil _) (find?_openDocument registered) with none | brings
  · exact analysed none
  · obtain ⟨before, after, w, t, o, he, -⟩ := brings
    simp at he

end Session

/-! ### Two runs -/

namespace Sample

/-- The editor closes the document. -/
def closing : Json := .obj [("textDocument", .obj [("uri", .str uri.text)])]

/-- The document is opened with a version. -/
def opens (version : Int) (text : String) : Step :=
  .handle (.notification "textDocument/didOpen" (opening version text))

/-- The document is closed. -/
def closes : Step := .handle (.notification "textDocument/didClose" closing)

/-- The steps of a worker from its first order until the compiler returns. -/
def compiling (w : Nat) : List Step :=
  [.receive w, .tick 300, .expire w, .call w, .yield w]

end Sample

namespace Session

open Sample

/-- The case of a worker that stopped before the document was opened again. -/
theorem renewed_after_stop :
    ∃ s₀ s₁ : Session Unit, Reaches host { compiler := () } s₀ ∧
      step? host s₀ (opens 1 "int other;") = some s₁ ∧ Renewed host uri s₁ ∧ s₁.Unburdened uri := by
  let before : List Step := [opens 5 "int one;", closes, .receive 0, .receive 0]
  let s : Session Unit := { compiler := () }
  let s₀ : Session Unit := (before.foldlM (step? host) s).get (by decide +kernel)
  let s₁ : Session Unit := (step? host s₀ (opens 1 "int other;")).get (by decide +kernel)
  have h₀ : before.foldlM (step? host) s = some s₀ := (Option.some_get _).symm
  have h₁ : step? host s₀ (opens 1 "int other;") = some s₁ := (Option.some_get _).symm
  have reaches : Reaches host s s₀ := ⟨before, .of_foldlM (fun _ _ _ => trivial) h₀⟩
  let d : TextDocument := ⟨uri, Keyword.languageId, 1, "int other;"⟩
  have opened : s₁ = s₀.openDocument host d := (Option.some.inj h₁).symm
  have unburdened : s₁.Unburdened uri := by
    rw [opened]
    refine unburdened_of_stopped (d := d) reaches ?_ fun w k worker _ => ?_
    · exact Option.isNone_iff_eq_none.1 (by decide +kernel)
    · have all : s₀.workers.all (·.actor.stopped) = true := by decide +kernel
      exact List.all_eq_true.1 all k (List.mem_of_getElem? worker)
  obtain ⟨renewed, only⟩ := renewed_iff_unburdened (d := d) rfl h₁ (by decide +kernel)
  exact ⟨s₀, s₁, reaches, h₁, renewed unburdened, only robust (renewed unburdened)⟩

/-- A document is closed while the compiler is busy with its version 5, and opened with version 1. The
outcome of the call is stored before the worker learns that it is to stop, and then the document refuses
its own outcome. -/
theorem late_outcome_survives :
    ∃ (s₀ s₁ s₂ : Session Unit) (o : Outcome) (es : List Step),
      Reaches host { compiler := () } s₀ ∧ step? host s₀ (opens 1 "int other;") = some s₁ ∧
      ¬ Renewed host uri s₁ ∧ Run (step? host) (NotReopened uri) s₁ es s₂ ∧
      s₂.Delivers uri 1 o ∧ Starts es 1 ∧ o.analysis.version = some 1 ∧
      s₂.store.accept? uri o.analysis = none ∧
      (s₂.store.find? uri).map (fun d => (d.version, d.analysis.version)) =
        some (some 1, some 5) := by
  let before : List Step := opens 5 "int one;" :: compiling 0 ++ [closes]
  let after : List Step := .accept 0 :: compiling 1
  let s : Session Unit := { compiler := () }
  let s₀ : Session Unit := (before.foldlM (step? host) s).get (by decide +kernel)
  let s₁ : Session Unit := (step? host s₀ (opens 1 "int other;")).get (by decide +kernel)
  let s₂ : Session Unit := (after.foldlM (step? host) s₁).get (by decide +kernel)
  have h₀ : before.foldlM (step? host) s = some s₀ := (Option.some_get _).symm
  have h₁ : step? host s₀ (opens 1 "int other;") = some s₁ := (Option.some_get _).symm
  have h₂ : after.foldlM (step? host) s₁ = some s₂ := (Option.some_get _).symm
  have run : Run (step? host) (NotReopened uri) s₁ after s₂ := by
    refine .of_foldlM (fun s e he => ?_) h₂
    simp only [after, compiling, List.mem_cons, List.not_mem_nil, or_false] at he
    rcases he with rfl | rfl | rfl | rfl | rfl | rfl <;> trivial
  have early : (s₁.outcome? 0).map (fun o => (s₁.store.accept? uri o.analysis).isSome) =
      some true := by decide +kernel
  have late : (s₂.outcome? 1).map (fun o => (o.analysis.version,
      (s₂.store.accept? uri o.analysis).isNone)) = some (some 1, true) := by decide +kernel
  obtain ⟨old, hold, stored⟩ := Option.map_eq_some_iff.1 early
  obtain ⟨o, ho, refused⟩ := Option.map_eq_some_iff.1 late
  obtain ⟨version, refused⟩ := Prod.mk.inj refused
  refine ⟨s₀, s₁, s₂, o, after, ⟨before, .of_foldlM (fun _ _ _ => trivial) h₀⟩, h₁, fun renewed => ?_,
    run, ⟨by decide +kernel, ho⟩, ?_, version, Option.isNone_iff_eq_none.1 refused, by decide +kernel⟩
  · have starts := renewed.stored [] s₁ 0 old (.nil s₁) ⟨by decide +kernel, hold⟩ stored
    simpa using starts.mem
  · exact ⟨[.accept 0, .receive 1, .tick 300, .expire 1], [.yield 1], rfl, by simp⟩

end Session

end LanguageServer
