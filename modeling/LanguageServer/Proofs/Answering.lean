import LanguageServer.Proofs.Reopening
import LanguageServer.Proofs.Waiting

/-!
# Every request is answered once

A request is answered at once, or it becomes an inquiry, which waits until it is concluded. The docket
of a session is what was answered so far and what waits.

* `Session.answers`, `Session.waiting`: the docket; `Step.request?`: the request that a step brings;
* `Session.SameDocket`, `Session.Docketed`: what a step can do to the docket;
* `Session.Accounted`: every request that arrived was answered or waits, and those that wait are pending;
* `Session.Tidy`: who needs no waiters holds none, and orders are on their way to open workers only;
* `Session.Quiet`, `Session.answered_exactly_once`: nobody waits when nothing is left to do.
-/

namespace LanguageServer

/-- The request that a step brings. -/
def Step.request? : Step → Option MessageId
  | .handle (.request id _ _) => some id
  | _ => none

namespace Session

variable {σ : Type} {s t u : Session σ} {h : Host σ} {w i : Nat} {k : Worker} {e : Step}

/-- The requests that were answered, in order. -/
def answers (s : Session σ) : List MessageId := s.sent.filterMap Outgoing.answered?

/-- The requests that wait for an answer, in the order of their arrival. -/
def waiting (s : Session σ) : List MessageId :=
  (s.inquiries.filter (·.wait != .answered)).map (·.id)

theorem answers_send (s : Session σ) (m : Outgoing) :
    (s.send m).answers = s.answers ++ m.answered?.toList := by
  cases hm : m.answered? <;> simp [answers, send, hm]

/-- An inquiry stands between others, which stay as they are when it changes. -/
theorem inquiries_split {q : Inquiry} (hq : s.inquiries[i]? = some q) :
    ∃ before after, s.inquiries = before ++ q :: after ∧
      ∀ f, (s.updateInquiry i f).inquiries = before ++ f q :: after := by
  obtain ⟨hi, rfl⟩ := List.getElem?_eq_some_iff.1 hq
  refine ⟨s.inquiries.take i, s.inquiries.drop (i + 1), by simp, fun f => ?_⟩
  exact List.modify_eq_take_cons_drop hi

/-! ### What leaves the docket as it is -/

/-- Sessions in which the same requests were answered, are pending, and wait. -/
structure SameDocket (s t : Session σ) : Prop where
  answers : t.answers = s.answers
  pending : t.pending = s.pending
  waiting : t.waiting = s.waiting

namespace SameDocket

theorem of_eq (sent : t.sent = s.sent) (pending : t.pending = s.pending)
    (inquiries : t.inquiries = s.inquiries) : s.SameDocket t :=
  ⟨by rw [Session.answers, sent, Session.answers], pending,
    by rw [Session.waiting, inquiries, Session.waiting]⟩

theorem trans (first : s.SameDocket t) (second : t.SameDocket u) : s.SameDocket u :=
  ⟨second.answers.trans first.answers, second.pending.trans first.pending,
    second.waiting.trans first.waiting⟩

/-- An inquiry changes, and still waits if it did. -/
theorem updateInquiry {f : Inquiry → Inquiry}
    (hf : ∀ q, s.inquiries[i]? = some q →
      (f q).id = q.id ∧ ((f q).wait = .answered ↔ q.wait = .answered)) :
    s.SameDocket (s.updateInquiry i f) := by
  refine ⟨rfl, rfl, ?_⟩
  cases hq : s.inquiries[i]? with
  | none =>
    have beyond : s.inquiries.length ≤ i := List.getElem?_eq_none_iff.1 hq
    simp only [Session.waiting, Session.updateInquiry, List.modify_eq_self beyond]
  | some q =>
    obtain ⟨hid, hwait⟩ := hf q hq
    obtain ⟨before, after, old, new⟩ := inquiries_split hq
    have same : ((f q).wait != .answered) = (q.wait != .answered) := by
      rw [Bool.eq_iff_iff, bne_iff_ne, bne_iff_ne, ne_eq, ne_eq, hwait]
    rw [Session.waiting, new, Session.waiting, old]
    simp only [List.filter_append, List.filter_cons, same]
    split <;> simp [hid]

theorem tell (s : Session σ) (vs : List (Nat × Verdict)) : s.SameDocket (s.tell vs) := by
  unfold Session.tell
  refine foldl_preserves (P := fun t : Session σ => s.SameDocket t) (fun t p _ ht => ?_)
    (.of_eq rfl rfl rfl)
  refine ht.trans (updateInquiry fun q _ => ?_)
  split
  · next placed => exact ⟨rfl, by simp [placed]⟩
  · exact ⟨rfl, Iff.rfl⟩

theorem post (s : Session σ) (w : Nat) (order : Order Nat) : s.SameDocket (s.post w order) := by
  unfold Session.post
  split
  · exact .of_eq rfl rfl rfl
  · exact tell s _

theorem scheduler (s : Session σ) (uri : Uri) : s.SameDocket (s.scheduler uri).1 := by
  unfold Session.scheduler
  split <;> exact .of_eq rfl rfl rfl

theorem requestCompilation (s : Session σ) (uri : Uri) : s.SameDocket (s.requestCompilation uri) :=
  (scheduler s uri).trans (post _ _ _)

theorem recompile (s : Session σ) (uri : Uri) : s.SameDocket (s.recompile uri) :=
  (of_eq (by rfl) (by rfl) (by rfl)).trans (requestCompilation { s with cache := s.cache.erase uri } uri)

theorem stopScheduler (s : Session σ) (uri : Uri) : s.SameDocket (s.stopScheduler uri) := by
  unfold Session.stopScheduler
  split
  · exact .of_eq rfl rfl rfl
  · exact (of_eq (by rfl) (by rfl) (by rfl)).trans (post _ _ _)

theorem shutdown (s : Session σ) : s.SameDocket s.shutdown :=
  foldl_preserves (P := fun t : Session σ => s.SameDocket t) (fun t _ _ ht => ht.trans (post t _ _))
    (.of_eq rfl rfl rfl)

/-- A message that answers no request is sent. -/
theorem send (s : Session σ) {m : Outgoing} (hm : m.answered? = none) : s.SameDocket (s.send m) :=
  ⟨by simp [answers_send, hm], rfl, rfl⟩

theorem publish (s : Session σ) (uri : Uri) (shown : List Problem) (version : Option Int) :
    s.SameDocket (s.publish uri shown version) := by
  unfold Session.publish
  split
  · exact .of_eq rfl rfl rfl
  · next m hm =>
    refine send s ?_
    unfold Outgoing.publish? at hm
    split at hm <;> cases hm
    rfl

theorem closeDocument (s : Session σ) (uri : Uri) : s.SameDocket (s.closeDocument uri) :=
  ((of_eq (by rfl) (by rfl) (by rfl)).trans (stopScheduler { s with store := s.store.remove uri } uri)).trans
    (publish _ uri [] none)

theorem foldl {α : Type} {f : Session σ → α → Session σ} (hf : ∀ (s : Session σ) x, s.SameDocket (f s x))
    (xs : List α) (s : Session σ) : s.SameDocket (xs.foldl f s) :=
  foldl_preserves (P := fun t : Session σ => s.SameDocket t) (fun t x _ ht => ht.trans (hf t x))
    (.of_eq rfl rfl rfl)

theorem openDocument (s : Session σ) (d : TextDocument) : s.SameDocket (s.openDocument h d) := by
  unfold Session.openDocument
  split
  · exact (of_eq (by rfl) (by rfl) (by rfl)).trans (requestCompilation _ _)
  · exact .of_eq rfl rfl rfl

theorem updateDocument (s : Session σ) (uri : Uri) (f : Document → Document) :
    s.SameDocket (s.updateDocument h uri f) := by
  unfold Session.updateDocument
  split
  · exact (of_eq (by rfl) (by rfl) (by rfl)).trans (recompile _ _)
  · exact .of_eq rfl rfl rfl

/-- **No report of the editor touches the docket.** In particular a request that is taken back waits
until it is told so. -/
theorem heed (s : Session σ) (n : Notice) : s.SameDocket (s.heed h n) := by
  cases n with
  | opened d => exact openDocument s d
  | changed c => exact updateDocument s c.uri _
  | saved c => exact updateDocument s c.uri _
  | closed uri => exact closeDocument s uri
  | notebookOpened opening =>
    simp only [Session.heed, openNotebook]
    split
    · exact (of_eq (by rfl) (by rfl) (by rfl)).trans (foldl requestCompilation _ _)
    · exact .of_eq rfl rfl rfl
  | notebookChanged change =>
    have closed : s.SameDocket (((change.splice.map (·.closed)).getD []).foldl Session.closeDocument
        { s with store := (s.store.changeNotebook h.files change).1 }) :=
      (of_eq (by rfl) (by rfl) (by rfl)).trans (foldl closeDocument _ _)
    simp only [Session.heed, changeNotebook]
    split
    · exact closed.trans (foldl recompile _ _)
    · exact closed
  | notebookSaved uri => exact .of_eq rfl rfl rfl
  | notebookClosed closing =>
    exact (foldl closeDocument closing.cells s).trans (.of_eq rfl rfl rfl)
  | configured settings => exact .of_eq rfl rfl rfl
  | cancelled id =>
    simp only [Session.heed, cancel]
    split
    · exact .of_eq rfl rfl rfl
    · exact updateInquiry fun _ _ => ⟨rfl, Iff.rfl⟩

theorem act (s : Session σ) (w : Nat) (k : Worker) (stage : Option Stage)
    (r : Actor Nat × List (Nat × Verdict)) : s.SameDocket (s.act w k stage r) :=
  (of_eq (by rfl) (by rfl) (by rfl)).trans (tell (s.updateWorker w _) r.2)

theorem discardMail (s : Session σ) (w : Nat) : s.SameDocket (s.discardMail w) :=
  (of_eq (by rfl) (by rfl) (by rfl)).trans (tell { s with mail := s.mail.filter (·.1 != w) } _)

end SameDocket

/-! ### What a step does to the docket -/

/-- All that a step can do to the docket, with the request that it brings: nothing; the request is
answered at once; it waits from then on, and is pending; or one that waited is answered. -/
inductive Docketed (s t : Session σ) : Option MessageId → Prop
  | same (docket : s.SameDocket t) : Docketed s t none
  | reply {id : MessageId} (answers : t.answers = s.answers ++ [id]) (pending : t.pending = s.pending)
      (waiting : t.waiting = s.waiting) : Docketed s t (some id)
  | entry {id : MessageId} {i : Nat} (answers : t.answers = s.answers)
      (pending : t.pending = s.pending.filter (·.1 != id) ++ [(id, i)])
      (waiting : t.waiting = s.waiting ++ [id]) : Docketed s t (some id)
  | conclusion {id : MessageId} {before after : List MessageId}
      (answers : t.answers = s.answers ++ [id]) (pending : t.pending = s.pending.filter (·.1 != id))
      (waited : s.waiting = before ++ id :: after) (waiting : t.waiting = before ++ after) :
      Docketed s t none

namespace Docketed

/-- A request is answered at once, after something that leaves the docket as it is. -/
theorem send {id : MessageId} {m : Outgoing} (same : s.SameDocket t) (hm : m.answered? = some id) :
    Docketed s (t.send m) (some id) :=
  .reply (by rw [answers_send, same.answers, hm]; rfl) same.pending same.waiting

theorem inquire (s : Session σ) (id : MessageId) (question : DocumentRequest) :
    Docketed s (s.inquire id question) (some id) := by
  unfold Session.inquire
  split
  · exact send (.of_eq rfl rfl rfl) rfl
  · have same := SameDocket.scheduler s question.document
    refine .entry (i := s.inquiries.length) same.answers ?_ ?_
    · simp only [same.pending, scheduler_inquiries]
    · rw [← same.waiting]
      simp [Session.waiting]

theorem ask (s : Session σ) (id : MessageId) (method : String) (params : Json) :
    Docketed s (s.ask id method params) (some id) := by
  unfold Session.ask
  split
  · exact send ((SameDocket.of_eq (by rfl) (by rfl) (by rfl)).trans (.shutdown _)) rfl
  · split
    · exact send (.of_eq rfl rfl rfl) rfl
    · split
      · exact send (.of_eq rfl rfl rfl) rfl
      · exact inquire s id _

theorem receive (s : Session σ) (m : Message) :
    Docketed s (s.receive h m) (Step.handle m).request? := by
  cases m with
  | request id method params => exact ask s id method params
  | notification method params =>
    simp only [Session.receive, notify]
    split
    · exact .same (.of_eq rfl rfl rfl)
    · exact .same (.heed s _)
  | response id => exact .same (.of_eq rfl rfl rfl)

/-- An inquiry that waits is concluded. -/
theorem conclude {q : Inquiry} (hq : s.inquiries[i]? = some q) (waits : q.wait ≠ .answered)
    {m : Outgoing} (hm : m.answered? = some q.id) : Docketed s (s.conclude i q m) none := by
  obtain ⟨before, after, old, new⟩ := inquiries_split hq
  have waited : s.waiting = (before.filter (·.wait != .answered)).map (·.id) ++
      q.id :: (after.filter (·.wait != .answered)).map (·.id) := by simp [waiting, old, waits]
  have left : (s.conclude i q m).waiting = (before.filter (·.wait != .answered)).map (·.id) ++
      (after.filter (·.wait != .answered)).map (·.id) := by
    have changed := new fun q => { q with wait := .answered }
    simp only [updateInquiry] at changed
    simp [waiting, Session.conclude, Session.send, updateInquiry, changed]
  refine .conclusion ?_ rfl waited left
  rw [Session.conclude, answers_send, hm]
  rfl

end Docketed

end Session

/-! ### Workers that need nobody -/

/-- An actor that stopped or is at rest holds nobody. -/
def Actor.Dismissed {ω : Type} (a : Actor ω) : Prop :=
  a.stopped = true ∨ a.phase = .idle → a.waiters = []

namespace Actor

variable {ω : Type} {a : Actor ω}

theorem dismissed_rest (a : Actor ω) : a.rest.1.Dismissed := fun _ => rfl

theorem Dismissed.receive (ha : a.Dismissed) (now window : Nat) (order : Order ω) :
    (a.receive now window order).1.Dismissed := by
  cases live : a.stopped with
  | true =>
    rw [receive_of_stopped live]
    exact ha
  | false =>
    obtain ⟨rfl, he⟩ | ⟨v, x, rfl, -, he⟩ | ⟨v, x, rfl, -, -, he⟩ | ⟨v, x, rfl, -, busy, he⟩ :=
      receive_cases now window order live <;> rw [he]
    · exact fun _ => rfl
    · rintro (stopped | idle)
      · exact absurd stopped (by simp [live])
      · exact absurd idle (want_phase_ne_idle _ _)
    · exact dismissed_rest _
    · rintro (stopped | idle)
      · exact absurd stopped (by simp [live])
      · exact absurd idle busy

theorem Dismissed.start (ha : a.Dismissed) :
    ({ a with phase := .compiling a.desired } : Actor ω).Dismissed := by
  rintro (stopped | idle)
  · exact ha (Or.inl stopped)
  · cases idle

theorem Dismissed.finish (ha : a.Dismissed) (now window : Nat) (result : Option Int) :
    (a.finish now window result).1.Dismissed := by
  obtain ⟨-, he⟩ | ⟨-, he⟩ := finish_cases a now window result <;> rw [he]
  · exact dismissed_rest _
  · rintro (stopped | idle)
    · exact ha (Or.inl stopped)
    · cases idle

end Actor

/-- A worker holds nobody whom it need not hold, and the messages that it is about to send answer no
requests. -/
structure Worker.Tidy (k : Worker) : Prop where
  dismissed : k.actor.Dismissed
  reports : ∀ v rest, k.stage = some (.sending v rest) → ∀ m ∈ rest, m.answered? = none

/-- What a compilation publishes answers no requests. -/
theorem answered?_afterCall {store : Store} {uri : Uri} {result : Except Crash Outcome} {m : Outgoing}
    (hm : m ∈ (afterCall store uri result).2) : m.answered? = none := by
  unfold afterCall at hm
  split at hm
  · rw [List.mem_singleton.1 hm]
    rfl
  · split at hm
    · cases hm
    · obtain ⟨file, -, published⟩ := List.mem_filterMap.1 hm
      unfold Outgoing.publish? at published
      split at published <;> cases published
      rfl

namespace Session

variable {σ : Type} {s t u : Session σ} {h : Host σ} {w i : Nat} {k : Worker} {e : Step}

/-- All workers are tidy, and every order is on its way to a worker that takes it. -/
structure Tidy (s : Session σ) : Prop where
  workers : ∀ (w : Nat) (k : Worker), s.workers[w]? = some k → k.Tidy
  mail : ∀ p ∈ s.mail, s.isOpen p.1 = true

theorem tidy_empty (compiler : σ) : Tidy { compiler } := ⟨by simp, by simp⟩

namespace Tidy

theorem frame (hs : Tidy s) (workers : t.workers = s.workers) (mail : ∀ p ∈ t.mail, p ∈ s.mail) :
    Tidy t := by
  refine ⟨fun w k hk => hs.workers w k (workers ▸ hk), fun p hp => ?_⟩
  rw [isOpen, workers]
  exact hs.mail p (mail p hp)

theorem tell (hs : Tidy s) (vs : List (Nat × Verdict)) : Tidy (s.tell vs) :=
  hs.frame (tell_workers vs) fun p hp => by rwa [tell_mail] at hp

theorem post (hs : Tidy s) (w : Nat) (order : Order Nat) : Tidy (s.post w order) := by
  unfold Session.post
  split
  · next opened =>
    refine ⟨hs.workers, fun p hp => ?_⟩
    rcases List.mem_append.1 hp with hp | hp
    · exact hs.mail p hp
    · rw [List.mem_singleton.1 hp]
      exact opened
  · exact hs.tell _

theorem scheduler (hs : Tidy s) (uri : Uri) : Tidy (s.scheduler uri).1 := by
  unfold Session.scheduler
  split
  · exact hs
  · constructor
    case workers =>
      intro w k hk
      rcases getElem?_concat_cases hk with hk | ⟨-, rfl⟩
      · exact hs.workers w k hk
      · exact ⟨fun _ => rfl, fun v rest hr => by cases hr⟩
    case mail =>
      intro p hp
      obtain ⟨k, hk, live⟩ := isOpen_iff.1 (hs.mail p hp)
      refine isOpen_iff.2 ⟨k, ?_, live⟩
      simp only
      rw [List.getElem?_append_left (List.getElem?_eq_some_iff.1 hk).1, hk]

theorem requestCompilation (hs : Tidy s) (uri : Uri) : Tidy (s.requestCompilation uri) :=
  (hs.scheduler uri).post _ _

theorem stopScheduler (hs : Tidy s) (uri : Uri) : Tidy (s.stopScheduler uri) := by
  unfold Session.stopScheduler
  split
  · exact hs
  · have fewer : Tidy { s with schedulers := s.schedulers.filter (·.1 != uri) } :=
      hs.frame rfl fun _ hp => hp
    exact fewer.post _ _

theorem shutdown (hs : Tidy s) : Tidy s.shutdown :=
  foldl_preserves (P := Tidy) (fun _ _ _ ht => ht.post _ _) (hs.frame rfl fun _ hp => hp)

theorem inquire (hs : Tidy s) (id : MessageId) (question : DocumentRequest) :
    Tidy (s.inquire id question) := by
  unfold Session.inquire
  split
  · exact hs.frame rfl fun _ hp => hp
  · exact (hs.scheduler _).frame rfl fun _ hp => hp

theorem receive (hs : Tidy s) (m : Message) : Tidy (s.receive h m) :=
  receive_induction (P := Tidy)
    (fun _ _ same hs => hs.frame same.workers fun _ hp => same.mail ▸ hp) m
    (fun _ u hs => hs.requestCompilation u) (fun _ u hs => hs.stopScheduler u)
    (fun _ _ hs => hs.frame rfl fun _ hp => hp) (fun _ hs => hs.shutdown)
    (fun _ id question hs => hs.inquire id question) hs

/-- A worker changes and stays tidy. It stops only if no mail is on its way to it. -/
theorem updateWorker (hs : Tidy s) {f : Worker → Worker} (worker : s.workers[w]? = some k)
    (tidy : (f k).Tidy)
    (live : (∃ p ∈ s.mail, p.1 = w) → k.actor.stopped = false → (f k).actor.stopped = false) :
    Tidy (s.updateWorker w f) := by
  constructor
  case workers =>
    intro v k' hk'
    rw [getElem?_updateWorker worker] at hk'
    split at hk'
    · cases hk'
      exact tidy
    · exact hs.workers v k' hk'
  case mail =>
    intro p hp
    obtain ⟨k', hk', live'⟩ := isOpen_iff.1 (hs.mail p hp)
    rw [isOpen_iff, getElem?_updateWorker worker]
    split
    · next hw =>
      rw [hw, worker] at hk'
      cases hk'
      exact ⟨f k, rfl, live ⟨p, hp, hw⟩ live'⟩
    · exact ⟨k', hk', live'⟩

/-- The actor of a worker takes a step, and the worker has no messages to send. -/
theorem act (hs : Tidy s) (worker : s.workers[w]? = some k) {stage : Option Stage}
    {r : Actor Nat × List (Nat × Verdict)} (dismissed : r.1.Dismissed)
    (reports : ∀ v rest, stage = some (.sending v rest) → ∀ m ∈ rest, m.answered? = none)
    (live : (∃ p ∈ s.mail, p.1 = w) → k.actor.stopped = false → r.1.stopped = false) :
    Tidy (s.act w k stage r) :=
  (hs.updateWorker (f := fun _ => { k with actor := r.1, stage }) worker
    ⟨dismissed, reports⟩ live).tell r.2

/-- A compilation goes on, and has no answers to send. -/
theorem restage (hs : Tidy s) (worker : s.workers[w]? = some k) {stage : Option Stage}
    (reports : ∀ v rest, stage = some (.sending v rest) → ∀ m ∈ rest, m.answered? = none) :
    Tidy (s.updateWorker w fun k => { k with stage }) :=
  hs.updateWorker worker ⟨(hs.workers w k worker).dismissed, reports⟩ fun _ live => live

theorem step (hs : Tidy s) (hstep : step? h s e = some t) : Tidy t := by
  have at_ : ∀ {w : Nat} {k : Worker}, s.workers[w]? = some k → k.Tidy := fun worker =>
    hs.workers _ _ worker
  cases taken_of_step? hstep with
  | handle m => exact hs.receive m
  | shutdown => exact hs.shutdown
  | tick time => exact hs.frame rfl fun _ hp => hp
  | @receive w k order mail worker next free goes =>
    have less : Tidy { s with mail } := hs.frame rfl (mem_of_takeOrder? next).2
    exact less.act (s := { s with mail }) worker ((at_ worker).dismissed.receive _ _ _)
      (at_ worker).reports fun _ _ => goes
  | @stop w k order mail worker next free stops =>
    -- it can stop because the rest of its mail is thrown away
    let kept : Session σ := { s with mail := mail.filter (·.1 != w) }
    have less : Tidy kept :=
      hs.frame rfl fun p hp => (mem_of_takeOrder? next).2 p (List.mem_filter.1 hp).1
    have stopped : Tidy (kept.act w k (Stage.orphaned k.stage)
        (k.actor.receive s.now h.window order)) :=
      less.act worker ((at_ worker).dismissed.receive s.now h.window order)
        (fun v rest hr => by unfold Stage.orphaned at hr; split at hr <;> cases hr)
        (fun ⟨p, hp, hw⟩ => by simp [kept, hw] at hp)
    refine stopped.frame (by simp [discardMail, Session.act, Session.updateWorker, kept]) fun p hp => ?_
    simpa [discardMail, Session.act, Session.updateWorker, kept] using hp
  | rest worker phase elapsed live done =>
    exact hs.act worker (Actor.dismissed_rest _) (by simp) fun _ live => live
  | start worker phase elapsed live due =>
    exact hs.act worker (at_ worker).dismissed.start (by simp) fun _ live => live
  | miss worker =>
    exact hs.act worker ((at_ worker).dismissed.finish _ _ _) (by simp) fun _ live => by simpa using live
  | call worker => exact hs.restage worker (by simp)
  | @yield w k job project compiler cache result worker stage run =>
    have same : Tidy { s with compiler, cache } := hs.frame rfl fun _ hp => hp
    exact same.restage worker (by split <;> simp)
  | @accept w k version result worker stage =>
    have same : Tidy { s with store := (afterCall s.store k.document result).1 } :=
      hs.frame rfl fun _ hp => hp
    refine same.restage worker fun v rest hr m hm => ?_
    cases hr
    exact answered?_afterCall hm
  | announce worker stage =>
    have reports := (at_ worker).reports _ _ stage
    refine (hs.restage worker fun v rest hr m hm => ?_).frame rfl fun _ hp => hp
    cases hr
    exact reports m (List.mem_cons_of_mem _ hm)
  | finish worker =>
    exact hs.act worker ((at_ worker).dismissed.finish _ _ _) (by simp) fun _ live => by simpa using live
  | @place i q inquiry wait =>
    have placed : Tidy (s.updateInquiry i fun q => { q with wait := .placed }) :=
      hs.frame rfl fun _ hp => hp
    exact placed.post _ _
  | answerNothing | answer | giveUp => exact hs.frame rfl fun _ hp => hp

end Tidy

/-! ### Runs -/

/-- **A step answers a request at once, lets it wait, concludes one that waits, or leaves the docket as
it is.** -/
theorem docketed_step (hs : Tidy s) (hstep : step? h s e = some t) : Docketed s t e.request? := by
  cases taken_of_step? hstep with
  | handle m => exact .receive s m
  | shutdown => exact .same (.shutdown s)
  | tick => exact .same (.of_eq rfl rfl rfl)
  | receive => exact .same ((SameDocket.of_eq (by rfl) (by rfl) (by rfl)).trans (.act _ _ _ _ _))
  | stop =>
    exact .same (((SameDocket.of_eq (by rfl) (by rfl) (by rfl)).trans (.act _ _ _ _ _)).trans
      (.discardMail _ _))
  | rest | start | miss | finish => exact .same (.act _ _ _ _ _)
  | call | yield | accept => exact .same (.of_eq (by rfl) (by rfl) (by rfl))
  | announce worker stage =>
    have silent := (hs.workers _ _ worker).reports _ _ stage _ List.mem_cons_self
    exact .same ((SameDocket.of_eq (by rfl) (by rfl) (by rfl)).trans (.send _ silent))
  | @place i q inquiry wait =>
    refine .same ((SameDocket.updateInquiry fun q' hq' => ?_).trans (.post _ _ _))
    obtain rfl : q = q' := Option.some.inj (inquiry.symm.trans hq')
    exact ⟨rfl, by simp [wait]⟩
  | answerNothing inquiry wait => exact .conclude inquiry (by simp [wait]) rfl
  | answer inquiry wait => exact .conclude inquiry (by simp [wait]) rfl
  | giveUp inquiry cancelled wait => exact .conclude inquiry wait rfl

/-- Every request of a list was answered once or waits, and if they are all different, those that wait
are the pending ones. -/
structure Accounted (requests : List MessageId) (s : Session σ) : Prop where
  all : (s.answers ++ s.waiting).Perm requests
  pending : requests.Nodup → s.pending.map (·.1) = s.waiting

theorem Accounted.step {requests : List MessageId} {request : Option MessageId}
    (ha : Accounted requests s) (docketed : Docketed s t request) :
    Accounted (requests ++ request.toList) t := by
  have pending_filter : ∀ id, (s.pending.filter (·.1 != id)).map (·.1) =
      (s.pending.map (·.1)).filter (· != id) := fun id => by rw [List.filter_map]; rfl
  cases docketed with
  | same docket =>
    obtain ⟨answers, pending, waiting⟩ := docket
    rw [Option.toList_none, List.append_nil]
    exact ⟨by rw [answers, waiting]; exact ha.all, by rw [pending, waiting]; exact ha.pending⟩
  | @reply id answers pending waiting =>
    refine ⟨?_, fun distinct => ?_⟩
    · rw [answers, waiting, Option.toList_some, List.append_assoc]
      exact (List.perm_append_comm.append_left s.answers).trans
        (by rw [← List.append_assoc]; exact ha.all.append_right [id])
    · rw [pending, waiting]
      exact ha.pending (List.nodup_append.1 distinct).1
  | @entry id i answers pending waiting =>
    refine ⟨?_, fun distinct => ?_⟩
    · rw [answers, waiting, ← List.append_assoc]
      exact ha.all.append_right [id]
    · -- a new request has no entry that it could take the place of
      obtain ⟨old, -, apart⟩ := List.nodup_append.1 distinct
      have new : id ∉ s.waiting := fun hid =>
        apart id (ha.all.subset (List.mem_append_right _ hid)) id (by simp) rfl
      have kept : s.waiting.filter (· != id) = s.waiting :=
        List.filter_eq_self.2 fun x hx => bne_iff_ne.2 (ne_of_mem_of_not_mem hx new)
      rw [pending, waiting, List.map_append, pending_filter, ha.pending old, kept]
      rfl
  | @conclusion id before after answers pending waited waiting =>
    rw [Option.toList_none, List.append_nil]
    refine ⟨?_, fun distinct => ?_⟩
    · have all := ha.all
      rw [waited] at all
      rw [answers, waiting, List.append_assoc, List.singleton_append]
      exact (List.perm_middle.symm.append_left s.answers).trans all
    · have once : (before ++ id :: after).Nodup := by
        rw [← waited]
        exact (List.nodup_append.1 (ha.all.nodup_iff.2 distinct)).2.1
      have others : id ∉ before ++ after := (List.nodup_middle.1 once).notMem
      rw [pending, waiting, pending_filter, ha.pending distinct, waited, List.filter_append,
        List.filter_cons_of_neg (by simp), ← List.filter_append]
      exact List.filter_eq_self.2 fun x hx => bne_iff_ne.2 (ne_of_mem_of_not_mem hx others)

/-- All along a run, every request that arrived was answered once or waits. -/
theorem accounted_of_run {compiler : σ} {es : List Step}
    (run : Run (step? h) (fun _ _ => True) { compiler } es s) :
    Tidy s ∧ Accounted (es.filterMap Step.request?) s := by
  induction run with
  | nil => exact ⟨tidy_empty compiler, .refl _, fun _ => rfl⟩
  | @snoc t u es e run _ last ih =>
    obtain ⟨tidy, accounted⟩ := ih
    refine ⟨tidy.step last, ?_⟩
    rw [List.filterMap_append]
    have after := accounted.step (docketed_step tidy last)
    cases he : e.request? <;> simpa [he] using after

/-! ### When nothing is left to do -/

/-- Nobody who asked can take a step, and every worker has stopped or is at rest with no order on its
way. -/
structure Quiet (h : Host σ) (s : Session σ) : Prop where
  inquiries : ∀ i, step? h s (.place i) = none ∧ step? h s (.answer i) = none ∧
    step? h s (.giveUp i) = none
  workers : ∀ (w : Nat) (k : Worker), s.workers[w]? = some k →
    k.actor.stopped = true ∨ k.actor.phase = .idle ∧ ∀ order, (w, order) ∉ s.mail

/-- **Nobody waits in a quiet session.** -/
theorem Quiet.waiting_eq_nil (quiet : Quiet h s) (tidy : Tidy s) (attentive : Attentive s) :
    s.waiting = [] := by
  rw [waiting, List.map_eq_nil_iff, List.filter_eq_nil_iff]
  intro q hq
  obtain ⟨i, hi⟩ := List.mem_iff_getElem?.1 hq
  obtain ⟨place, answer, -⟩ := quiet.inquiries i
  cases wait : q.wait with
  | unplaced => simp [step?, place?, hi, wait] at place
  | told verdict => cases verdict <;> simp [step?, answer?, hi, wait] at answer
  | answered => simp
  | placed =>
    -- the order is in no mail, and no worker holds anybody
    exfalso
    rcases attentive i q.worker ⟨q, hi, wait, rfl⟩ with ⟨v, mail⟩ | ⟨k, worker, held⟩
    · obtain ⟨k, worker, live⟩ := isOpen_iff.1 (tidy.mail _ mail)
      rcases quiet.workers _ k worker with stopped | ⟨-, empty⟩
      · simp [live] at stopped
      · exact empty _ mail
    · have none := (tidy.workers _ k worker).dismissed
        ((quiet.workers _ k worker).imp_right And.left)
      simp [none] at held

/-- A session is quiet if everybody is answered and its workers are. -/
theorem quiet_of_answered (answered : ∀ q ∈ s.inquiries, q.wait = .answered)
    (workers : ∀ (w : Nat) (k : Worker), s.workers[w]? = some k →
      k.actor.stopped = true ∨ k.actor.phase = .idle ∧ ∀ order, (w, order) ∉ s.mail) :
    Quiet h s := by
  refine ⟨fun i => ?_, workers⟩
  cases hi : s.inquiries[i]? with
  | none => simp [step?, place?, answer?, giveUp?, hi]
  | some q =>
    have wait := answered q (List.mem_of_getElem? hi)
    simp [step?, place?, answer?, giveUp?, hi, wait]

/-- **Every request is answered exactly once.** In any order of messages, with all requests different,
and of the steps of workers and inquiries: no request is answered twice, and only those that arrived
are; a pending request has no answer; and when the session is quiet, none is pending, and every
request that arrived has one answer. -/
theorem answered_exactly_once {compiler : σ} {es : List Step}
    (run : Run (step? h) (fun _ _ => True) { compiler } es s)
    (distinct : (es.filterMap Step.request?).Nodup) :
    s.answers.Nodup ∧ (∀ id ∈ s.answers, id ∈ es.filterMap Step.request?) ∧
      (∀ p ∈ s.pending, p.1 ∉ s.answers) ∧
      (Quiet h s →
        s.pending = [] ∧ ∀ id ∈ es.filterMap Step.request?, s.answers.count id = 1) := by
  obtain ⟨tidy, accounted⟩ := accounted_of_run run
  have pending := accounted.pending distinct
  obtain ⟨once, -, apart⟩ := List.nodup_append.1 (accounted.all.nodup_iff.2 distinct)
  refine ⟨once, fun id hid => accounted.all.subset (List.mem_append_left _ hid), ?_, fun quiet => ?_⟩
  · intro p hp answered
    have waits : p.1 ∈ s.waiting := pending ▸ List.mem_map_of_mem hp
    exact apart p.1 answered p.1 waits rfl
  · have none := quiet.waiting_eq_nil tidy (attentive_of_reaches ⟨es, run⟩)
    refine ⟨by simpa [none] using pending, fun id hid => ?_⟩
    have all := accounted.all
    rw [none, List.append_nil] at all
    exact List.count_eq_one_of_mem once (all.symm.subset hid)

end Session

/-! ### A run -/

namespace Sample

/-- The editor asks twice what stands at the start of the document and once for something unknown, takes
the second question back, and closes the document while the first one waits. -/
def conversation : List Step :=
  [opens 1 "int one;", .handle (.request (.number 7) "textDocument/hover" asking),
    .handle (.request (.number 8) "textDocument/unknown" .null),
    .handle (.request (.number 9) "textDocument/hover" asking),
    .handle (.notification "$/cancelRequest" (.obj [("id", .nat 9)])),
    .place 0, .receive 0, closes, .receive 0, .receive 0, .giveUp 1, .answer 0]

end Sample

namespace Session

open Sample in
/-- The case of a conversation with an answer at once, one that is given up, and one that comes to
nothing because the document is closed. -/
theorem conversation_answered :
    ∃ s : Session Unit, Run (step? host) (fun _ _ => True) { compiler := () } conversation s ∧
      conversation.filterMap Step.request? = [.number 7, .number 8, .number 9] ∧
      s.answers = [.number 8, .number 9, .number 7] ∧ Quiet host s ∧ s.pending = [] ∧
      ∀ id ∈ conversation.filterMap Step.request?, s.answers.count id = 1 := by
  let s₀ : Session Unit := { compiler := () }
  let s : Session Unit := (conversation.foldlM (step? host) s₀).get (by decide +kernel)
  have steps : conversation.foldlM (step? host) s₀ = some s := (Option.some_get _).symm
  have run : Run (step? host) (fun _ _ => True) s₀ conversation s :=
    .of_foldlM (fun _ _ _ => trivial) steps
  have quiet : Quiet host s := by
    have inquiries : s.inquiries.all (·.wait == .answered) = true := by decide +kernel
    have workers : s.workers.all (·.actor.stopped) = true := by decide +kernel
    exact quiet_of_answered (fun q hq => by simpa using List.all_eq_true.1 inquiries q hq)
      fun w k worker => Or.inl (List.all_eq_true.1 workers k (List.mem_of_getElem? worker))
  obtain ⟨-, -, -, settled⟩ := answered_exactly_once run (by decide +kernel)
  exact ⟨s, run, by decide +kernel, by decide +kernel, quiet, settled quiet⟩

end Session

end LanguageServer
