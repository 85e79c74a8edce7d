import LanguageServer.Proofs.Saving

/-!
# Calls for one document

A worker makes one call at a time. But a worker that stopped leaves its call in the compiler, and a
document that is opened again gets a worker of its own, which does not wait for it.

* `Session.InCall`, `Session.SingleFlight`: calls for a document, and at most one of them;
* `Session.Rostered`: a worker that was not told to stop works for its document;
* `Session.Exclusive`: all workers of a document but one are gone;
* `Session.single_flight_iff`: when there is one call at a time until the document is closed.
-/

namespace LanguageServer

/-- A worker whose call has not returned. -/
def Worker.InCompiler (k : Worker) : Prop := ∃ job project, k.stage = some (.calling job project)

instance (k : Worker) : Decidable k.InCompiler :=
  decidable_of_iff ((k.stage matches some (.calling _ _)) = true) <| by
    unfold Worker.InCompiler
    split <;> simp_all

/-- A worker that stopped runs no compilation, except for a call. -/
def Worker.Retired (k : Worker) : Prop := k.actor.stopped = true → k.stage = none ∨ k.InCompiler

namespace Session

variable {σ : Type} {s t u : Session σ} {h : Host σ} {uri : Uri} {w v : Nat} {k k' : Worker}
  {e : Step} {es : List Step}

/-- A worker of a document is in a call. -/
def InCall (s : Session σ) (uri : Uri) (w : Nat) : Prop :=
  ∃ k, s.workers[w]? = some k ∧ k.document = uri ∧ k.InCompiler

instance (s : Session σ) (uri : Uri) (w : Nat) : Decidable (s.InCall uri w) :=
  decidable_of_iff ((s.workers[w]?.any fun k => k.document = uri && k.InCompiler) = true) <| by
    simp [InCall, Option.any_eq_true]

/-- At most one call for a document is under way. -/
def SingleFlight (s : Session σ) (uri : Uri) : Prop :=
  ∀ v w, s.InCall uri v → s.InCall uri w → v = w

/-- A worker that stopped, or is about to. -/
def ToldToStop (s : Session σ) (w : Nat) : Prop :=
  (∃ k, s.workers[w]? = some k ∧ k.actor.stopped = true) ∨ (w, Order.stop) ∈ s.mail

/-! ### Workers that stop -/

theorem Moves.document (moves : Moves h s t w k e k') : k'.document = k.document := by
  cases moves <;> rfl

theorem Moves.stopped (moves : Moves h s t w k e k') (stopped : k.actor.stopped = true) :
    k'.actor.stopped = true := by
  cases moves with
  | receives next goes =>
    rw [Actor.receive_of_stopped stopped] at goes ⊢
    exact stopped
  | stops mem stops => exact stops
  | rests phase live | starts phase live => cases live.symm.trans stopped
  | stays | calls | yields | accepts | announces => exact stopped
  | misses | finishes => exact (Actor.finish_stopped _).trans stopped

theorem Moves.retired (moves : Moves h s t w k e k') (retired : k.Retired) : k'.Retired := by
  cases moves with
  | stays => exact retired
  | receives next goes => exact fun stopped => by cases goes.symm.trans stopped
  | stops =>
    intro _
    cases stage : k.stage with
    | none => exact .inl rfl
    | some x =>
      cases x with
      | calling job project => exact .inr ⟨job, project, rfl⟩
      | starting | returned | sending => exact .inl rfl
  | rests | misses | finishes => exact fun _ => .inl rfl
  | starts phase live => exact fun stopped => by cases live.symm.trans stopped
  | calls => exact fun _ => .inr ⟨_, _, rfl⟩
  | yields stage => exact fun stopped => .inl (if_pos stopped)
  | accepts stage | announces stage =>
    intro stopped
    rcases retired stopped with none | ⟨job, project, calling⟩
    · cases none.symm.trans stage
    · cases calling.symm.trans stage

/-- A worker that is gone, and has no call left, stays so. -/
theorem Moves.gone (moves : Moves h s t w k e k') (stopped : k.actor.stopped = true)
    (none : k.stage = none) : k'.actor.stopped = true ∧ k'.stage = .none := by
  refine ⟨moves.stopped stopped, ?_⟩
  cases moves with
  | stops => simp [none, Stage.orphaned]
  | stays | receives => exact none
  | rests | misses | finishes => rfl
  | starts phase live => cases live.symm.trans stopped
  | calls stage | yields stage | accepts stage | announces stage => cases none.symm.trans stage

theorem retired_of_reaches {compiler : σ} (hr : Reaches h { compiler } s)
    (worker : s.workers[w]? = some k) : k.Retired := by
  obtain ⟨es, run⟩ := hr
  refine run.invariant (I := fun s : Session σ => ∀ k ∈ s.workers, k.Retired) ?_ (by simp) k
    (List.mem_of_getElem? worker)
  exact fun s e t all _ hstep =>
    forall_workers_step hstep (fun _ stopped => by cases stopped)
      (fun _ _ _ _ moves retired => moves.retired retired) all

/-- Nobody is hired by a step of a worker or an inquiry. -/
theorem moved_of_step (hstep : step? h s e = some t) (silent : ∀ m, e ≠ .handle m)
    (worker' : t.workers[w]? = some k') : ∃ k, s.workers[w]? = some k ∧ Moves h s t w k e k' := by
  have hw : w < s.workers.length :=
    length_workers_of_step hstep silent ▸ (List.getElem?_eq_some_iff.1 worker').1
  have worker := List.getElem?_eq_getElem hw
  obtain ⟨k'', worker'', moves⟩ := moves_of_step hstep worker
  obtain rfl : k' = k'' := Option.some.inj (worker'.symm.trans worker'')
  exact ⟨_, worker, moves⟩

/-- Only messages and the end of the session change who works for a document. -/
theorem schedulers_of_step (hstep : step? h s e = some t) (silent : ∀ m, e ≠ .handle m)
    (running : e ≠ .shutdown) : t.schedulers = s.schedulers := by
  cases taken_of_step? hstep with
  | handle m => exact absurd rfl (silent m)
  | shutdown => exact absurd rfl running
  | receive | rest | start | miss | finish => simp [act, updateWorker]
  | stop => simp [discardMail, act, updateWorker]
  | place => simp [updateInquiry]
  | tick | call | yield | accept | announce | answerNothing | answer | giveUp => rfl

namespace ToldToStop

theorem grows (told : s.ToldToStop w) (grows : s.Grows t) : t.ToldToStop w :=
  told.imp (fun ⟨k, worker, stopped⟩ => ⟨k, grows.workers w k worker, stopped⟩) (grows.mail _)

theorem post (worker : s.workers[w]? = some k) : (s.post w .stop).ToldToStop w := by
  unfold Session.post
  split
  · exact .inr (by simp)
  · next closed =>
    refine .inl ⟨k, by rw [tell_workers, worker], ?_⟩
    by_contra live
    exact closed (isOpen_iff.2 ⟨k, worker, by simpa using live⟩)

/-- A worker that was told to stop does not forget it. -/
theorem step (told : s.ToldToStop w) (hstep : step? h s e = some t) : t.ToldToStop w := by
  rcases told with ⟨k, worker, stopped⟩ | mem
  · obtain ⟨k', worker', moves⟩ := moves_of_step hstep worker
    exact .inl ⟨k', worker', moves.stopped stopped⟩
  · by_cases own : e = .receive w
    · subst own
      cases taken_of_step? hstep with
      | @receive _ k order mail worker next free goes =>
        obtain ⟨before, after, all, -, rfl⟩ := takeOrder?_eq next
        have other : order ≠ .stop := by
          rintro rfl
          cases live : k.actor.stopped with
          | false => simp [(Actor.receive_stopped live).2 rfl] at goes
          | true =>
            rw [Actor.receive_of_stopped live] at goes
            cases live.symm.trans goes
        rw [all] at mem
        refine .inr ?_
        rw [act, tell_mail]
        simpa [updateWorker, other.symm] using mem
      | @stop _ k order mail worker next free stops =>
        refine .inl ⟨{ k with
          actor := (k.actor.receive s.now h.window order).1
          stage := Stage.orphaned k.stage }, ?_, stops⟩
        rw [discardMail, tell_workers]
        exact workers_act_self (s := { s with mail }) worker _ _
    · exact .inr (mem_mail_of_step hstep mem own)

end ToldToStop

/-! ### Who works for a document -/

/-- A document has one worker at most, and whoever was not told to stop works for its document. -/
structure Rostered (s : Session σ) : Prop where
  unique : (s.schedulers.map (·.1)).Nodup
  listed : ∀ w k, s.workers[w]? = some k → s.ToldToStop w ∨ (k.document, w) ∈ s.schedulers

theorem rostered_empty (compiler : σ) : Rostered { compiler } := ⟨List.nodup_nil, by simp⟩

namespace Rostered

/-- Nobody comes or goes, and no order is lost. -/
theorem frame (hs : Rostered s) (workers : t.workers = s.workers)
    (schedulers : t.schedulers = s.schedulers) (mail : ∀ p ∈ s.mail, p ∈ t.mail) : Rostered t := by
  refine ⟨schedulers ▸ hs.unique, fun w k worker => ?_⟩
  rw [schedulers]
  refine (hs.listed w k (workers ▸ worker)).imp_left fun told => told.grows ⟨fun v x hx => ?_, mail⟩
  rw [workers, hx]

theorem post (hs : Rostered s) (w : Nat) (order : Order Nat) : Rostered (s.post w order) :=
  hs.frame (post_workers w order) (post_schedulers w order) (Grows.post s w order).mail

theorem scheduler (hs : Rostered s) (uri : Uri) : Rostered (s.scheduler uri).1 := by
  have grows := Grows.scheduler s uri
  unfold Session.scheduler at grows ⊢
  split
  · exact hs
  · next unknown =>
    simp only [unknown] at grows
    constructor
    case unique =>
      rw [List.map_append, List.nodup_append]
      refine ⟨hs.unique, List.nodup_singleton _, fun u hu u' hu' he => ?_⟩
      obtain ⟨p, hp, rfl⟩ := List.mem_map.1 hu
      obtain rfl : u' = uri := List.mem_singleton.1 hu'
      simpa [he] using List.find?_eq_none.1 unknown p hp
    case listed =>
      intro w k worker
      rcases getElem?_concat_cases worker with worker | ⟨rfl, rfl⟩
      · exact (hs.listed w k worker).imp (fun told => told.grows grows) (List.mem_append_left _)
      · exact .inr (List.mem_append_right _ (List.mem_singleton_self _))

theorem requestCompilation (hs : Rostered s) (uri : Uri) : Rostered (s.requestCompilation uri) :=
  (hs.scheduler uri).post _ _

theorem stopScheduler (hs : Rostered s) (uri : Uri) : Rostered (s.stopScheduler uri) := by
  unfold Session.stopScheduler
  split
  · exact hs
  · next u w found =>
    obtain rfl : u = uri := by simpa using List.find?_some found
    constructor
    case unique =>
      rw [post_schedulers]
      exact hs.unique.sublist (List.filter_sublist.map _)
    case listed =>
      intro v k worker
      rw [post_workers] at worker
      rw [post_schedulers]
      rcases hs.listed v k worker with told | works
      · exact .inl (told.grows ((Grows.of_eq (by rfl) (by rfl)).trans (.post _ _ _)))
      · by_cases own : k.document = u
        · -- the worker of the document is the one who is told
          have same : (u, v) = (u, w) := List.inj_on_of_nodup_map hs.unique (own ▸ works)
            (List.mem_of_find?_eq_some found) rfl
          obtain rfl : v = w := congrArg Prod.snd same
          exact .inl (ToldToStop.post (s := { s with schedulers := s.schedulers.filter (·.1 != u) })
            worker)
        · exact .inr (List.mem_filter.2 ⟨works, by simpa using own⟩)

theorem shutdown (hs : Rostered s) : Rostered s.shutdown := by
  -- whoever is listed is told
  have told : ∀ (l : List (Uri × Nat)) (a : Session σ), ∀ p ∈ l, ∀ k, a.workers[p.2]? = some k →
      (l.foldl (fun s q => s.post q.2 .stop) a).ToldToStop p.2 := by
    intro l
    induction l with
    | nil => simp
    | cons q l ih =>
      intro a p hp k worker
      rw [List.foldl_cons]
      rcases List.mem_cons.1 hp with rfl | hp
      · exact foldl_preserves (P := fun t : Session σ => t.ToldToStop p.2)
          (fun t _ _ ht => ht.grows (.post t _ _)) (ToldToStop.post worker)
      · exact ih _ p hp k (by rw [post_workers, worker])
  constructor
  case unique =>
    rw [shutdown_schedulers]
    exact List.nodup_nil
  case listed =>
    intro w k worker
    rw [shutdown_workers] at worker
    rcases hs.listed w k worker with h | works
    · exact .inl (h.grows (.shutdown s))
    · exact .inl (told s.schedulers { s with schedulers := [] } _ works k worker)

theorem inquire (hs : Rostered s) (id : MessageId) (question : DocumentRequest) :
    Rostered (s.inquire id question) := by
  unfold Session.inquire
  split
  · exact hs.frame rfl rfl fun _ hp => hp
  · exact (hs.scheduler _).frame rfl rfl fun _ hp => hp

theorem receive (hs : Rostered s) (m : Message) : Rostered (s.receive h m) := by
  refine receive_induction (P := fun s : Session σ => Rostered s) ?_ m ?_ ?_ ?_ ?_ ?_ hs
  · exact fun a b same ha => ha.frame same.workers same.schedulers fun p hp => same.mail ▸ hp
  · exact fun a u ha => ha.requestCompilation u
  · exact fun a u ha => ha.stopScheduler u
  · exact fun a i ha => ha.frame rfl rfl fun _ hp => hp
  · exact fun a ha => ha.shutdown
  · exact fun a id question ha => ha.inquire id question

theorem step (hs : Rostered s) (hstep : step? h s e = some t) : Rostered t := by
  by_cases message : ∃ m, e = .handle m
  · obtain ⟨m, rfl⟩ := message
    cases hstep
    exact hs.receive m
  by_cases ends : e = .shutdown
  · cases ends
    cases hstep
    exact hs.shutdown
  have silent : ∀ m, e ≠ .handle m := fun m he => message ⟨m, he⟩
  have schedulers := schedulers_of_step hstep silent ends
  refine ⟨schedulers ▸ hs.unique, fun w k' worker' => ?_⟩
  obtain ⟨k, worker, moves⟩ := moved_of_step hstep silent worker'
  rw [schedulers, moves.document]
  exact (hs.listed w k worker).imp_left fun told => told.step hstep

end Rostered

theorem rostered_of_reaches {compiler : σ} (hr : Reaches h { compiler } s) : Rostered s := by
  obtain ⟨es, run⟩ := hr
  exact run.invariant (fun _ _ _ hs _ hstep => hs.step hstep) (rostered_empty compiler)

/-- Of two workers of a document one was told to stop. -/
theorem Rostered.toldToStop (hs : Rostered s) {kv kw : Worker} (hv : s.workers[v]? = some kv)
    (hw : s.workers[w]? = some kw) (same : kv.document = kw.document) (different : v ≠ w) :
    s.ToldToStop v ∨ s.ToldToStop w := by
  rcases hs.listed v kv hv with told | worksv
  · exact .inl told
  · rcases hs.listed w kw hw with told | worksw
    · exact .inr told
    · have pairs := List.inj_on_of_nodup_map hs.unique worksv worksw same
      exact absurd (congrArg Prod.snd pairs) different

/-! ### All but one are gone -/

/-- The steps that neither close a document nor end the session. -/
def LeavesWorking (uri : Uri) (_ : Session σ) : Step → Prop
  | .handle (.request _ method _) => method ≠ "shutdown"
  | .handle (.notification method params) =>
    ∀ n, Notice.read? method params = some n → uri ∉ n.closes
  | .shutdown => False
  | _ => True

/-- One worker works for a document, and all others that ever did are gone, with no call left. -/
structure Exclusive (uri : Uri) (w : Nat) (s : Session σ) : Prop where
  works : (uri, w) ∈ s.schedulers
  others : ∀ v k, s.workers[v]? = some k → k.document = uri → v ≠ w →
    k.actor.stopped = true ∧ k.stage = none

namespace Exclusive

theorem singleFlight (hs : s.Exclusive uri w) : s.SingleFlight uri := by
  have only : ∀ v, s.InCall uri v → v = w := by
    rintro v ⟨k, worker, document, job, project, calling⟩
    by_contra other
    cases (hs.others v k worker document other).2.symm.trans calling
  exact fun v v' hv hv' => (only v hv).trans (only v' hv').symm

theorem frame (hs : s.Exclusive uri w) (workers : t.workers = s.workers)
    (works : (uri, w) ∈ t.schedulers) : t.Exclusive uri w :=
  ⟨works, fun v k worker => hs.others v k (workers ▸ worker)⟩

theorem scheduler (hs : s.Exclusive uri w) (u : Uri) : (s.scheduler u).1.Exclusive uri w := by
  refine ⟨mem_schedulers_of_mem hs.works u, ?_⟩
  unfold Session.scheduler
  split
  · exact hs.others
  · next unknown =>
    intro v k worker document other
    rcases getElem?_concat_cases worker with worker | ⟨-, rfl⟩
    · exact hs.others v k worker document other
    · -- the document has a worker, so the new one is for another document
      refine absurd (List.find?_eq_none.1 unknown _ hs.works) ?_
      simpa using document.symm

theorem requestCompilation (hs : s.Exclusive uri w) (u : Uri) :
    (s.requestCompilation u).Exclusive uri w := by
  refine (hs.scheduler u).frame (post_workers _ _) ?_
  rw [Session.requestCompilation, post_schedulers]
  exact (hs.scheduler u).works

theorem stopScheduler (hs : s.Exclusive uri w) {u : Uri} (other : uri ≠ u) :
    (s.stopScheduler u).Exclusive uri w := by
  refine hs.frame (stopScheduler_workers u) ?_
  unfold Session.stopScheduler
  split
  · exact hs.works
  · rw [post_schedulers]
    exact List.mem_filter.2 ⟨hs.works, by simpa using other⟩

theorem inquire (hs : s.Exclusive uri w) (id : MessageId) (question : DocumentRequest) :
    (s.inquire id question).Exclusive uri w := by
  unfold Session.inquire
  split
  · exact hs.frame rfl hs.works
  · exact (hs.scheduler _).frame rfl (hs.scheduler _).works

theorem receive (hs : s.Exclusive uri w) {m : Message} (ok : s.LeavesWorking uri (.handle m)) :
    (s.receive h m).Exclusive uri w := by
  cases m with
  | request id method params =>
    have running : method ≠ "shutdown" := ok
    simp only [Session.receive, ask, if_neg running]
    split
    · exact hs.frame rfl hs.works
    · split
      · exact hs.frame rfl hs.works
      · exact hs.inquire id _
  | notification method params =>
    simp only [Session.receive, notify]
    split
    · exact hs
    · next n read =>
      refine heed_induction_closes (P := fun s : Session σ => s.Exclusive uri w) ?_ ?_ ?_ ?_ hs
      · exact fun a b same ha => ha.frame same.workers (same.schedulers ▸ ha.works)
      · exact fun a u _ ha => ha.requestCompilation u
      · exact fun a u closes ha => ha.stopScheduler fun he => ok n read (he ▸ closes)
      · exact fun a i ha => ha.frame rfl ha.works
  | response id => exact hs

theorem step (hs : s.Exclusive uri w) (ok : s.LeavesWorking uri e) (hstep : step? h s e = some t) :
    t.Exclusive uri w := by
  by_cases message : ∃ m, e = .handle m
  · obtain ⟨m, rfl⟩ := message
    cases hstep
    exact hs.receive ok
  have running : e ≠ .shutdown := by
    rintro rfl
    exact ok
  have silent : ∀ m, e ≠ .handle m := fun m he => message ⟨m, he⟩
  refine ⟨schedulers_of_step hstep silent running ▸ hs.works, fun v k' worker' document other => ?_⟩
  obtain ⟨k, worker, moves⟩ := moved_of_step hstep silent worker'
  obtain ⟨stopped, none⟩ := hs.others v k worker (moves.document ▸ document) other
  exact moves.gone stopped none

end Exclusive

/-! ### Documents that are opened again -/

/-- The only order for a worker is taken, wherever it stands last. -/
theorem takeOrder?_append_one {order : Order Nat} {mail : List (Nat × Order Nat)}
    (none : ∀ p ∈ mail, p.1 ≠ w) : takeOrder? w (mail ++ [(w, order)]) = some (order, mail) := by
  induction mail with
  | nil => simp [takeOrder?]
  | cons p mail ih =>
    have other := none p List.mem_cons_self
    rw [List.cons_append, takeOrder?, if_neg other,
      ih fun q hq => none q (List.mem_cons_of_mem _ hq)]
    rfl

/-- A call goes on while others take their steps. -/
theorem InCall.of_other (call : s.InCall uri v) (hstep : step? h s e = some t)
    (other : e.worker? ≠ some v) : t.InCall uri v := by
  obtain ⟨k, worker, document, calls⟩ := call
  obtain ⟨k', worker', moves⟩ := moves_of_step hstep worker
  cases moves with
  | stays => exact ⟨k, worker', document, calls⟩
  | receives | stops | rests | starts | misses | calls | yields | accepts | announces | finishes =>
    exact absurd rfl other

/-- A new worker with an order on its way can call the compiler, if its document is open. -/
theorem call_of_new {V : Int} {mail : List (Nat × Order Nat)} {job : Job}
    (worker : s.workers[w]? = some { document := uri })
    (next : takeOrder? w s.mail = some (.compile V none, mail))
    (opened : s.store.job? uri = some job) :
    ∃ t, Run (step? h) (LeavesWorking uri) s [.receive w, .tick h.window, .expire w, .call w] t ∧
      t.InCall uri w := by
  let wanting : Actor Nat := { desired := some V, phase := .settling (s.now + h.window) }
  let k₁ : Worker := { document := uri, actor := wanting }
  let k₂ : Worker :=
    { document := uri
      actor := { wanting with phase := .compiling (some V) }
      stage := some .starting }
  let s₁ : Session σ := { s with mail }.act w { document := uri } none (wanting, [])
  let s₂ : Session σ := { s₁ with now := s₁.now + h.window }
  let s₃ : Session σ := s₂.act w k₁ k₂.stage (k₂.actor, [])
  let calling : Stage := .calling job (Project.discover h.files job.files s₃.settings)
  have worker₁ : s₂.workers[w]? = some k₁ :=
    workers_act_self (s := { s with mail }) worker none (wanting, [])
  have worker₂ : s₃.workers[w]? = some k₂ := workers_act_self worker₁ k₂.stage (k₂.actor, [])
  have store : s₃.store = s.store := by simp [s₃, s₂, s₁, act, updateWorker]
  have receives : step? h s (.receive w) = some s₁ := by
    simp [step?, receiveOrder?, worker, next, Stage.isSending, Actor.receive, Actor.hold,
      Actor.isNews, Actor.want, laterVersion, versionLt, s₁, wanting]
  have expires : step? h s₂ (.expire w) = some s₃ := by
    have now : s₂.now = s.now + h.window := rfl
    simp [step?, expire?, worker₁, now, k₁, k₂, wanting, Actor.expire, Actor.isUpToDate, versionLt,
      s₃]
  have calls : step? h s₃ (.call w) =
      some (s₃.updateWorker w fun k => { k with stage := some calling }) := by
    simp [step?, call?, worker₂, k₂, store, opened, calling]
  refine ⟨_,
    .cons trivial receives (.cons trivial rfl (.cons trivial expires (.single trivial calls))),
    { k₂ with stage := some calling }, workers_updateWorker_self worker₂, rfl, job, _, rfl⟩

theorem InCall.of_run {allowed : Session σ → Step → Prop} (call : s.InCall uri v)
    (run : Run (step? h) allowed s es t) (other : ∀ e ∈ es, e.worker? ≠ some v) :
    t.InCall uri v := by
  induction run with
  | nil => exact call
  | snoc _ _ last ih =>
    have before := ih fun e he => other e (List.mem_append_left _ he)
    exact before.of_other last (other _ (by simp))

/-- All who ever worked for a document have stopped. -/
def Abandoned (s : Session σ) (uri : Uri) : Prop :=
  ∀ (w : Nat) (k : Worker), s.workers[w]? = some k → k.document = uri → k.actor.stopped = true

section Opening

variable {compiler : σ} {d : TextDocument}

theorem Abandoned.unmanned (stopped : s.Abandoned uri) (start : Reaches h { compiler } s) :
    ∀ p ∈ s.schedulers, p.1 ≠ uri := by
  rintro ⟨u, w⟩ works rfl
  obtain ⟨k, worker, live⟩ := isOpen_iff.1 (appointed_of_reaches start _ works).1
  have document := (sound_of_reaches start).schedulers _ works
  simp only [staff, List.getElem?_map, worker, Option.map_some, Option.some.injEq] at document
  cases live.symm.trans (stopped w k worker document)

/-- A document that nobody works for is opened, and gets a worker. -/
theorem openDocument_of_unmanned (unmanned : ∀ p ∈ s.schedulers, p.1 ≠ d.uri)
    (opened : ((s.openDocument h d).store.find? d.uri).isSome) :
    ∃ store V, (store.find? d.uri).isSome ∧ s.openDocument h d =
      { s with
        store
        workers := s.workers ++ [{ document := d.uri }]
        schedulers := s.schedulers ++ [(d.uri, s.workers.length)]
        mail := s.mail ++ [(s.workers.length, .compile V none)] } := by
  obtain ⟨store, doc, hr, he⟩ | ⟨store, e, hr, he⟩ := openDocument_cases h s d
  · rw [he, requestCompilation_store] at opened
    let t : Session σ := { s with store := store.update d.uri (·.opened d.text d.version) }
    exact ⟨_, _, opened, he.trans (requestCompilation_of_none (s := t) unmanned)⟩
  · rw [he, Store.find?_register_error hr] at opened
    cases opened

/-- The new worker of a document is the only one if no call is left from before. -/
theorem exclusive_openDocument (start : Reaches h { compiler } s) (stopped : s.Abandoned d.uri)
    (opened : ((s.openDocument h d).store.find? d.uri).isSome) (free : ∀ w, ¬ s.InCall d.uri w) :
    (s.openDocument h d).Exclusive d.uri s.workers.length := by
  obtain ⟨store, V, -, he⟩ := openDocument_of_unmanned (stopped.unmanned start) opened
  rw [he]
  refine ⟨List.mem_append_right _ (List.mem_singleton_self _), fun v k worker document other => ?_⟩
  rcases getElem?_concat_cases worker with worker | ⟨new, -⟩
  · have gone := stopped v k worker document
    refine ⟨gone, (retired_of_reaches start worker gone).resolve_right fun calls => ?_⟩
    exact free v ⟨k, worker, document, calls⟩
  · exact absurd new other

/-- The new worker of a document can come to a call without any step of another worker. -/
theorem call_after_openDocument (start : Reaches h { compiler } s) (stopped : s.Abandoned d.uri)
    (opened : ((s.openDocument h d).store.find? d.uri).isSome) :
    ∃ es t, Run (step? h) (LeavesWorking d.uri) (s.openDocument h d) es t ∧
      t.InCall d.uri s.workers.length ∧
      ∀ e ∈ es, ∀ v, e.worker? = some v → v = s.workers.length := by
  obtain ⟨store, V, found, he⟩ := openDocument_of_unmanned (stopped.unmanned start) opened
  obtain ⟨doc, hdoc⟩ := Option.isSome_iff_exists.1 found
  -- no order was on its way to the new worker before
  have next : takeOrder? s.workers.length (s.openDocument h d).mail =
      some (.compile V none, s.mail) := by
    rw [he]
    exact takeOrder?_append_one fun p hp =>
      Nat.ne_of_lt (by simpa [staff] using (sound_of_reaches start).addressed p hp)
  have worker : (s.openDocument h d).workers[s.workers.length]? = some { document := d.uri } := by
    rw [he]
    exact List.getElem?_concat_length
  have job : ∃ job, (s.openDocument h d).store.job? d.uri = some job := by
    rw [he]
    exact ⟨_, by rw [Store.job?, hdoc]; rfl⟩
  obtain ⟨job, reads⟩ := job
  obtain ⟨t, run, call⟩ := call_of_new worker next reads
  refine ⟨_, t, run, call, fun e he v hv => ?_⟩
  simp only [List.mem_cons, List.not_mem_nil, or_false] at he
  rcases he with rfl | rfl | rfl | rfl <;> cases hv <;> rfl

end Opening

/-- **One call at a time.** In any session that a server can come to, of two workers that are in
calls for one document at least one was told to stop. And let a document be opened where all who
worked for it before have stopped. Until it is closed there is at most one call for it at any time,
in every run, if no call is left from before; and this is the only way: the new worker can always
come to a call while the old one is under way. -/
theorem single_flight_iff {compiler : σ} {s₀ s₁ : Session σ} (start : Reaches h { compiler } s₀) :
    (∀ uri v w, v ≠ w → s₀.InCall uri v → s₀.InCall uri w → s₀.ToldToStop v ∨ s₀.ToldToStop w) ∧
    ∀ (d : TextDocument) (method : String) (params : Json),
      Notice.read? method params = some (.opened d) →
      step? h s₀ (.handle (.notification method params)) = some s₁ →
      (s₁.store.find? d.uri).isSome → s₀.Abandoned d.uri →
      ((∀ es t, Run (step? h) (LeavesWorking d.uri) s₁ es t → t.SingleFlight d.uri) ↔
        ∀ w, ¬ s₀.InCall d.uri w) := by
  constructor
  · rintro uri v w different ⟨kv, hv, rfl, -⟩ ⟨kw, hw, same, -⟩
    exact (rostered_of_reaches start).toldToStop hv hw same.symm different
  intro d method params read opens opened stopped
  obtain rfl : s₀.openDocument h d = s₁ := by
    simpa [step?, Session.receive, notify, read, heed] using opens
  constructor
  · intro single v call
    obtain ⟨es, t, run, new, own⟩ := call_after_openDocument start stopped opened
    obtain ⟨k, worker, -⟩ := id call
    have older : v ≠ s₀.workers.length := Nat.ne_of_lt (List.getElem?_eq_some_iff.1 worker).1
    have kept : (s₀.openDocument h d).InCall d.uri v := call.of_other opens (by simp [Step.worker?])
    have still := kept.of_run run fun e he hv => older (own e he v hv)
    exact older (single es t run v _ still new)
  · intro free es t run
    exact (run.invariant (fun _ _ _ hs ok hstep => hs.step ok hstep)
      (exclusive_openDocument start stopped opened free)).singleFlight

end Session

/-! ### Two runs -/

namespace Sample

/-- The steps of a worker from its first order until the compiler is called. -/
def calling (w : Nat) : List Step := [.receive w, .tick 300, .expire w, .call w]

end Sample

namespace Session

open Sample

/-- The case of a call that returned before the document was opened again. -/
theorem single_flight_after_return :
    ∃ s₀ s₁ : Session Unit, Reaches host { compiler := () } s₀ ∧ s₀.Abandoned uri ∧
      step? host s₀ (opens 2 "int two;") = some s₁ ∧ (∀ w, ¬ s₀.InCall uri w) ∧
      ∀ es t, Run (step? host) (LeavesWorking uri) s₁ es t → t.SingleFlight uri := by
  let before : List Step := opens 1 "int one;" :: calling 0 ++ [closes, .receive 0, .yield 0]
  let s : Session Unit := { compiler := () }
  let s₀ : Session Unit := (before.foldlM (step? host) s).get (by decide +kernel)
  let s₁ : Session Unit := (step? host s₀ (opens 2 "int two;")).get (by decide +kernel)
  have h₀ : before.foldlM (step? host) s = some s₀ := (Option.some_get _).symm
  have h₁ : step? host s₀ (opens 2 "int two;") = some s₁ := (Option.some_get _).symm
  have reaches : Reaches host s s₀ := ⟨before, .of_foldlM (fun _ _ _ => trivial) h₀⟩
  have all : s₀.workers.all (fun k => k.actor.stopped && !k.InCompiler) = true := by decide +kernel
  have gone : ∀ (w : Nat) (k : Worker), s₀.workers[w]? = some k →
      k.actor.stopped = true ∧ ¬ k.InCompiler := fun w k worker => by
    simpa using List.all_eq_true.1 all k (List.mem_of_getElem? worker)
  have abandoned : s₀.Abandoned uri := fun w k worker _ => (gone w k worker).1
  have free : ∀ w, ¬ s₀.InCall uri w := fun w ⟨k, worker, _, calls⟩ => (gone w k worker).2 calls
  have single := (single_flight_iff reaches).2 ⟨uri, Keyword.languageId, 2, "int two;"⟩ _ _ rfl h₁
    (by decide +kernel) abandoned
  exact ⟨s₀, s₁, reaches, abandoned, h₁, free, single.2 free⟩

/-- A document is closed while the compiler is busy with it, and opened again. Its new worker calls
the compiler while the old call is under way. -/
theorem two_calls_at_once :
    ∃ t : Session Unit, Run (step? host) (fun _ _ => True) { compiler := () }
      (opens 1 "int one;" :: calling 0 ++ [closes, .receive 0, opens 2 "int two;"] ++ calling 1) t ∧
      t.InCall uri 0 ∧ t.InCall uri 1 ∧ ¬ t.SingleFlight uri := by
  let es : List Step :=
    opens 1 "int one;" :: calling 0 ++ [closes, .receive 0, opens 2 "int two;"] ++ calling 1
  let s : Session Unit := { compiler := () }
  let t : Session Unit := (es.foldlM (step? host) s).get (by decide +kernel)
  have steps : es.foldlM (step? host) s = some t := (Option.some_get _).symm
  have old : t.InCall uri 0 := by decide +kernel
  have new : t.InCall uri 1 := by decide +kernel
  exact ⟨t, .of_foldlM (fun _ _ _ => trivial) steps, old, new, fun single => by
    cases single 0 1 old new⟩

end Session

end LanguageServer
