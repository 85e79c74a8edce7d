import LanguageServer.Proofs.Soundness

/-!
# The life of a worker

* `Session.Grows`: messages take no worker and no order away;
* `Session.Moves`, `Session.moves_of_step`: all that a step can do to one worker;
* `Session.mem_mail_of_step`: an order stays on its way until its worker takes the next one;
* `Worker.Apt`: the stage of a worker agrees with the phase of its actor;
* `Session.Appointed`: who works for a document takes orders, and is not told to stop.
-/

namespace LanguageServer

/-- The worker that a step is one of. -/
def Step.worker? : Step → Option Nat
  | .receive w | .expire w | .call w | .yield w | .accept w | .announce w => some w
  | .handle _ | .shutdown | .tick _ | .place _ | .answer _ | .giveUp _ => none

namespace Session

variable {σ : Type} {s t u : Session σ} {h : Host σ} {w v : Nat} {k k' : Worker} {e : Step}

/-! ### Messages -/

/-- All workers and all orders of a session are there later on. -/
structure Grows (s t : Session σ) : Prop where
  workers : ∀ (w : Nat) (k : Worker), s.workers[w]? = some k → t.workers[w]? = some k
  mail : ∀ p ∈ s.mail, p ∈ t.mail

namespace Grows

theorem of_eq (workers : t.workers = s.workers) (mail : t.mail = s.mail) : s.Grows t :=
  ⟨fun _ _ hk => workers ▸ hk, fun _ hp => mail ▸ hp⟩

theorem trans (first : s.Grows t) (second : t.Grows u) : s.Grows u :=
  ⟨fun w k hk => second.workers w k (first.workers w k hk),
    fun p hp => second.mail p (first.mail p hp)⟩

theorem post (s : Session σ) (w : Nat) (order : Order Nat) : s.Grows (s.post w order) := by
  refine ⟨fun _ _ hk => by rwa [post_workers], fun p hp => ?_⟩
  unfold Session.post
  split
  · exact List.mem_append_left _ hp
  · rwa [tell_mail]

theorem scheduler (s : Session σ) (uri : Uri) : s.Grows (s.scheduler uri).1 := by
  unfold Session.scheduler
  split
  · exact of_eq rfl rfl
  · refine ⟨fun w k hk => ?_, fun _ hp => hp⟩
    rw [List.getElem?_append_left (List.getElem?_eq_some_iff.1 hk).1, hk]

theorem requestCompilation (s : Session σ) (uri : Uri) : s.Grows (s.requestCompilation uri) :=
  (scheduler s uri).trans (post _ _ _)

theorem stopScheduler (s : Session σ) (uri : Uri) : s.Grows (s.stopScheduler uri) := by
  unfold Session.stopScheduler
  split
  · exact of_eq rfl rfl
  · exact (of_eq (by rfl) (by rfl)).trans (post _ _ _)

theorem shutdown (s : Session σ) : s.Grows s.shutdown :=
  foldl_preserves (P := fun t : Session σ => s.Grows t) (fun t _ _ ht => ht.trans (post t _ _))
    (of_eq rfl rfl)

theorem inquire (s : Session σ) (id : MessageId) (question : DocumentRequest) :
    s.Grows (s.inquire id question) := by
  unfold Session.inquire
  split
  · exact of_eq rfl rfl
  · exact (scheduler s _).trans (of_eq rfl rfl)

theorem receive (s : Session σ) (m : Message) : s.Grows (s.receive h m) :=
  receive_induction (P := fun t : Session σ => s.Grows t)
    (fun _ _ same ht => ht.trans (of_eq same.workers same.mail)) m
    (fun t u ht => ht.trans (requestCompilation t u)) (fun t u ht => ht.trans (stopScheduler t u))
    (fun _ _ ht => ht.trans (of_eq rfl rfl)) (fun t ht => ht.trans (shutdown t))
    (fun t id question ht => ht.trans (inquire t id question)) (of_eq rfl rfl)

end Grows

/-! ### One worker -/

/-- All that a step from `s` to `t` can do to the worker `w`. -/
inductive Moves (h : Host σ) (s t : Session σ) (w : Nat) (k : Worker) : Step → Worker → Prop
  | stays {e : Step} (other : e.worker? ≠ some w) : Moves h s t w k e k
  | receives {order : Order Nat} (next : takeOrder? w s.mail = some (order, t.mail))
      (goes : (k.actor.receive s.now h.window order).1.stopped = false) :
      Moves h s t w k (.receive w)
        { k with actor := (k.actor.receive s.now h.window order).1 }
  | stops {order : Order Nat} (mem : (w, order) ∈ s.mail)
      (stops : (k.actor.receive s.now h.window order).1.stopped = true) :
      Moves h s t w k (.receive w)
        { k with
          actor := (k.actor.receive s.now h.window order).1
          stage := Stage.orphaned k.stage }
  | rests {time : Nat} (phase : k.actor.phase = .settling time) (live : k.actor.stopped = false)
      (done : k.actor.isUpToDate = true) :
      Moves h s t w k (.expire w) { k with actor := k.actor.rest.1, stage := none }
  | starts {time : Nat} (phase : k.actor.phase = .settling time) (live : k.actor.stopped = false)
      (due : k.actor.isUpToDate = false) :
      Moves h s t w k (.expire w)
        { k with
          actor := { k.actor with phase := .compiling k.actor.desired }
          stage := some .starting }
  | misses (stage : k.stage = some .starting) (closed : s.store.job? k.document = none) :
      Moves h s t w k (.call w)
        { k with actor := (k.actor.finish s.now h.window none).1, stage := none }
  | calls {job : Job} {project : Project} (stage : k.stage = some .starting)
      (opened : s.store.job? k.document = some job) :
      Moves h s t w k (.call w) { k with stage := some (.calling job project) }
  | yields {job : Job} {project : Project} {result : Except Crash Outcome}
      (stage : k.stage = some (.calling job project)) :
      Moves h s t w k (.yield w)
        { k with stage := if k.actor.stopped then none else some (.returned job.version result) }
  | accepts {version : Int} {result : Except Crash Outcome} {messages : List Outgoing}
      (stage : k.stage = some (.returned version result)) :
      Moves h s t w k (.accept w) { k with stage := some (.sending version messages) }
  | announces {version : Int} {m : Outgoing} {rest : List Outgoing}
      (stage : k.stage = some (.sending version (m :: rest))) :
      Moves h s t w k (.announce w) { k with stage := some (.sending version rest) }
  | finishes {version : Int} (stage : k.stage = some (.sending version [])) :
      Moves h s t w k (.announce w)
        { k with actor := (k.actor.finish s.now h.window (some version)).1, stage := none }

/-- A step of one worker leaves the others as they are. -/
theorem moves_of_changed {x : Worker} (worker : s.workers[w]? = some k) (mover : e.worker? = some v)
    (changed : ∀ i, t.workers[i]? = if i = v then some x else s.workers[i]?)
    (own : v = w → Moves h s t w k e x) : ∃ k', t.workers[w]? = some k' ∧ Moves h s t w k e k' := by
  by_cases hv : v = w
  · exact ⟨x, by rw [changed, if_pos hv.symm], own hv⟩
  · refine ⟨k, by rw [changed, if_neg (Ne.symm hv), worker], .stays ?_⟩
    rw [mover]
    exact fun he => hv (Option.some.inj he)

/-- **A worker stays in the session, and every step does one of these things to it.** -/
theorem moves_of_step (hstep : step? h s e = some t) (worker : s.workers[w]? = some k) :
    ∃ k', t.workers[w]? = some k' ∧ Moves h s t w k e k' := by
  have kept : e.worker? = none → s.Grows t → ∃ k', t.workers[w]? = some k' ∧ Moves h s t w k e k' :=
    fun other grows => ⟨k, grows.workers w k worker, .stays (by simp [other])⟩
  have own : ∀ {v k₀}, s.workers[v]? = some k₀ → v = w → k₀ = k := fun worker₀ he =>
    Option.some.inj ((he ▸ worker₀).symm.trans worker)
  cases taken_of_step? hstep with
  | handle m => exact kept rfl (.receive s m)
  | shutdown => exact kept rfl (.shutdown s)
  | tick time => exact kept rfl (.of_eq rfl rfl)
  | @receive v k₀ order mail worker₀ next free goes =>
    refine moves_of_changed worker rfl (getElem?_act (s := { s with mail }) worker₀ _ _) ?_
    rintro rfl
    obtain rfl := own worker₀ rfl
    exact .receives (by simpa [act, updateWorker] using next) goes
  | @stop v k₀ order mail worker₀ next free stops =>
    refine moves_of_changed (x := { k₀ with
      actor := (k₀.actor.receive s.now h.window order).1
      stage := Stage.orphaned k₀.stage }) worker rfl (fun i => ?_) ?_
    · rw [discardMail, tell_workers]
      exact getElem?_act (s := { s with mail }) worker₀ _ _ i
    · rintro rfl
      obtain rfl := own worker₀ rfl
      exact .stops (mem_of_takeOrder? next).1 stops
  | rest worker₀ phase elapsed live done =>
    refine moves_of_changed worker rfl (getElem?_act worker₀ _ _) fun he => ?_
    obtain rfl := own worker₀ he
    exact he ▸ .rests phase live done
  | start worker₀ phase elapsed live due =>
    refine moves_of_changed worker rfl (getElem?_act worker₀ _ _) fun he => ?_
    obtain rfl := own worker₀ he
    exact he ▸ .starts phase live due
  | miss worker₀ stage closed =>
    refine moves_of_changed worker rfl (getElem?_act worker₀ _ _) fun he => ?_
    obtain rfl := own worker₀ he
    exact he ▸ .misses stage closed
  | call worker₀ stage opened =>
    refine moves_of_changed worker rfl (getElem?_updateWorker worker₀) fun he => ?_
    obtain rfl := own worker₀ he
    exact he ▸ .calls stage opened
  | @yield v k₀ job project compiler cache result worker₀ stage run =>
    refine moves_of_changed worker rfl
      (getElem?_updateWorker (s := { s with compiler, cache }) worker₀) fun he => ?_
    obtain rfl := own worker₀ he
    exact he ▸ .yields stage
  | @accept v k₀ version result worker₀ stage =>
    refine moves_of_changed worker rfl (getElem?_updateWorker
      (s := { s with store := (afterCall s.store k₀.document result).1 }) worker₀) fun he => ?_
    obtain rfl := own worker₀ he
    exact he ▸ .accepts stage
  | announce worker₀ stage =>
    refine moves_of_changed worker rfl (getElem?_updateWorker worker₀) fun he => ?_
    obtain rfl := own worker₀ he
    exact he ▸ .announces stage
  | finish worker₀ stage =>
    refine moves_of_changed worker rfl (getElem?_act worker₀ _ _) fun he => ?_
    obtain rfl := own worker₀ he
    exact he ▸ .finishes stage
  | place => exact kept rfl ((Grows.of_eq (by rfl) (by rfl)).trans (.post _ _ _))
  | answerNothing | answer | giveUp => exact kept rfl (.of_eq (by rfl) (by rfl))

@[simp] theorem stopScheduler_workers (uri : Uri) : (s.stopScheduler uri).workers = s.workers := by
  unfold stopScheduler
  split
  · rfl
  · exact post_workers _ _

@[simp] theorem shutdown_workers : s.shutdown.workers = s.workers :=
  foldl_preserves (P := fun t : Session σ => t.workers = s.workers) (fun _ _ _ ht => by simp [ht]) rfl

/-- Only messages bring new workers. -/
theorem length_workers_of_step (hstep : step? h s e = some t) (silent : ∀ m, e ≠ .handle m) :
    t.workers.length = s.workers.length := by
  cases taken_of_step? hstep with
  | handle m => exact absurd rfl (silent m)
  | shutdown => rw [shutdown_workers]
  | place => simp [updateInquiry]
  | tick | answerNothing | answer | giveUp => rfl
  | receive | stop | rest | start | miss | finish => simp [act, discardMail, updateWorker]
  | call | yield | accept | announce => simp [updateWorker, send]

/-- What is true of new workers, and stays true whatever a step does to them, is true of all workers
after the step. -/
theorem forall_workers_step {P : Worker → Prop} (hstep : step? h s e = some t)
    (new : ∀ uri, P { document := uri })
    (moves : ∀ (w : Nat) (k k' : Worker), s.workers[w]? = some k → Moves h s t w k e k' → P k → P k')
    (all : ∀ k ∈ s.workers, P k) : ∀ k ∈ t.workers, P k := by
  by_cases message : ∃ m, e = .handle m
  · obtain ⟨m, rfl⟩ := message
    obtain rfl : s.receive h m = t := Option.some.inj hstep
    have hire : ∀ (t : Session σ) (uri : Uri), (∀ k ∈ t.workers, P k) →
        ∀ k ∈ (t.scheduler uri).1.workers, P k := by
      intro t uri ht k hk
      unfold Session.scheduler at hk
      split at hk
      · exact ht k hk
      · rcases List.mem_append.1 hk with hk | hk
        · exact ht k hk
        · rw [List.mem_singleton.1 hk]
          exact new uri
    refine receive_induction (P := fun t : Session σ => ∀ k ∈ t.workers, P k) ?_ m ?_ ?_ ?_ ?_ ?_ all
    · exact fun a b same ha k hk => ha k (same.workers ▸ hk)
    · exact fun a uri ha k hk => hire a uri ha k (by rwa [requestCompilation, post_workers] at hk)
    · exact fun a uri ha k hk => ha k (by rwa [stopScheduler_workers] at hk)
    · exact fun a i ha => ha
    · exact fun a ha k hk => ha k (by rwa [shutdown_workers] at hk)
    · intro a id question ha k hk
      unfold inquire at hk
      split at hk
      · exact ha k hk
      · exact hire a _ ha k hk
  · intro k' hk'
    obtain ⟨w, worker'⟩ := List.mem_iff_getElem?.1 hk'
    have length := length_workers_of_step hstep fun m he => message ⟨m, he⟩
    have hw : w < s.workers.length := length ▸ (List.getElem?_eq_some_iff.1 worker').1
    have worker := List.getElem?_eq_getElem hw
    obtain ⟨k'', worker'', hmoves⟩ := moves_of_step hstep worker
    obtain rfl : k' = k'' := Option.some.inj (worker'.symm.trans worker'')
    exact moves w _ k' worker hmoves (all _ (List.getElem_mem hw))

/-! ### Orders -/

/-- An order stays on its way until its worker takes one. -/
theorem mem_mail_of_step {order : Order Nat} (hstep : step? h s e = some t)
    (mem : (w, order) ∈ s.mail) (other : e ≠ .receive w) : (w, order) ∈ t.mail := by
  have taken : ∀ {v : Nat} {o : Order Nat} {mail : List (Nat × Order Nat)},
      takeOrder? v s.mail = some (o, mail) → v ≠ w → (w, order) ∈ mail := by
    intro v o mail next hv
    obtain ⟨before, after, he, -, rfl⟩ := takeOrder?_eq next
    rw [he] at mem
    have hne : (w, order) ≠ (v, o) := fun he => hv (Prod.mk.inj he).1.symm
    simpa [hne] using mem
  cases taken_of_step? hstep with
  | handle m => exact (Grows.receive s m).mail _ mem
  | shutdown => exact (Grows.shutdown s).mail _ mem
  | @receive v k order mail worker next =>
    rw [act, tell_mail]
    exact taken next fun hv => other (by rw [hv])
  | @stop v k order mail worker next =>
    have hv : v ≠ w := fun hv => other (by rw [hv])
    rw [discardMail, tell_mail, act, tell_mail]
    exact List.mem_filter.2 ⟨taken next hv, by simpa using Ne.symm hv⟩
  | rest | start | miss | finish => rw [act, tell_mail]; exact mem
  | place => exact (Grows.post _ _ _).mail _ mem
  | tick | call | yield | accept | announce | answerNothing | answer | giveUp => exact mem

end Session

/-! ### Stages and phases -/

/-- A live worker has a compilation exactly when its actor is in one, which started when nothing newer
was wanted than now. -/
structure Worker.Apt (k : Worker) : Prop where
  stage : k.actor.stopped = false →
    (k.stage = none ↔ ∀ target, k.actor.phase ≠ .compiling target)
  target : ∀ target, k.actor.phase = .compiling target → versionLt k.actor.desired target = false

namespace Worker

variable {k : Worker} {now window : Nat} {order : Order Nat}

theorem apt_new (uri : Uri) : { document := uri : Worker }.Apt :=
  ⟨fun _ => by simp, fun _ phase => by cases phase⟩

/-- A compilation that ended. -/
theorem apt_finish (k : Worker) (now window : Nat) (result : Option Int) :
    { k with actor := (k.actor.finish now window result).1, stage := none : Worker }.Apt :=
  ⟨fun _ => ⟨fun _ => Actor.finish_not_compiling _, fun _ => rfl⟩,
    fun target phase => absurd phase (Actor.finish_not_compiling _ target)⟩

namespace Apt

/-- A compilation that goes on. -/
theorem restage (ha : k.Apt) {stage : Option Stage}
    (same : k.actor.stopped = false → (stage = none ↔ k.stage = none)) :
    { k with stage : Worker }.Apt :=
  ⟨fun live => (same live).trans (ha.stage live), ha.target⟩

/-- An order that does not stop the actor. -/
theorem receive (ha : k.Apt) (live : k.actor.stopped = false) :
    { k with actor := (k.actor.receive now window order).1 : Worker }.Apt where
  stage := fun _ => (ha.stage live).trans
    (forall_congr' fun _ => not_congr (Actor.receive_compiling live).symm)
  target := fun target phase => versionLt_trans_false (Actor.receive_desired live)
    (ha.target target ((Actor.receive_compiling live).1 phase))

/-- An order that stops the actor, or finds it stopped. -/
theorem stop (ha : k.Apt) (stops : (k.actor.receive now window order).1.stopped = true)
    (stage : Option Stage) :
    { k with actor := (k.actor.receive now window order).1, stage : Worker }.Apt where
  stage := fun live => by cases stops.symm.trans live
  target := by
    cases live : k.actor.stopped with
    | true =>
      rw [Actor.receive_of_stopped live]
      exact ha.target
    | false => exact (ha.receive live).target

end Apt

end Worker

namespace Session

variable {σ : Type} {s t : Session σ} {h : Host σ} {w : Nat} {k k' : Worker} {e : Step}

theorem Moves.apt (moves : Moves h s t w k e k') (ha : k.Apt) : k'.Apt := by
  cases moves with
  | stays => exact ha
  | receives next goes =>
    refine ha.receive ?_
    cases live : k.actor.stopped with
    | false => rfl
    | true => rwa [Actor.receive_of_stopped live, live] at goes
  | stops mem stops => exact ha.stop stops _
  | rests => exact ⟨fun _ => by simp [Actor.rest], fun target phase => by simp [Actor.rest] at phase⟩
  | starts => exact ⟨fun _ => by simp, fun target phase => by cases phase; exact versionLt_self _⟩
  | misses | finishes => exact k.apt_finish _ _ _
  | calls stage => exact ha.restage fun _ => by simp [stage]
  | yields stage => exact ha.restage fun live => by simp [stage, live]
  | accepts stage | announces stage => exact ha.restage fun _ => by simp [stage]

/-- Only an order to stop stops a worker. -/
theorem Moves.live (moves : Moves h s t w k e k') (live : k.actor.stopped = false)
    (unstopped : (w, Order.stop) ∉ s.mail) : k'.actor.stopped = false := by
  cases moves with
  | receives next goes => exact goes
  | stops mem stops =>
    rw [(Actor.receive_stopped live).1 stops] at mem
    exact absurd mem unstopped
  | stays | rests | starts | calls | yields | accepts | announces => exact live
  | misses | finishes => exact (Actor.finish_stopped _).trans live

/-- All workers are apt in every session that a server can come to. -/
theorem apt_of_reaches {compiler : σ} (hr : Reaches h { compiler } s)
    (worker : s.workers[w]? = some k) : k.Apt := by
  obtain ⟨es, run⟩ := hr
  refine run.invariant (I := fun s : Session σ => ∀ k ∈ s.workers, k.Apt) ?_ (by simp) k
    (List.mem_of_getElem? worker)
  exact fun s e t all _ hstep =>
    forall_workers_step hstep Worker.apt_new (fun _ _ _ _ moves ha => moves.apt ha) all

/-! ### Those who work for a document -/

/-- Whoever works for a document takes orders, and no order to stop is on its way to it. -/
def Appointed (s : Session σ) : Prop :=
  ∀ p ∈ s.schedulers, s.isOpen p.2 = true ∧ (p.2, Order.stop) ∉ s.mail

namespace Appointed

theorem frame (ha : Appointed s) (workers : t.workers = s.workers)
    (schedulers : ∀ p ∈ t.schedulers, p ∈ s.schedulers)
    (mail : ∀ w, (w, Order.stop) ∈ t.mail → (w, Order.stop) ∈ s.mail) : Appointed t := by
  intro p hp
  obtain ⟨opened, unstopped⟩ := ha p (schedulers p hp)
  refine ⟨?_, fun hm => unstopped (mail _ hm)⟩
  rwa [isOpen, workers]

theorem tell (ha : Appointed s) (vs : List (Nat × Verdict)) : Appointed (s.tell vs) :=
  ha.frame (tell_workers vs) (fun p hp => by rwa [tell_schedulers] at hp)
    fun w hm => by rwa [tell_mail] at hm

/-- An order is on its way, which is none to stop someone who works for a document. -/
theorem post (ha : Appointed s) {order : Order Nat}
    (other : order = .stop → ∀ p ∈ s.schedulers, p.2 ≠ w) : Appointed (s.post w order) := by
  unfold Session.post
  split
  · intro p hp
    obtain ⟨opened, unstopped⟩ := ha p hp
    refine ⟨opened, fun hm => ?_⟩
    rcases List.mem_append.1 hm with hm | hm
    · exact unstopped hm
    · obtain ⟨hw, ho⟩ := Prod.mk.inj (List.mem_singleton.1 hm)
      exact other ho.symm p hp hw
  · exact ha.tell _

theorem scheduler (ha : Appointed s) (hs : Sound s) (uri : Uri) : Appointed (s.scheduler uri).1 := by
  unfold Session.scheduler
  split
  · exact ha
  · intro p hp
    rcases List.mem_append.1 hp with hp | hp
    · obtain ⟨opened, unstopped⟩ := ha p hp
      obtain ⟨k, worker, live⟩ := isOpen_iff.1 opened
      refine ⟨isOpen_iff.2 ⟨k, ?_, live⟩, unstopped⟩
      rw [List.getElem?_append_left (List.getElem?_eq_some_iff.1 worker).1, worker]
    · rw [List.mem_singleton.1 hp]
      refine ⟨isOpen_iff.2 ⟨_, List.getElem?_concat_length, rfl⟩, fun hm => ?_⟩
      -- no order is on its way to somebody who is not there yet
      have := hs.addressed _ hm
      simp [staff] at this

theorem requestCompilation (ha : Appointed s) (hs : Sound s) (uri : Uri) :
    Appointed (s.requestCompilation uri) :=
  (ha.scheduler hs uri).post (by simp)

theorem stopScheduler (ha : Appointed s) (hs : Sound s) (uri : Uri) :
    Appointed (s.stopScheduler uri) := by
  unfold Session.stopScheduler
  split
  · exact ha
  · next u w found =>
    have hu : u = uri := by simpa using List.find?_some found
    have works := hs.schedulers _ (List.mem_of_find?_eq_some found)
    have fewer : Appointed { s with schedulers := s.schedulers.filter (·.1 != uri) } :=
      ha.frame rfl (fun p hp => (List.mem_filter.1 hp).1) fun _ hm => hm
    -- a worker works for one document only
    refine fewer.post fun _ p hp hw => ?_
    obtain ⟨mem, name⟩ := List.mem_filter.1 hp
    have := hs.schedulers p mem
    rw [hw, works] at this
    simp [← Option.some.inj this, hu] at name

theorem shutdown (s : Session σ) : Appointed s.shutdown := by
  intro p hp
  rw [shutdown_schedulers] at hp
  cases hp

theorem inquire (ha : Appointed s) (hs : Sound s) (id : MessageId) (question : DocumentRequest) :
    Appointed (s.inquire id question) := by
  unfold Session.inquire
  split
  · exact ha.frame rfl (fun _ hp => hp) fun _ hm => hm
  · exact (ha.scheduler hs _).frame rfl (fun _ hp => hp) fun _ hm => hm

theorem receive (ha : Appointed s) (hs : Sound s) (m : Message) : Appointed (s.receive h m) := by
  have both : Sound (s.receive h m) ∧ Appointed (s.receive h m) := by
    refine receive_induction (P := fun s : Session σ => Sound s ∧ Appointed s) ?_ m ?_ ?_ ?_ ?_ ?_
      ⟨hs, ha⟩
    · exact fun _ _ same hp => ⟨hp.1.frame same, hp.2.frame same.workers
        (fun _ hp => same.schedulers ▸ hp) fun _ hm => same.mail ▸ hm⟩
    · exact fun _ u hp => ⟨hp.1.requestCompilation u, hp.2.requestCompilation hp.1 u⟩
    · exact fun _ u hp => ⟨hp.1.stopScheduler u, hp.2.stopScheduler hp.1 u⟩
    · exact fun _ i hp => ⟨hp.1.updateInquiry (f := fun q => { q with cancelled := true })
        (fun _ => rfl) i, hp.2.frame rfl (fun _ hp => hp) fun _ hm => hm⟩
    · exact fun s hp => ⟨hp.1.shutdown, shutdown s⟩
    · exact fun _ id question hp => ⟨hp.1.inquire id question, hp.2.inquire hp.1 id question⟩
  exact both.2

/-- A step of a worker or an inquiry sends no order to stop. -/
theorem of_moves (ha : Appointed s) (hstep : step? h s e = some t)
    (schedulers : t.schedulers = s.schedulers)
    (mail : ∀ w, (w, Order.stop) ∈ t.mail → (w, Order.stop) ∈ s.mail) : Appointed t := by
  intro p hp
  obtain ⟨opened, unstopped⟩ := ha p (schedulers ▸ hp)
  obtain ⟨k, worker, live⟩ := isOpen_iff.1 opened
  obtain ⟨k', worker', moves⟩ := moves_of_step hstep worker
  exact ⟨isOpen_iff.2 ⟨k', worker', moves.live live unstopped⟩, fun hm => unstopped (mail _ hm)⟩

theorem step (ha : Appointed s) (hs : Sound s) (hstep : step? h s e = some t) : Appointed t := by
  cases taken_of_step? hstep with
  | handle m => exact ha.receive hs m
  | shutdown => exact .shutdown s
  | receive worker next =>
    refine ha.of_moves hstep (by simp [act, updateWorker]) fun w hm => ?_
    rw [act, tell_mail] at hm
    exact (mem_of_takeOrder? next).2 _ hm
  | stop worker next =>
    refine ha.of_moves hstep (by simp [discardMail, act, updateWorker]) fun w hm => ?_
    rw [discardMail, tell_mail, act, tell_mail] at hm
    exact (mem_of_takeOrder? next).2 _ (List.mem_filter.1 hm).1
  | rest | start | miss | finish =>
    refine ha.of_moves hstep (by simp [act, updateWorker]) fun w hm => ?_
    rwa [act, tell_mail] at hm
  | @place i q =>
    have placed : Appointed (s.updateInquiry i fun q => { q with wait := .placed }) :=
      ha.frame rfl (fun _ hp => hp) fun _ hm => hm
    exact placed.post (by simp)
  | tick | call | yield | accept | announce | answerNothing | answer | giveUp =>
    exact ha.of_moves hstep (by rfl) fun _ hm => hm

end Appointed

theorem appointed_of_reaches {compiler : σ} (hr : Reaches h { compiler } s) : Appointed s := by
  obtain ⟨es, run⟩ := hr
  have both : Sound s ∧ Appointed s :=
    run.invariant (I := fun s : Session σ => Sound s ∧ Appointed s)
      (fun _ _ _ hp _ hstep => ⟨hp.1.step hstep, hp.2.step hp.1 hstep⟩)
      ⟨sound_empty compiler, by simp [Appointed]⟩
  exact both.2

end Session

end LanguageServer
