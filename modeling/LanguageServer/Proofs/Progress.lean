import LanguageServer.Proofs.Serving
import LanguageServer.Proofs.Waiting

/-!
# The worker of an open document always gets done

Whatever happened before, some steps of the worker lead to rest without mail, unless the compiler
crashes. Then nobody waits for it any more.

* `Compiler.Robust`: a compiler that does not crash;
* `Session.Leads`, `Session.Can`: what some steps can lead to, and what some can that leave a document
  open;
* `Session.Serving.can_rest`: the worker can come to rest with no order on its way;
* `Session.Serving.can_answer`: whoever waits for it can be answered.
-/

namespace LanguageServer

/-- A compiler that does not crash on any document. -/
def Compiler.Robust {σ : Type} (c : Compiler σ) : Prop :=
  ∀ (job : Job) settings project cache state, ∃ o, (job.run c settings project cache state).2.2 = .ok o

namespace Session

variable {σ : Type} {h : Host σ} {s t : Session σ} {uri : Uri} {w i : Nat} {V : Int}
  {A : Option Int} {k : Worker} {P Q : Session σ → Prop}

/-- Some steps of a kind lead to a session with a property. -/
def Leads (h : Host σ) (allowed : Session σ → Step → Prop) (s : Session σ) (P : Session σ → Prop) :
    Prop :=
  ∃ es t, Run (step? h) allowed s es t ∧ P t

namespace Leads

variable {allowed : Session σ → Step → Prop}

theorem now (hp : P s) : Leads h allowed s P := ⟨[], s, .nil s, hp⟩

theorem step {e : Step} (ok : allowed s e) (hs : step? h s e = some t) (rest : Leads h allowed t P) :
    Leads h allowed s P := by
  obtain ⟨es, u, run, hp⟩ := rest
  exact ⟨e :: es, u, .cons ok hs run, hp⟩

theorem trans (first : Leads h allowed s P) (rest : ∀ t, P t → Leads h allowed t Q) :
    Leads h allowed s Q := by
  obtain ⟨es, t, run, hp⟩ := first
  obtain ⟨fs, u, run', hq⟩ := rest t hp
  exact ⟨es ++ fs, u, run.trans run', hq⟩

theorem mono (first : Leads h allowed s P) (imp : ∀ t, P t → Q t) : Leads h allowed s Q := by
  obtain ⟨es, t, run, hp⟩ := first
  exact ⟨es, t, run, imp t hp⟩

end Leads

/-- Some steps that leave a document open lead to a session with a property. -/
def Can (h : Host σ) (uri : Uri) (s : Session σ) (P : Session σ → Prop) : Prop :=
  ∃ es t, Run (step? h) (LeavesOpen h uri) s es t ∧ P t

namespace Can

theorem now (hp : P s) : Can h uri s P := Leads.now hp

theorem step {e : Step} (ok : s.LeavesOpen h uri e) (hs : step? h s e = some t)
    (rest : Can h uri t P) : Can h uri s P := Leads.step ok hs rest

theorem trans (first : Can h uri s P) (rest : ∀ t, P t → Can h uri t Q) : Can h uri s Q :=
  Leads.trans first rest

/-- The document is still served then. -/
theorem serving (first : Can h uri s P) (hv : s.Serving uri w V A) :
    Can h uri s fun t => (∃ V A, t.Serving uri w V A) ∧ P t := by
  obtain ⟨es, t, run, hp⟩ := first
  exact ⟨es, t, run, Serving.run run hv, hp⟩

end Can

/-- The worker `w` has an actor with a property, and the mail is as it was in `s`. -/
def Turns (s : Session σ) (w : Nat) (P : Actor Nat → Prop) (t : Session σ) : Prop :=
  t.mail = s.mail ∧ ∃ k, t.workers[w]? = some k ∧ P k.actor

theorem workers_updateWorker_self {f : Worker → Worker} (worker : s.workers[w]? = some k) :
    (s.updateWorker w f).workers[w]? = some (f k) := by
  rw [getElem?_updateWorker worker, if_pos rfl]

theorem workers_act_self (worker : s.workers[w]? = some k) (stage : Option Stage)
    (r : Actor Nat × List (Nat × Verdict)) :
    (s.act w k stage r).workers[w]? = some { k with actor := r.1, stage } := by
  rw [getElem?_act worker, if_pos rfl]

section

variable {allowed : Session σ → Step → Prop}

/-- The messages of a compilation can be sent, and then it ends. -/
theorem leads_finish {v : Int} {rest : List Outgoing} (announce : ∀ t, allowed t (.announce w))
    (worker : s.workers[w]? = some k) (stage : k.stage = some (.sending v rest)) :
    Leads h allowed s (s.Turns w fun a => ∃ n, a = (k.actor.finish n h.window (some v)).1) := by
  induction rest generalizing s k with
  | nil =>
    refine .step (e := .announce w) (announce s) (t := s.act w k none
      (k.actor.finish s.now h.window (some v))) (by simp [step?, announce?, worker, stage])
      (.now ⟨?_, _, workers_act_self worker none _, s.now, rfl⟩)
    simp [act, updateWorker]
  | cons m rest ih =>
    refine .step (e := .announce w) (announce s) (t := (s.updateWorker w fun k =>
      { k with stage := some (.sending v rest) }).send m)
      (by simp [step?, announce?, worker, stage]) ?_
    exact ih (k := { k with stage := some (.sending v rest) })
      (workers_updateWorker_self worker) rfl

theorem leads_accept {v : Int} {result : Except Crash Outcome} (accept : ∀ t, allowed t (.accept w))
    (announce : ∀ t, allowed t (.announce w)) (worker : s.workers[w]? = some k)
    (stage : k.stage = some (.returned v result)) :
    Leads h allowed s (s.Turns w fun a => ∃ n, a = (k.actor.finish n h.window (some v)).1) := by
  let t : Session σ := { s with store := (afterCall s.store k.document result).1 }.updateWorker w
    fun k' => { k' with stage := some (.sending v (afterCall s.store k.document result).2) }
  refine .step (e := .accept w) (accept s) (t := t) (by simp [step?, accept?, worker, stage, t]) ?_
  exact leads_finish (k := { k with
    stage := some (.sending v (afterCall s.store k.document result).2) }) announce
    (workers_updateWorker_self worker) rfl

theorem leads_yield {job : Job} {project : Project} (yield : allowed s (.yield w))
    (accept : ∀ t, allowed t (.accept w)) (announce : ∀ t, allowed t (.announce w))
    (worker : s.workers[w]? = some k) (live : k.actor.stopped = false)
    (stage : k.stage = some (.calling job project)) :
    Leads h allowed s
      (s.Turns w fun a => ∃ n, a = (k.actor.finish n h.window (some job.version)).1) := by
  let call := job.run h.compiler (compilerSettings h.files s.store project) project s.cache s.compiler
  let t : Session σ := { s with compiler := call.1, cache := call.2.1 }.updateWorker w
    fun k' => { k' with stage := some (.returned job.version call.2.2) }
  refine .step (e := .yield w) yield (t := t)
    (by simp [step?, yield?, worker, stage, live, t, call]) ?_
  exact leads_accept (k := { k with stage := some (.returned job.version call.2.2) }) accept announce
    (workers_updateWorker_self worker) rfl

end

theorem Turns.imp {P Q : Actor Nat → Prop} (imp : ∀ a, P a → Q a) (turns : s.Turns w P t) :
    s.Turns w Q t := by
  obtain ⟨mail, k, worker, hp⟩ := turns
  exact ⟨mail, k, worker, imp _ hp⟩

theorem can_yield {job : Job} {project : Project} (robust : h.compiler.Robust)
    (worker : s.workers[w]? = some k) (live : k.actor.stopped = false)
    (stage : k.stage = some (.calling job project)) :
    Can h uri s (s.Turns w fun a => ∃ n v, a = (k.actor.finish n h.window (some v)).1) :=
  (leads_yield (fun _ job project _ _ _ => robust job _ project _ _) (fun _ => trivial)
    (fun _ => trivial) worker live stage).mono fun _ => Turns.imp fun _ ⟨n, ha⟩ => ⟨n, _, ha⟩

theorem can_call {job : Job} (robust : h.compiler.Robust) (worker : s.workers[w]? = some k)
    (live : k.actor.stopped = false) (stage : k.stage = some .starting)
    (opened : s.store.job? k.document = some job) :
    Can h uri s (s.Turns w fun a => ∃ n v, a = (k.actor.finish n h.window (some v)).1) := by
  let calling : Stage := .calling job (Project.discover h.files job.files s.settings)
  refine .step (e := .call w) trivial (t := s.updateWorker w fun k => { k with stage := some calling })
    (by simp [step?, call?, worker, stage, opened, calling]) ?_
  exact can_yield (k := { k with stage := some calling }) robust
    (workers_updateWorker_self worker) live rfl

namespace Serving

/-- A compilation that is under way can end. -/
theorem can_end (hv : s.Serving uri w V A) (robust : h.compiler.Robust)
    (worker : s.workers[w]? = some k) {target : Option Int}
    (phase : k.actor.phase = .compiling target) :
    Can h uri s (s.Turns w fun a => ∃ n v, a = (k.actor.finish n h.window (some v)).1) := by
  obtain ⟨k', hk', hu, instep⟩ := hv.crew.worker
  obtain rfl : k = k' := Option.some.inj (worker.symm.trans hk')
  obtain ⟨d, hd, -⟩ := hv.document
  have fits := instep.stage
  unfold Worker.StageFits at fits
  split at fits
  · exact absurd phase (fits target)
  · next stage =>
    have opened : ∃ job, s.store.job? k.document = some job := by
      rw [hu]
      simp [Store.job?, hd]
    obtain ⟨job, opened⟩ := opened
    exact can_call robust worker instep.live stage opened
  · next stage => exact can_yield robust worker instep.live stage
  · next stage =>
    exact (leads_accept (fun _ => trivial) (fun _ => trivial) worker stage).mono fun _ =>
      Turns.imp fun _ ⟨n, ha⟩ => ⟨n, _, ha⟩
  · next stage =>
    exact (leads_finish (fun _ => trivial) worker stage).mono fun _ =>
      Turns.imp fun _ ⟨n, ha⟩ => ⟨n, _, ha⟩

/-- A window can end, with rest or with a compilation of what is wanted. -/
theorem can_expire (hv : s.Serving uri w V A) (worker : s.workers[w]? = some k) {time : Nat}
    (phase : k.actor.phase = .settling time) :
    Can h uri s (s.Turns w fun a => a.phase = .idle ∨ a.phase = .compiling a.desired) := by
  obtain ⟨k', hk', -, instep⟩ := hv.crew.worker
  obtain rfl : k = k' := Option.some.inj (worker.symm.trans hk')
  let later : Session σ := { s with now := s.now + time }
  have elapsed : ¬ s.now + time < time := by omega
  refine .step (e := .tick time) trivial (t := later) rfl ?_
  obtain ⟨-, he⟩ | ⟨-, he⟩ := Actor.expire_cases k.actor
  · refine .step (e := .expire w) trivial (t := later.act w k none k.actor.rest) ?_
      (.now ⟨?_, _, workers_act_self (s := later) worker none _, Or.inl rfl⟩)
    · simp [step?, expire?, later, worker, phase, instep.live, elapsed, he, Actor.rest]
    · simp [act, updateWorker, later]
  · let compiling : Actor Nat := { k.actor with phase := .compiling k.actor.desired }
    refine .step (e := .expire w) trivial (t := later.act w k (some .starting) (compiling, [])) ?_
      (.now ⟨?_, _, workers_act_self (s := later) worker _ _, Or.inr rfl⟩)
    · simp [step?, expire?, later, worker, phase, instep.live, elapsed, he, compiling]
    · simp [act, updateWorker, later]

/-- A compilation of what is wanted can lead to rest. -/
theorem can_idle_of_wanted (hv : s.Serving uri w V A) (robust : h.compiler.Robust)
    (worker : s.workers[w]? = some k) (phase : k.actor.phase = .compiling k.actor.desired) :
    Can h uri s (s.Turns w fun a => a.phase = .idle) := by
  refine (hv.can_end robust worker phase).trans ?_
  rintro t ⟨hm, k', hk', n, v, ha⟩
  exact .now ⟨hm, k', hk', by rw [ha, Actor.finish_of_wanted phase]; rfl⟩

theorem can_idle_of_settling (hv : s.Serving uri w V A) (robust : h.compiler.Robust)
    (worker : s.workers[w]? = some k) {time : Nat} (phase : k.actor.phase = .settling time) :
    Can h uri s (s.Turns w fun a => a.phase = .idle) := by
  refine ((hv.can_expire worker phase).serving hv).trans ?_
  rintro t ⟨⟨V', A', hv'⟩, hm, k', hk', idle | wanted⟩
  · exact .now ⟨hm, k', hk', idle⟩
  · refine (hv'.can_idle_of_wanted robust hk' wanted).trans ?_
    rintro u ⟨hm', k'', hk'', idle⟩
    exact .now ⟨hm'.trans hm, k'', hk'', idle⟩

/-- The worker can come to rest. -/
theorem can_idle (hv : s.Serving uri w V A) (robust : h.compiler.Robust) :
    Can h uri s (s.Turns w fun a => a.phase = .idle) := by
  obtain ⟨k, worker, -, -⟩ := hv.crew.worker
  cases phase : k.actor.phase with
  | idle => exact .now ⟨rfl, k, worker, phase⟩
  | settling time => exact hv.can_idle_of_settling robust worker phase
  | compiling target =>
    refine ((hv.can_end robust worker phase).serving hv).trans ?_
    rintro t ⟨⟨V', A', hv'⟩, hm, k', hk', n, v, ha⟩
    obtain ⟨-, he⟩ | ⟨-, he⟩ := Actor.finish_cases k.actor n h.window (some v)
    · exact .now ⟨hm, k', hk', by rw [ha, he]; rfl⟩
    · have settling : k'.actor.phase = .settling (n + h.window) := by rw [ha, he]
      refine (hv'.can_idle_of_settling robust hk' settling).trans ?_
      rintro u ⟨hm', k'', hk'', idle⟩
      exact .now ⟨hm'.trans hm, k'', hk'', idle⟩

/-- A worker at rest can take its next order. -/
theorem can_receive (worker : s.workers[w]? = some k) (hv : s.Serving uri w V A)
    (idle : k.actor.phase = .idle) {order : Order Nat} (hm : (w, order) ∈ s.mail) :
    Can h uri s fun t => t.mail.length < s.mail.length := by
  obtain ⟨k', hk', -, instep⟩ := hv.crew.worker
  obtain rfl : k = k' := Option.some.inj (worker.symm.trans hk')
  obtain ⟨first, mail, next⟩ := takeOrder?_of_mem hm
  have goes : (k.actor.receive s.now h.window first).1.stopped = false :=
    (hv.takeOrder worker (mem_of_takeOrder? next).1 s.now h.window).live
  have free : Stage.isSending k.stage = false := by rw [instep.stage_eq_none idle]; rfl
  refine .step (e := .receive w) trivial (t := { s with mail }.act w k k.stage
    (k.actor.receive s.now h.window first)) ?_ (.now ?_)
  · simp [step?, receiveOrder?, worker, next, free, goes]
  · obtain ⟨before, after, hmail, -, rfl⟩ := takeOrder?_eq next
    simp [act, updateWorker, hmail]

/-- **The worker can come to rest with no order on its way.** -/
theorem can_rest (hv : s.Serving uri w V A) (robust : h.compiler.Robust) :
    Can h uri s fun t => (∀ order, (w, order) ∉ t.mail) ∧
      ∃ k, t.workers[w]? = some k ∧ k.actor.phase = .idle := by
  -- each order that is taken makes the mail shorter, and the steps to rest leave it as it is
  induction hn : s.mail.length using Nat.strongRecOn generalizing s V A with
  | ind n ih =>
    refine ((hv.can_idle robust).serving hv).trans ?_
    rintro t ⟨⟨V', A', hv'⟩, hm, k, hk, idle⟩
    by_cases empty : ∀ order, (w, order) ∉ t.mail
    · exact .now ⟨empty, k, hk, idle⟩
    · simp only [not_forall, not_not] at empty
      obtain ⟨order, ho⟩ := empty
      refine ((can_receive hk hv' idle ho).serving hv').trans ?_
      rintro u ⟨⟨V'', A'', hv''⟩, hlen⟩
      exact ih u.mail.length (by rw [← hn, ← hm]; exact hlen) hv'' rfl

/-- An inquiry can place its order. -/
theorem can_place (hv : s.Serving uri w V A) {q : Inquiry} (hq : s.inquiries[i]? = some q)
    (worker : q.worker = w) :
    Can h uri s fun t => ∃ q', t.inquiries[i]? = some q' ∧ q'.worker = w ∧ q'.wait ≠ .unplaced := by
  by_cases unplaced : q.wait = .unplaced
  · let placing : Session σ := s.updateInquiry i fun q => { q with wait := .placed }
    have opened : placing.isOpen q.worker = true := by rw [worker]; exact hv.crew.isOpen
    refine .step (e := .place i) trivial
      (t := placing.post q.worker (.compile q.version (some i)))
      (by simp [step?, place?, hq, unplaced, placing])
      (.now ⟨{ q with wait := .placed }, ?_, worker, ?_⟩)
    · simp [post, opened]
      simp [placing, updateInquiry, hq]
    · simp
  · exact .now ⟨q, hq, worker, unplaced⟩

/-- An inquiry that was told something can answer. -/
theorem can_conclude {q : Inquiry} {verdict : Verdict} (hq : s.inquiries[i]? = some q)
    (told : q.wait = .told verdict) :
    Can h uri s fun t => ∃ q', t.inquiries[i]? = some q' ∧ q'.wait = .answered := by
  have concluded : ∀ m, ∃ q', (s.conclude i q m).inquiries[i]? = some q' ∧ q'.wait = .answered :=
    fun m => ⟨{ q with wait := .answered }, by simp [conclude, send, updateInquiry, hq], rfl⟩
  cases verdict with
  | closed =>
    exact .step (e := .answer i) trivial (by simp [step?, answer?, hq, told]; rfl)
      (.now (concluded _))
  | released =>
    exact .step (e := .answer i) trivial (by simp [step?, answer?, hq, told]; rfl)
      (.now (concluded _))

/-- **Whoever waits for the worker of an open document can be answered.** -/
theorem can_answer (hv : s.Serving uri w V A) (ha : Attentive s) (robust : h.compiler.Robust)
    {q : Inquiry} (hq : s.inquiries[i]? = some q) (worker : q.worker = w) :
    Can h uri s fun t => ∃ q', t.inquiries[i]? = some q' ∧ q'.wait = .answered := by
  -- the order is placed, the worker comes to rest without mail, and then nobody waits any more
  obtain ⟨es, t, run, q₁, hq₁, worker₁, placed⟩ := hv.can_place (h := h) hq worker
  obtain ⟨V₁, A₁, hv₁⟩ := hv.run run
  obtain ⟨fs, u, run', empty, k, hk, idle⟩ := hv₁.can_rest robust
  obtain ⟨V₂, A₂, hv₂⟩ := hv₁.run run'
  obtain ⟨q₂, hq₂, -, hterms, hunplaced⟩ := inquiry_run run' hq₁
  have attentive : Attentive u := (run.trans run').invariant (I := Attentive)
    (fun _ _ _ ha _ hstep => ha.step hstep) ha
  have worker₂ : q₂.worker = w := by
    simp only [Inquiry.terms, Prod.mk.injEq] at hterms
    exact hterms.2.1.trans worker₁
  have last : Can h uri u fun t => ∃ q', t.inquiries[i]? = some q' ∧ q'.wait = .answered := by
    cases wait : q₂.wait with
    | unplaced => exact absurd (hunplaced wait) placed
    | placed =>
      -- the order was taken, and a worker at rest holds nobody
      rcases attentive i w ⟨q₂, hq₂, wait, worker₂⟩ with ⟨v, hv⟩ | ⟨k', hk', held⟩
      · exact absurd hv (empty _)
      · obtain rfl : k = k' := Option.some.inj (hk.symm.trans hk')
        obtain ⟨k', hk', -, instep⟩ := hv₂.crew.worker
        obtain rfl : k = k' := Option.some.inj (hk.symm.trans hk')
        rw [(instep.rested idle).1] at held
        cases held
    | told verdict => exact can_conclude hq₂ wait
    | answered => exact .now ⟨q₂, hq₂, wait⟩
  obtain ⟨gs, x, run'', hx⟩ := last
  exact ⟨es ++ fs ++ gs, x, (run.trans run').trans run'', hx⟩

end Serving

end Session

end LanguageServer
