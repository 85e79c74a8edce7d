import LanguageServer.Proofs.Reopening
import LanguageServer.Proofs.Staffing

/-!
# Saved texts

A text that comes with a saving replaces that of the document, but the version stays. The worker of the
document is told to compile that version, and knows work by its version only.

* `Session.StaysOpen`: the steps that close no document of a name;
* `Worker.Continues`, `Session.Due`: a worker that is going to read the store again;
* `Session.due_step`: it stays due until it does;
* `Session.saved_text_compiled_iff`: a saved text is sure to be compiled exactly if the worker is due.
-/

namespace LanguageServer

/-! ### What a worker is going to do -/

namespace Worker

/-- The version that a compilation has read in the store. -/
def underWay (k : Worker) : Option Int :=
  match k.stage with
  | some (.calling job _) => some job.version
  | some (.returned version _) => some version
  | some (.sending version _) => some version
  | some .starting | none => none

/-- The version that is compiled once the present compilation is done. -/
def assured (k : Worker) : Option Int := laterVersion k.actor.compiled k.underWay

/-- Another compilation is going to start, whatever else is asked for. -/
def Continues (k : Worker) : Prop :=
  match k.actor.phase with
  | .idle => False
  | .settling _ => k.actor.isUpToDate = false
  | .compiling target => k.stage = some .starting ∨
      target ≠ k.actor.desired ∧ versionLt k.assured k.actor.desired = true

/-- A version that is wanted already, or assured; or a newer one is. -/
def Expects (k : Worker) (v : Int) : Prop :=
  HasReached (laterVersion k.actor.desired k.assured) v

variable {k : Worker} {v : Int} {i : Option Nat} {now window : Nat}

theorem assured_of_stage (stage : k.stage = none) : k.assured = k.actor.compiled := by
  simp [assured, underWay, stage]

/-- A worker that is in no compilation has nothing under way. -/
theorem Apt.assured (apt : k.Apt) (live : k.actor.stopped = false)
    (phase : ∀ target, k.actor.phase ≠ .compiling target) : k.assured = k.actor.compiled :=
  assured_of_stage ((apt.stage live).2 phase)

/-- An order that brings news leads to another compilation if its version is not assured. -/
theorem continues_of_news (apt : k.Apt) (live : k.actor.stopped = false)
    (news : k.actor.isNews v = true)
    (ahead : k.stage = some .starting ∨ versionLt k.assured (some v) = true) :
    { k with actor := (k.actor.receive now window (.compile v i)).1 : Worker }.Continues := by
  have he : k.actor.receive now window (.compile v i) = ((k.actor.hold i).want now window v, []) := by
    simp [Actor.receive, live, news]
  obtain ⟨desired, compiled⟩ := versionLt_of_later news
  rw [he]
  cases phase : k.actor.phase with
  | idle | settling time => simp [Continues, Actor.want, phase, Actor.isUpToDate, compiled]
  | compiling target =>
    have newer : target ≠ some v := by
      rintro rfl
      have := apt.target _ phase
      simp [desired] at this
    simp only [Continues, Actor.want, Actor.hold_phase, phase]
    exact ahead.imp_right fun h => ⟨newer, h⟩

/-- An order that brings no news changes nothing for the compilations to come. -/
theorem receive_of_known (live : k.actor.stopped = false) (known : k.actor.isNews v = false) :
    (({ k with actor := (k.actor.receive now window (.compile v i)).1 : Worker }.Continues ↔
      k.Continues)) ∧
    ∀ u, { k with actor := (k.actor.receive now window (.compile v i)).1 : Worker }.Expects u ↔
      k.Expects u := by
  obtain ⟨desired, phase⟩ := Actor.receive_of_known now window i live known
  have compiled : (k.actor.receive now window (.compile v i)).1.compiled = k.actor.compiled :=
    Actor.receive_compiled live
  simp only [Continues, Expects, assured, underWay, Actor.isUpToDate, desired, phase, compiled,
    implies_true, and_self]

/-- No order changes that another compilation is going to start. -/
theorem Continues.receive (hc : k.Continues) (apt : k.Apt) (live : k.actor.stopped = false) :
    { k with actor := (k.actor.receive now window (.compile v i)).1 : Worker }.Continues := by
  cases news : k.actor.isNews v with
  | false => exact (receive_of_known live news).1.2 hc
  | true =>
    refine continues_of_news apt live news ?_
    obtain ⟨desired, compiled⟩ := versionLt_of_later news
    unfold Continues at hc
    split at hc
    · exact hc.elim
    · next phase =>
      rw [apt.assured live (by simp [phase])]
      exact Or.inr compiled
    · exact hc.imp_right fun h => versionLt_trans h.2 desired

/-- An order for a version that the worker does not expect leads to another compilation. -/
theorem continues_of_unexpected (apt : k.Apt) (live : k.actor.stopped = false)
    (unexpected : ¬ k.Expects v) :
    { k with actor := (k.actor.receive now window (.compile v i)).1 : Worker }.Continues := by
  obtain ⟨desired, assured⟩ := versionLt_of_later (not_hasReached_iff.1 unexpected)
  have compiled := (versionLt_of_later assured).1
  refine continues_of_news apt live ?_ (Or.inr assured)
  unfold Actor.isNews
  rcases laterVersion_eq k.actor.desired k.actor.compiled with he | he <;> rw [he] <;> assumption

/-- After another order a version is still not expected, or another compilation is going to start. -/
theorem unexpected_receive {u : Int} (apt : k.Apt) (live : k.actor.stopped = false)
    (unexpected : ¬ k.Expects u) :
    { k with actor := (k.actor.receive now window (.compile v i)).1 : Worker }.Continues ∨
      ¬ { k with actor := (k.actor.receive now window (.compile v i)).1 : Worker }.Expects u := by
  cases news : k.actor.isNews v with
  | false => exact Or.inr fun he => unexpected (((receive_of_known live news).2 u).1 he)
  | true =>
    cases ahead : versionLt k.assured (some v) with
    | true => exact Or.inl (continues_of_news apt live news (Or.inr ahead))
    | false =>
      -- the version of the order is assured, and what is not expected is newer
      have he : k.actor.receive now window (.compile v i) =
          ((k.actor.hold i).want now window v, []) := by simp [Actor.receive, live, news]
      have newer : ¬ HasReached k.assured u := fun hu => unexpected (hu.later_right _)
      rw [he]
      refine Or.inr fun hu => ?_
      have hu : HasReached (laterVersion (some v) k.assured) u := hu
      exact newer (hu.of_later ahead)

/-- A compilation that has read the store goes on. -/
theorem restage {stage : Option Stage} (same : { k with stage : Worker }.assured = k.assured)
    (reading : k.stage ≠ some .starting) :
    (k.Continues → { k with stage : Worker }.Continues) ∧
      ∀ v, { k with stage : Worker }.Expects v ↔ k.Expects v := by
  refine ⟨fun hc => ?_, fun v => by simp only [Expects, same]⟩
  unfold Continues at hc ⊢
  simp only [same]
  split at hc
  · exact hc
  · exact hc
  · exact Or.inr (hc.resolve_left reading)

/-- A compilation ends that has read the store. -/
theorem finish {version : Int} (apt : k.Apt) (live : k.actor.stopped = false)
    (stage : k.stage = some (.sending version [])) :
    (k.Continues → { k with
      actor := (k.actor.finish now window (some version)).1, stage := none : Worker }.Continues) ∧
    ∀ v, { k with
      actor := (k.actor.finish now window (some version)).1, stage := none : Worker }.Expects v ↔
        k.Expects v := by
  have assured : k.assured = laterVersion k.actor.compiled (some version) := by
    simp [Worker.assured, underWay, stage]
  constructor
  · intro hc
    unfold Continues at hc
    split at hc
    · exact hc.elim
    · next time phase =>
      have := (apt.stage live).2 (by simp [phase])
      simp [stage] at this
    · next target phase =>
      obtain ⟨newer, behind⟩ := hc.resolve_left (by simp [stage])
      rw [assured] at behind
      obtain ⟨done, -⟩ | ⟨due, he⟩ := Actor.finish_cases k.actor now window (some version)
      · rcases done with wanted | done
        · exact absurd (Phase.compiling.inj (phase.symm.trans wanted)) newer
        · simp [Actor.ended, Actor.isUpToDate, behind] at done
      · rw [he]
        exact due
  · intro v
    simp [Expects, assured_of_stage (k := { k with
      actor := (k.actor.finish now window (some version)).1, stage := none }) rfl, assured]

/-- While versions only grow, a compilation is about to read the store, or assures what was wanted at
its start. -/
theorem InStep.assured_target {V : Int} {A : Option Int} (instep : k.InStep V A) {target : Option Int}
    (phase : k.actor.phase = .compiling target) :
    k.stage = some .starting ∨ versionLt k.assured target = false := by
  have of_aims : ∀ {u}, k.underWay = some u → k.Aims u → versionLt k.assured target = false := by
    rintro u read ⟨target', phase', aims⟩
    obtain rfl : target = target' := Phase.compiling.inj (phase.symm.trans phase')
    have reached : versionLt (some u) target = false := by
      cases target with
      | none => rfl
      | some wanted => simpa [versionLt] using aims wanted rfl
    rw [assured, read]
    exact versionLt_trans_false (laterVersion_not_lt_right _ _) reached
  have fits := instep.stage
  unfold StageFits at fits
  split at fits
  · exact absurd phase (fits target)
  · next stage => exact Or.inl stage
  · next stage => exact Or.inr (of_aims (by simp [underWay, stage]) fits)
  · next stage => exact Or.inr (of_aims (by simp [underWay, stage]) fits.1)
  · next stage => exact Or.inr (of_aims (by simp [underWay, stage]) fits.1)

end Worker

namespace Session

variable {σ : Type} {s t : Session σ} {h : Host σ} {uri : Uri} {w : Nat} {k k' : Worker} {e : Step}
  {es : List Step}

/-- A worker is going to read the store once more: another compilation is going to start anyway, or an
order is on its way for a version that the worker does not expect. -/
def Due (s : Session σ) (w : Nat) : Prop :=
  ∃ k, s.workers[w]? = some k ∧ (k.Continues ∨
    ∃ v i, (w, Order.compile v i) ∈ s.mail ∧ ¬ k.Expects v)

/-- **A worker that is due stays due until it reads the store.** -/
theorem due_step (hd : s.Due w) (hstep : step? h s e = some t) (other : e ≠ .call w)
    (apt : ∀ k, s.workers[w]? = some k → k.Apt ∧ k.actor.stopped = false)
    (unstopped : (w, Order.stop) ∉ s.mail) : t.Due w := by
  obtain ⟨k, worker, due⟩ := hd
  obtain ⟨apt, live⟩ := apt k worker
  obtain ⟨k', worker', moves⟩ := moves_of_step hstep worker
  refine ⟨k', worker', ?_⟩
  -- what is on its way stays so, unless the worker takes an order
  have kept : e ≠ .receive w → (k.Continues → k'.Continues) ∧ (∀ v, k'.Expects v ↔ k.Expects v) →
      k'.Continues ∨ ∃ v i, (w, Order.compile v i) ∈ t.mail ∧ ¬ k'.Expects v := by
    rintro hne ⟨continues, same⟩
    refine due.imp continues ?_
    rintro ⟨v, i, mem, unexpected⟩
    exact ⟨v, i, mem_mail_of_step hstep mem hne, fun he => unexpected ((same v).1 he)⟩
  cases moves with
  | stays foreign =>
    exact kept (fun he => foreign (by simp [he, Step.worker?])) ⟨id, fun _ => Iff.rfl⟩
  | @receives order next goes =>
    obtain ⟨before, after, hmail, -, rest⟩ := takeOrder?_eq next
    cases order with
    | stop => exact absurd (by simp [hmail]) unstopped
    | compile v i =>
      rcases due with continues | ⟨u, j, mem, unexpected⟩
      · exact Or.inl (continues.receive apt live)
      · rw [hmail] at mem
        by_cases taken : (w, Order.compile u j) = (w, Order.compile v i)
        · cases taken
          exact Or.inl (Worker.continues_of_unexpected apt live unexpected)
        · refine (Worker.unexpected_receive apt live unexpected).imp_right fun he => ?_
          exact ⟨u, j, by rw [rest]; simpa [taken] using mem, he⟩
  | stops mem stops =>
    rw [(Actor.receive_stopped live).1 stops] at mem
    exact absurd mem unstopped
  | rests phase _ done =>
    refine kept (by simp) ⟨fun hc => by simp [Worker.Continues, phase, done] at hc, fun v => ?_⟩
    have settled : k.assured = k.actor.compiled := apt.assured live (by simp [phase])
    simp only [Worker.Expects, settled]
    simp [Worker.assured, Worker.underWay, Actor.rest]
  | starts => exact Or.inl (Or.inl rfl)
  | misses | calls => exact absurd rfl other
  | yields stage =>
    refine kept (by simp) (Worker.restage ?_ (by simp [stage]))
    simp [Worker.assured, Worker.underWay, stage, live]
  | accepts stage | announces stage =>
    refine kept (by simp) (Worker.restage ?_ (by simp [stage]))
    simp [Worker.assured, Worker.underWay, stage]
  | finishes stage => exact kept (by simp) (Worker.finish apt live stage)

/-! ### A document that stays open -/

/-- Whether a step leaves a document open and the server running. -/
def StaysOpen (h : Host σ) (uri : Uri) (s : Session σ) : Step → Prop
  | .handle (.request _ method _) => method ≠ "shutdown"
  | .handle (.notification method params) =>
    ∀ n, Notice.read? method params = some n → ((s.heed h n).store.find? uri).isSome
  | .shutdown => False
  | _ => True

/-- A document is open, and `w` works for it. -/
structure Attended (uri : Uri) (w : Nat) (s : Session σ) : Prop where
  works : (uri, w) ∈ s.schedulers
  opened : (s.store.find? uri).isSome

theorem mem_schedulers_of_mem {p : Uri × Nat} (hp : p ∈ s.schedulers) (u : Uri) :
    p ∈ (s.scheduler u).1.schedulers := by
  unfold scheduler
  split
  · exact hp
  · exact List.mem_append_left _ hp

/-- A document has a worker once one was asked for. -/
theorem find?_schedulers_scheduler (s : Session σ) (uri : Uri) :
    (s.scheduler uri).1.schedulers.find? (·.1 == uri) = some (uri, (s.scheduler uri).2) := by
  unfold scheduler
  split
  · next u w found =>
    obtain rfl : u = uri := by simpa using List.find?_some found
    exact found
  · next unknown => simp [List.find?_append, unknown]

namespace Attended

/-- A report after which the document is open does not take its worker away. -/
theorem heed (ha : s.Attended uri w) {n : Notice} (opened : ((s.heed h n).store.find? uri).isSome) :
    (s.heed h n).Attended uri w := by
  have kept : uri ∉ n.closes := fun closes => by simp [find?_heed_of_closes closes] at opened
  refine ⟨?_, opened⟩
  refine heed_induction_closes (P := fun s : Session σ => (uri, w) ∈ s.schedulers) ?_ ?_ ?_ ?_ ha.works
  · exact fun _ _ same hp => same.schedulers ▸ hp
  · exact fun a u _ hp => by
      rw [requestCompilation, post_schedulers]
      exact mem_schedulers_of_mem hp u
  · intro a u hu hp
    unfold stopScheduler
    split
    · exact hp
    · rw [post_schedulers]
      exact List.mem_filter.2 ⟨hp, by simpa using fun he : uri = u => kept (he ▸ hu)⟩
  · exact fun _ _ hp => hp

theorem inquire (ha : s.Attended uri w) (id : MessageId) (question : DocumentRequest) :
    (s.inquire id question).Attended uri w := by
  refine ⟨?_, by rw [inquire_store]; exact ha.opened⟩
  unfold Session.inquire
  split
  · exact ha.works
  · exact mem_schedulers_of_mem ha.works _

theorem receive (ha : s.Attended uri w) {m : Message} (ok : s.StaysOpen h uri (.handle m)) :
    (s.receive h m).Attended uri w := by
  cases m with
  | request id method params =>
    have running : method ≠ "shutdown" := ok
    simp only [Session.receive, ask, if_neg running]
    split
    · exact ⟨ha.works, ha.opened⟩
    · split
      · exact ⟨ha.works, ha.opened⟩
      · exact ha.inquire id _
  | notification method params =>
    simp only [Session.receive, notify]
    split
    · exact ha
    · next n hn => exact ha.heed (ok n hn)
  | response id => exact ha

theorem step (ha : s.Attended uri w) (ok : s.StaysOpen h uri e) (hstep : step? h s e = some t) :
    t.Attended uri w := by
  obtain ⟨works, opened⟩ := ha
  cases taken_of_step? hstep with
  | handle m => exact receive ⟨works, opened⟩ ok
  | shutdown => exact ok.elim
  | receive | rest | start | miss | finish => exact ⟨by simpa [act, updateWorker], by simpa [act, updateWorker]⟩
  | stop =>
    exact ⟨by simpa [discardMail, act, updateWorker], by simpa [discardMail, act, updateWorker]⟩
  | @accept w k version result worker stage =>
    refine ⟨works, ?_⟩
    obtain ⟨d, hd⟩ := Option.isSome_iff_exists.1 opened
    obtain ⟨a, ha, -⟩ := Store.find?_afterCall hd k.document result
    exact Option.isSome_iff_exists.2 ⟨_, ha⟩
  | place => exact ⟨by simpa [updateInquiry], by simpa [updateInquiry]⟩
  | tick | call | yield | announce | answerNothing | answer | giveUp => exact ⟨works, opened⟩

/-- The worker is live, and not about to stop. -/
theorem worker {compiler : σ} (ha : s.Attended uri w) (hr : Reaches h { compiler } s) :
    ∃ k, s.workers[w]? = some k ∧ k.Apt ∧ k.actor.stopped = false ∧ (w, Order.stop) ∉ s.mail := by
  obtain ⟨opened, unstopped⟩ := appointed_of_reaches hr _ ha.works
  obtain ⟨k, worker, live⟩ := isOpen_iff.1 opened
  exact ⟨k, worker, apt_of_reaches hr worker, live, unstopped⟩

end Attended

/-! ### Compilations that start -/

/-- In the course of a run the worker reads a document in the store and calls the compiler. -/
def Reads (h : Host σ) (uri : Uri) (w : Nat) (s : Session σ) (es : List Step) : Prop :=
  ∃ before after t job, es = before ++ .call w :: after ∧
    Run (step? h) (StaysOpen h uri) s before t ∧ t.store.job? uri = some job

/-- A worker is at rest, and no order is on its way to it. -/
def AtRest (w : Nat) (s : Session σ) : Prop :=
  (∀ order, (w, order) ∉ s.mail) ∧ ∃ k, s.workers[w]? = some k ∧ k.actor.phase = .idle

theorem AtRest.not_due (hr : s.AtRest w) : ¬ s.Due w := by
  obtain ⟨empty, k, worker, idle⟩ := hr
  rintro ⟨k', worker', due⟩
  obtain rfl : k = k' := Option.some.inj (worker.symm.trans worker')
  rcases due with continues | ⟨v, i, mem, -⟩
  · simp [Worker.Continues, idle] at continues
  · exact empty _ mem

theorem Reads.snoc (hr : Reads h uri w s es) (e : Step) : Reads h uri w s (es ++ [e]) := by
  obtain ⟨before, after, t, job, rfl, rest⟩ := hr
  exact ⟨before, after ++ [e], t, job, by simp, rest⟩

theorem Reaches.run {compiler : σ} (hr : Reaches h { compiler } s)
    {allowed : Session σ → Step → Prop} (run : Run (step? h) allowed s es t) :
    Reaches h { compiler } t := by
  obtain ⟨es₀, run₀⟩ := hr
  exact ⟨es₀ ++ es, run₀.trans (run.mono fun _ _ _ => trivial)⟩

/-- All along a run, a worker that was due is due, or has read its document. -/
theorem due_or_reads {compiler : σ} (hr : Reaches h { compiler } s) (ha : s.Attended uri w)
    (hd : s.Due w) (run : Run (step? h) (StaysOpen h uri) s es t) :
    t.Attended uri w ∧ (t.Due w ∨ Reads h uri w s es) := by
  induction run with
  | nil => exact ⟨ha, Or.inl hd⟩
  | @snoc t u es e run ok last ih =>
    obtain ⟨attended, due⟩ := ih
    refine ⟨attended.step ok last, ?_⟩
    rcases due with due | reads
    · by_cases he : e = .call w
      · subst he
        obtain ⟨d, hd⟩ := Option.isSome_iff_exists.1 attended.opened
        exact Or.inr ⟨es, [], t, _, rfl, run, by rw [Store.job?, hd]; rfl⟩
      · obtain ⟨k, worker, apt, live, unstopped⟩ := attended.worker (hr.run run)
        refine Or.inl (due_step due last he (fun k' worker' => ?_) unstopped)
        obtain rfl : k = k' := Option.some.inj (worker.symm.trans worker')
        exact ⟨apt, live⟩
    · exact Or.inr (reads.snoc e)

/-! ### Work that is not done -/

/-- The steps that leave a document open, and in which its worker does not call the compiler. -/
def Spares (h : Host σ) (uri : Uri) (w : Nat) (s : Session σ) (e : Step) : Prop :=
  s.StaysOpen h uri e ∧ e ≠ .call w

/-- The end of a compilation after which nothing is left to do leads to rest. -/
theorem idle_of_finish {a : Actor Nat} {target : Option Int} {v : Int} {now window : Nat}
    (phase : a.phase = .compiling target)
    (done : target = a.desired ∨ versionLt (laterVersion a.compiled (some v)) a.desired = false) :
    (a.finish now window (some v)).1.phase = .idle := by
  rcases done with rfl | done
  · rw [Actor.finish_of_wanted phase]
    rfl
  · obtain ⟨-, he⟩ | ⟨due, -⟩ := Actor.finish_cases a now window (some v)
    · rw [he]
      rfl
    · simp [Actor.isUpToDate, Actor.ended, done] at due

/-- A worker that is not going to start another compilation can come to rest. -/
theorem leads_idle (worker : s.workers[w]? = some k) (apt : k.Apt) (live : k.actor.stopped = false)
    (spent : ¬ k.Continues) :
    Leads h (Spares h uri w) s (s.Turns w fun a =>
      a.phase = .idle ∧ a.desired = k.actor.desired ∧ a.compiled = k.assured) := by
  have accept : ∀ t : Session σ, Spares h uri w t (.accept w) := fun _ => ⟨trivial, by simp⟩
  have announce : ∀ t : Session σ, Spares h uri w t (.announce w) := fun _ => ⟨trivial, by simp⟩
  -- what a compilation leaves behind that has read the store
  have ends : ∀ {v target}, k.actor.phase = .compiling target → k.stage ≠ some .starting →
      k.underWay = some v → ∀ t, s.Turns w (fun a => ∃ n,
        a = (k.actor.finish n h.window (some v)).1) t → s.Turns w (fun a =>
      a.phase = .idle ∧ a.desired = k.actor.desired ∧ a.compiled = k.assured) t := by
    intro v target phase reading reads t
    refine Turns.imp ?_
    rintro _ ⟨n, rfl⟩
    refine ⟨idle_of_finish phase ?_, by simp, by simp [Worker.assured, reads]⟩
    simp only [Worker.Continues, phase, Worker.assured, reads, reading, false_or, not_and,
      Bool.not_eq_true] at spent
    exact Decidable.or_iff_not_imp_left.2 spent
  cases phase : k.actor.phase with
  | idle =>
    exact .now ⟨rfl, k, worker, phase, rfl, (apt.assured live (by simp [phase])).symm⟩
  | settling time =>
    have done : k.actor.isUpToDate = true := by simpa [Worker.Continues, phase] using spent
    let later : Session σ := { s with now := s.now + time }
    have elapsed : ¬ s.now + time < time := by omega
    refine .step (e := .tick time) ⟨trivial, by simp⟩ (t := later) rfl ?_
    refine .step (e := .expire w) ⟨trivial, by simp⟩ (t := later.act w k none k.actor.rest) ?_
      (.now ⟨?_, _, workers_act_self (s := later) worker none _, rfl, rfl,
        (apt.assured live (by simp [phase])).symm⟩)
    · simp [step?, expire?, later, worker, phase, live, elapsed, Actor.expire, done, Actor.rest]
    · simp [act, updateWorker, later]
  | compiling target =>
    cases stage : k.stage with
    | none => exact absurd phase ((apt.stage live).1 stage target)
    | some x =>
      cases x with
      | starting => simp [Worker.Continues, phase, stage] at spent
      | calling job project =>
        exact (leads_yield ⟨trivial, by simp⟩ accept announce worker live stage).mono
          (ends phase (by simp [stage]) (by simp [Worker.underWay, stage]))
      | returned v result =>
        exact (leads_accept accept announce worker stage).mono
          (ends phase (by simp [stage]) (by simp [Worker.underWay, stage]))
      | sending v rest =>
        exact (leads_finish announce worker stage).mono
          (ends phase (by simp [stage]) (by simp [Worker.underWay, stage]))

/-- A worker at rest can take all its orders, and stays at rest if none of them brings news. -/
theorem leads_rest {compiler : σ} (hr : Reaches h { compiler } s) (ha : s.Attended uri w)
    (worker : s.workers[w]? = some k) (idle : k.actor.phase = .idle)
    (known : ∀ v i, (w, Order.compile v i) ∈ s.mail → k.actor.Knows v) :
    Leads h (Spares h uri w) s (AtRest w) := by
  induction hn : s.mail.length using Nat.strongRecOn generalizing s k with
  | ind n ih =>
    by_cases empty : ∀ order, (w, order) ∉ s.mail
    · exact .now ⟨empty, k, worker, idle⟩
    · simp only [not_forall, not_not] at empty
      obtain ⟨_, mem⟩ := empty
      obtain ⟨order, mail, next⟩ := takeOrder?_of_mem mem
      obtain ⟨taken, rest⟩ := mem_of_takeOrder? next
      obtain ⟨k', worker', apt, live, unstopped⟩ := ha.worker hr
      obtain rfl : k = k' := Option.some.inj (worker.symm.trans worker')
      cases order with
      | stop => exact absurd taken unstopped
      | compile v i =>
        have stage : k.stage = none := (apt.stage live).2 (by simp [idle])
        have he : k.actor.receive s.now h.window (.compile v i) = (k.actor.hold i).rest := by
          simp [Actor.receive, live, Actor.knows_iff.1 (known v i taken), idle]
        let t : Session σ := { s with mail }.act w k k.stage (k.actor.hold i).rest
        have hstep : step? h s (.receive w) = some t := by
          simp [step?, receiveOrder?, worker, next, Stage.isSending, stage, he, t, Actor.rest, live]
        have shorter : t.mail.length < n := by
          obtain ⟨before, after, hmail, -, rfl⟩ := takeOrder?_eq next
          simp [t, act, updateWorker, ← hn, hmail]
        refine .step (e := .receive w) ⟨trivial, by simp⟩ hstep ?_
        refine ih _ shorter (hr.run (.single trivial hstep : Run _ (fun _ _ => True) _ _ _))
          (ha.step (h := h) (e := .receive w) trivial hstep)
          (workers_act_self (s := { s with mail }) worker _ _) rfl (fun u j hu => ?_) rfl
        exact known u j (rest _ (by simpa [t, act, updateWorker] using hu))

/-- A worker that is not due can come to rest without calling the compiler. -/
theorem leads_rest_of_not_due {compiler : σ} (hr : Reaches h { compiler } s)
    (ha : s.Attended uri w) (spent : ¬ s.Due w) : Leads h (Spares h uri w) s (AtRest w) := by
  obtain ⟨k, worker, apt, live, -⟩ := ha.worker hr
  simp only [Due, not_exists, not_and, not_or, not_not] at spent
  obtain ⟨settles, expected⟩ := spent k worker
  have idles : Leads h (Spares h uri w) s _ := leads_idle worker apt live settles
  obtain ⟨es, t, run, mail, k', worker', idle, desired, compiled⟩ := idles
  have attended : t.Attended uri w := run.invariant (I := fun t : Session σ => t.Attended uri w)
    (fun _ _ _ ha ok hstep => ha.step ok.1 hstep) ha
  obtain ⟨fs, u, run', rest⟩ := leads_rest (hr.run run) attended worker' idle fun v i hm => by
    have := expected v i (mail ▸ hm)
    rwa [Actor.Knows, desired, compiled]
  exact ⟨es ++ fs, u, run.trans run', rest⟩

/-- Exactly the workers that are due read their document in every run to rest. -/
theorem reads_iff_due {compiler : σ} (hr : Reaches h { compiler } s) (ha : s.Attended uri w) :
    (∀ es t, Run (step? h) (StaysOpen h uri) s es t → t.AtRest w → Reads h uri w s es) ↔ s.Due w := by
  constructor
  · intro all
    by_contra spent
    obtain ⟨es, t, run, rest⟩ := leads_rest_of_not_due hr ha spent
    obtain ⟨before, after, u, job, rfl, -⟩ := all es t (run.mono fun _ _ ok => ok.1) rest
    exact run.forall_mem (fun _ _ ok => ok.2) (.call w) (by simp) rfl
  · intro due es t run rest
    exact (due_or_reads hr ha due run).2.resolve_left rest.not_due

/-! ### Savings -/

theorem distinct_step (hs : s.store.Distinct) (hstep : step? h s e = some t) : t.store.Distinct := by
  have of_eq : t.store = s.store → t.store.Distinct := fun he => he ▸ hs
  cases taken_of_step? hstep with
  | handle m =>
    cases m with
    | request id method params => exact of_eq (ask_store id method params)
    | notification method params =>
      simp only [receive, notify]
      split
      · exact hs
      · exact (edited_heed _ s).distinct hs
    | response id => exact hs
  | shutdown => exact of_eq shutdown_store
  | receive | rest | start | miss | finish => exact of_eq (tell_store _)
  | stop => exact of_eq ((tell_store _).trans (tell_store _))
  | accept => exact hs.afterCall _ _
  | place => exact of_eq (post_store _ _)
  | tick | call | yield | announce | answerNothing | answer | giveUp => exact hs

theorem distinct_of_reaches {compiler : σ} (hr : Reaches h { compiler } s) : s.store.Distinct := by
  obtain ⟨es, run⟩ := hr
  exact run.invariant (I := fun s : Session σ => s.store.Distinct)
    (fun _ _ _ hs _ hstep => distinct_step hs hstep) (by simp [Store.Distinct])

/-- The session in which the text of a document was replaced by a saved one. -/
def withSaved (s : Session σ) (uri : Uri) (text : String) : Session σ :=
  { s with
    store := s.store.removeDuplicates.update uri (·.saved (some text))
    cache := s.cache.erase uri }

theorem find?_withSaved (distinct : s.store.Distinct) {d : Document}
    (found : s.store.find? uri = some d) (text : String) :
    (s.withSaved uri text).store.find? uri = some (d.saved (some text)) := by
  simp only [withSaved]
  rw [Store.find?_update_self fun d' hd' => (Store.uri_saved d' _).trans hd',
    distinct.find?_removeDuplicates, found]
  rfl

theorem heed_saved (distinct : s.store.Distinct) {d : Document}
    (found : s.store.find? uri = some d) (text : String) :
    s.heed h (.saved ⟨uri, some text⟩) = (s.withSaved uri text).requestCompilation uri := by
  have registered := distinct.register_of_find? h.files found (uri.extension?.getD "") none
  simp [heed, updateDocument, Store.registerByExtension, registered, recompile, withSaved]

theorem eq_heed_of_step {s₁ : Session σ} {n : Notice} {method : String} {params : Json}
    (reading : Notice.read? method params = some n)
    (heeds : step? h s (.handle (.notification method params)) = some s₁) : s₁ = s.heed h n := by
  simp only [step?, Session.receive, notify, reading, Option.some.injEq] at heeds
  exact heeds.symm

/-- **When saved texts are compiled.** A saving with a text replaces the text of an open document. After
any history, a compilation of the document is sure to start before its worker is at rest again, in
whatever order things happen while the document stays open, exactly if the worker is due right after
the saving. -/
theorem saved_text_compiled_iff {compiler : σ} {s₁ : Session σ} {text method : String} {params : Json}
    (start : Reaches h { compiler } s) (opened : (s.store.find? uri).isSome)
    (saving : Notice.read? method params = some (.saved ⟨uri, some text⟩))
    (saves : step? h s (.handle (.notification method params)) = some s₁) :
    ∃ w, s₁.schedulers.find? (·.1 == uri) = some (uri, w) ∧
      (s₁.store.find? uri).bind (·.text) = some text ∧
      ((∀ es t, Run (step? h) (StaysOpen h uri) s₁ es t → t.AtRest w → Reads h uri w s₁ es) ↔
        s₁.Due w) := by
  obtain ⟨d, hd⟩ := Option.isSome_iff_exists.1 opened
  have distinct := distinct_of_reaches start
  have hs₁ := (eq_heed_of_step saving saves).trans (heed_saved distinct hd text)
  have found : s₁.store.find? uri = some (d.saved (some text)) := by
    rw [hs₁, requestCompilation_store]
    exact find?_withSaved distinct hd text
  have works : s₁.schedulers.find? (·.1 == uri) =
      some (uri, ((s.withSaved uri text).scheduler uri).2) := by
    rw [hs₁, requestCompilation, post_schedulers]
    exact find?_schedulers_scheduler _ uri
  have reaches : Reaches h { compiler } s₁ :=
    start.run (.single trivial saves : Run _ (fun _ _ => True) _ _ _)
  exact ⟨_, works, by rw [found]; rfl,
    reads_iff_due reaches ⟨List.mem_of_find?_eq_some works, by rw [found]; rfl⟩⟩

/-! ### Histories in which versions only grow -/

theorem not_hasReached_of_lt {a b : Option Int} {V : Int} (hlt : versionLt a b = true)
    (hb : ∀ v, b = some v → v ≤ V) : ¬ HasReached a V := by
  intro ha
  cases b with
  | none => cases a <;> simp [versionLt] at hlt
  | some v => exact not_hasReached_iff.2 hlt (ha.mono (hb v rfl))

/-- While versions only grow, the worker of a document is due for its present version until a
compilation of that has read the store. -/
theorem Serving.due_iff {V : Int} {A : Option Int} {i : Option Nat} (hv : s.Serving uri w V A)
    (worker : s.workers[w]? = some k) (apt : k.Apt) (order : (w, Order.compile V i) ∈ s.mail) :
    s.Due w ↔ k.stage = some .starting ∨ ¬ HasReached k.assured V := by
  obtain ⟨k', worker', -, instep⟩ := hv.crew.worker
  obtain rfl : k = k' := Option.some.inj (worker.symm.trans worker')
  constructor
  · rintro ⟨k', worker', due⟩
    obtain rfl : k = k' := Option.some.inj (worker.symm.trans worker')
    rcases due with continues | ⟨v, i, mem, unexpected⟩
    · unfold Worker.Continues at continues
      split at continues
      · exact continues.elim
      · next phase =>
        rw [apt.assured instep.live (by simp [phase])]
        exact Or.inr (not_hasReached_of_lt (by simpa [Actor.isUpToDate] using continues) instep.desired)
      · exact continues.imp_right fun h => not_hasReached_of_lt h.2 instep.desired
    · obtain ⟨v', i', ho, hle⟩ := hv.crew.mail _ mem
      cases ho
      exact Or.inr fun hr => unexpected ((hr.mono hle).later_right _)
  · intro ahead
    refine ⟨k, worker, ?_⟩
    by_cases wanted : HasReached k.actor.desired V ∨ k.stage = some .starting
    · -- what is wanted is not assured
      have behind : k.stage ≠ some .starting → versionLt k.assured k.actor.desired = true := by
        intro reading
        obtain ⟨d, hd, hV⟩ := wanted.resolve_right reading
        rw [hd, ← not_hasReached_iff]
        exact fun hr => ahead.resolve_left reading (hr.mono hV)
      refine Or.inl ?_
      unfold Worker.Continues
      split
      · next phase =>
        have behind := behind (by simp [instep.stage_eq_none phase])
        rw [apt.assured instep.live (by simp [phase])] at behind
        have done := (instep.rested phase).2
        simp [Actor.isUpToDate, behind] at done
      · next phase =>
        have stage := (apt.stage instep.live).2 (by simp [phase])
        have behind := behind (by simp [stage])
        rw [apt.assured instep.live (by simp [phase])] at behind
        simp [Actor.isUpToDate, behind]
      · next target phase =>
        refine Classical.or_iff_not_imp_left.2 fun reading => ⟨?_, behind reading⟩
        rintro rfl
        have assured := (instep.assured_target phase).resolve_left reading
        simp [behind reading] at assured
    · obtain ⟨unwanted, reading⟩ := not_or.1 wanted
      refine Or.inr ⟨V, i, order, fun hr => ?_⟩
      rcases laterVersion_eq k.actor.desired k.assured with he | he
      · exact unwanted (he ▸ hr)
      · exact ahead.resolve_left reading (he ▸ hr)

/-- While versions only grow, a saved text is sure to be compiled exactly if no compilation of the
present version has read the store before. -/
theorem Serving.saved_text_read_iff {compiler : σ} {s₁ : Session σ} {V : Int} {A : Option Int}
    {text method : String} {params : Json} (start : Reaches h { compiler } s)
    (hv : s.Serving uri w V A) (worker : s.workers[w]? = some k)
    (saving : Notice.read? method params = some (.saved ⟨uri, some text⟩))
    (saves : step? h s (.handle (.notification method params)) = some s₁) :
    (∀ es t, Run (step? h) (StaysOpen h uri) s₁ es t → t.AtRest w → Reads h uri w s₁ es) ↔
      k.stage = some .starting ∨ ¬ HasReached k.assured V := by
  obtain ⟨d, hd, hV, -⟩ := hv.document
  have reaches : Reaches h { compiler } s₁ :=
    start.run (.single trivial saves : Run _ (fun _ _ => True) _ _ _)
  have hs₁ := (eq_heed_of_step saving saves).trans (heed_saved hv.distinct hd text)
  have hv₁ : s₁.Serving uri w V A := by
    rw [eq_heed_of_step saving saves]
    exact hv.updateDocument (fun d => Store.uri_saved d _) (fun d => Store.analysis_saved d _)
      (fun _ hd => hd) (Int.le_refl V)
  have worker₁ : s₁.workers[w]? = some k :=
    Option.some.inj saves ▸ (Grows.receive s _).workers w k worker
  have order : (w, Order.compile V none) ∈ s₁.mail := by
    have works : (s.withSaved uri text).scheduler uri = (s.withSaved uri text, w) := by
      simp [Session.scheduler, withSaved, hv.crew.scheduler]
    have takes : (s.withSaved uri text).isOpen w = true := hv.crew.isOpen
    have version : (s.withSaved uri text).versionOf uri = V := by
      simp [Session.versionOf, find?_withSaved hv.distinct hd, Document.saved, hV]
    simp [hs₁, requestCompilation, works, post, takes, version]
  rw [reads_iff_due reaches ⟨List.mem_of_find?_eq_some hv₁.crew.scheduler, ?_⟩,
    hv₁.due_iff worker₁ (apt_of_reaches reaches worker₁) order]
  obtain ⟨d₁, hd₁, -⟩ := hv₁.document
  rw [hd₁]
  rfl

end Session

/-! ### Two savings -/

namespace Sample

/-- A document that is a file. -/
def file : Uri := ⟨"file:///p/main.bbc"⟩

/-- The file is opened. -/
def opensFile (text : String) : Step :=
  .handle (.notification "textDocument/didOpen" (.obj [("textDocument", .obj
    [("uri", .str file.text), ("languageId", .str Keyword.languageId), ("version", .int 1),
      ("text", .str text)])]))

/-- The parameters of a saving of the file. -/
def saving (text : String) : Json :=
  .obj [("textDocument", .obj [("uri", .str file.text)]), ("text", .str text)]

/-- The file is saved. -/
def savesFile (text : String) : Step := .handle (.notification "textDocument/didSave" (saving text))

end Sample

namespace Session

open Sample

/-- The case of a file that is saved before it was compiled. -/
theorem early_saving_compiled :
    ∃ s₁ : Session Unit, [opensFile "int one;", savesFile "int two;"].foldlM (step? host)
        { compiler := () } = some s₁ ∧ s₁.Due 0 ∧
      ∀ es t, Run (step? host) (StaysOpen host file) s₁ es t → t.AtRest 0 →
        Reads host file 0 s₁ es := by
  let s : Session Unit := { compiler := () }
  let s₀ : Session Unit := (step? host s (opensFile "int one;")).get (by decide +kernel)
  let s₁ : Session Unit := (step? host s₀ (savesFile "int two;")).get (by decide +kernel)
  have h₀ : step? host s (opensFile "int one;") = some s₀ := (Option.some_get _).symm
  have h₁ : step? host s₀ (savesFile "int two;") = some s₁ := (Option.some_get _).symm
  have reaches : Reaches host s s₀ := ⟨_, .single trivial h₀⟩
  have reading : Notice.read? "textDocument/didSave" (saving "int two;") =
      some (.saved ⟨file, some "int two;"⟩) := rfl
  obtain ⟨w, works, -, iff⟩ := saved_text_compiled_iff reaches (by decide +kernel) reading h₁
  obtain rfl : w = 0 := by
    have : s₁.schedulers.find? (·.1 == file) = some (file, 0) := by decide +kernel
    simpa [this] using works.symm
  have due : s₁.Due 0 := by
    refine ⟨{ document := file }, rfl, Or.inr ⟨1, none, by decide +kernel, ?_⟩⟩
    rintro ⟨v, hv, -⟩
    cases hv
  exact ⟨s₁, by simp [List.foldlM, s, h₀, h₁], due, iff.2 due⟩

/-- A file is saved with another text after it was compiled. Its worker takes the order, has nothing to
do, and the text is not compiled. -/
theorem late_saving_lost :
    ∃ (s s₁ t : Session Unit) (es : List Step), Reaches host { compiler := () } s ∧
      (s.store.find? file).isSome ∧ step? host s (savesFile "int two;") = some s₁ ∧
      s₁.schedulers.find? (·.1 == file) = some (file, 0) ∧
      Run (step? host) (StaysOpen host file) s₁ es t ∧ t.AtRest 0 ∧ ¬ Reads host file 0 s₁ es ∧
      (t.store.find? file).map (fun d => (d.text, d.version, d.analysis.version)) =
        some (some "int two;", some 1, some 1) := by
  let before : List Step := opensFile "int one;" :: compiling 0 ++ [.accept 0, .announce 0]
  let s₀ : Session Unit := { compiler := () }
  let s : Session Unit := (before.foldlM (step? host) s₀).get (by decide +kernel)
  let s₁ : Session Unit := (step? host s (savesFile "int two;")).get (by decide +kernel)
  let t : Session Unit := (step? host s₁ (.receive 0)).get (by decide +kernel)
  have h₀ : before.foldlM (step? host) s₀ = some s := (Option.some_get _).symm
  have h₁ : step? host s (savesFile "int two;") = some s₁ := (Option.some_get _).symm
  have h₂ : step? host s₁ (.receive 0) = some t := (Option.some_get _).symm
  refine ⟨s, s₁, t, [.receive 0], ⟨before, .of_foldlM (fun _ _ _ => trivial) h₀⟩, by decide +kernel,
    h₁, by decide +kernel, .single trivial h₂, ⟨?_, ?_⟩, ?_, by decide +kernel⟩
  · have empty : t.mail = [] := by decide +kernel
    simp [empty]
  · have idle : (t.workers[0]?.map (·.actor.phase)) = some .idle := by decide +kernel
    simpa using idle
  · rintro ⟨before, after, u, job, he, -⟩
    have : Step.call 0 ∈ [Step.receive 0] := he ▸ by simp
    simp at this

end Session

end LanguageServer
