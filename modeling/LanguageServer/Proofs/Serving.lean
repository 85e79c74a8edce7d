import LanguageServer.Proofs.Soundness
import LanguageServer.Proofs.Compilation

/-!
# A document that stays open

From the moment when a document was opened until it is closed, one worker compiles it. `V` is the
version of its text, which grows, and `A` is that of its analysis, which does not go back.

* `Worker.InStep`: a worker whose actor, compilation and promises agree with `V` and `A`;
* `Session.Manned`: the document has such a worker, and all who wait for it are served;
* `Session.LeavesOpen`: the steps that neither open nor close the document, change it to newer versions
  only, and do not let the compiler crash on it;
* `Session.Serving`, `Session.Serving.step`: what these steps preserve.
-/

namespace LanguageServer

/-! ### The worker -/

namespace Worker

/-- A compilation is under way that started when no version newer than `v` was wanted. -/
def Aims (k : Worker) (v : Int) : Prop :=
  ∃ target, k.actor.phase = .compiling target ∧ ∀ t, target = some t → t ≤ v

/-- How far the compilation of a worker has come agrees with its actor. A compilation that has read the
store read what its actor wanted, and a stored outcome is part of the analysis. -/
def StageFits (V : Int) (A : Option Int) (k : Worker) : Prop :=
  match k.stage with
  | none => ∀ target, k.actor.phase ≠ .compiling target
  | some .starting => k.Aims V
  | some (.calling job _) => k.Aims job.version
  | some (.returned v result) => k.Aims v ∧ ∃ o, result = .ok o ∧ o.analysis.version = some v
  | some (.sending v _) => k.Aims v ∧ HasReached A v

/-- A worker whose document has a text of version `V` and an analysis of version `A`: it wants nothing
newer than the text, what it has compiled is in the analysis, and at rest it owes nothing. -/
structure InStep (V : Int) (A : Option Int) (k : Worker) : Prop where
  live : k.actor.stopped = false
  desired : ∀ v, k.actor.desired = some v → v ≤ V
  compiled : ∀ v, k.actor.compiled = some v → HasReached A v
  rested : k.actor.Rested
  stage : k.StageFits V A

variable {k k' : Worker} {V V' v : Int} {A A' : Option Int} {now window : Nat}

theorem Aims.mono (h : k.Aims v) {v' : Int} (hv : v ≤ v') : k.Aims v' := by
  obtain ⟨target, hp, ht⟩ := h
  exact ⟨target, hp, fun t he => by have := ht t he; omega⟩

theorem StageFits.of_phase (h : k.StageFits V A) (stage : k'.stage = k.stage)
    (phase : ∀ target, k'.actor.phase = .compiling target ↔ k.actor.phase = .compiling target) :
    k'.StageFits V A := by
  have aims : ∀ v, k.Aims v → k'.Aims v := fun v ⟨target, hp, ht⟩ =>
    ⟨target, (phase target).2 hp, ht⟩
  unfold StageFits at h ⊢
  rw [stage]
  split at h
  · exact fun target hp => h target ((phase target).1 hp)
  · exact aims _ h
  · exact aims _ h
  · exact ⟨aims _ h.1, h.2⟩
  · exact ⟨aims _ h.1, h.2⟩

namespace InStep

theorem mono (h : k.InStep V A) (hV : V ≤ V') (hA : versionLt A' A = false) : k.InStep V' A' where
  live := h.live
  desired := fun v hv => by have := h.desired v hv; omega
  compiled := fun v hv => (h.compiled v hv).of_le hA
  rested := h.rested
  stage := by
    have hs := h.stage
    unfold StageFits at hs ⊢
    split at hs
    · exact hs
    · exact hs.mono hV
    · exact hs
    · exact hs
    · exact ⟨hs.1, hs.2.of_le hA⟩

/-- Those who are told when the worker is at rest have the version that they asked for. -/
theorem reached (h : k.InStep V A) (idle : k.actor.phase = .idle) (knows : k.actor.Knows v) :
    HasReached A v := by
  obtain ⟨c, hc, hv⟩ := knows.compiled (h.rested idle).2
  exact (h.compiled c hc).mono hv

/-- At rest no compilation is under way. -/
theorem stage_eq_none (h : k.InStep V A) (idle : k.actor.phase = .idle) : k.stage = none := by
  have not_compiling : ∀ v, ¬ k.Aims v := by
    rintro v ⟨target, hp, -⟩
    rw [idle] at hp
    cases hp
  have fits := h.stage
  unfold StageFits at fits
  split at fits
  · assumption
  · exact absurd fits (not_compiling _)
  · exact absurd fits (not_compiling _)
  · exact absurd fits.1 (not_compiling _)
  · exact absurd fits.1 (not_compiling _)

theorem receive (h : k.InStep V A) {i : Option Nat} (hv : v ≤ V) :
    { k with actor := (k.actor.receive now window (.compile v i)).1 }.InStep V A where
  live := by
    rw [Bool.eq_false_iff, ne_eq, Actor.receive_stopped h.live]
    simp
  desired := by
    intro u hu
    rcases Actor.receive_desired_eq now window (.compile v i)
      h.live with he | ⟨v', i', ho, he⟩
    · exact h.desired u (he ▸ hu)
    · cases ho
      obtain rfl : v = u := Option.some.inj (he.symm.trans hu)
      exact hv
  compiled := by
    intro u hu
    exact h.compiled u (by rw [← hu, Actor.receive_compiled h.live])
  rested := by
    refine h.rested.receive h.live ?_
    rw [Bool.eq_false_iff, ne_eq, Actor.receive_stopped h.live]
    simp
  stage := h.stage.of_phase rfl fun target => Actor.receive_compiling h.live

theorem rest (h : k.InStep V A) (done : k.actor.isUpToDate = true) :
    { k with actor := k.actor.rest.1, stage := none }.InStep V A where
  live := h.live
  desired := h.desired
  compiled := h.compiled
  rested := Actor.rested_rest done
  stage := fun target hp => by simp [Actor.rest] at hp

theorem start (h : k.InStep V A) :
    { k with
      actor := { k.actor with phase := .compiling k.actor.desired }
      stage := some .starting }.InStep V A where
  live := h.live
  desired := h.desired
  compiled := h.compiled
  rested := fun hi => by cases hi
  stage := ⟨k.actor.desired, rfl, h.desired⟩

theorem call (h : k.InStep V A) (stage : k.stage = some .starting) {job : Job}
    (version : job.version = V) (project : Project) :
    { k with stage := some (.calling job project) }.InStep V A where
  live := h.live
  desired := h.desired
  compiled := h.compiled
  rested := h.rested
  stage := by
    have hs := h.stage
    simp only [StageFits, stage] at hs
    exact version ▸ hs

theorem yield (h : k.InStep V A) {job : Job} {project : Project}
    (stage : k.stage = some (.calling job project)) {o : Outcome}
    (version : o.analysis.version = some job.version) :
    { k with stage := some (.returned job.version (.ok o)) }.InStep V A where
  live := h.live
  desired := h.desired
  compiled := h.compiled
  rested := h.rested
  stage := by
    have hs := h.stage
    simp only [StageFits, stage] at hs
    exact ⟨hs, o, rfl, version⟩

theorem accept (h : k.InStep V A) {result : Except Crash Outcome}
    (stage : k.stage = some (.returned v result)) (reached : HasReached A v)
    (messages : List Outgoing) :
    { k with stage := some (.sending v messages) }.InStep V A where
  live := h.live
  desired := h.desired
  compiled := h.compiled
  rested := h.rested
  stage := by
    have hs := h.stage
    simp only [StageFits, stage] at hs
    exact ⟨hs.1, reached⟩

theorem announce (h : k.InStep V A) {m : Outgoing} {rest : List Outgoing}
    (stage : k.stage = some (.sending v (m :: rest))) :
    { k with stage := some (.sending v rest) }.InStep V A where
  live := h.live
  desired := h.desired
  compiled := h.compiled
  rested := h.rested
  stage := by
    have hs := h.stage
    simp only [StageFits, stage] at hs
    exact hs

theorem finish (h : k.InStep V A) (stage : k.stage = some (.sending v [])) :
    { k with actor := (k.actor.finish now window (some v)).1, stage := none }.InStep V A := by
  have hs := h.stage
  simp only [StageFits, stage] at hs
  obtain ⟨⟨target, hp, ht⟩, reached⟩ := hs
  constructor
  case live => rw [Actor.finish_stopped]; exact h.live
  case desired => exact fun u hu => h.desired u (by rw [← hu, Actor.finish_desired])
  case compiled =>
    intro u hu
    rw [Actor.finish_compiled] at hu
    rcases laterVersion_eq k.actor.compiled (some v) with he | he <;> rw [he] at hu
    · exact h.compiled u hu
    · exact Option.some.inj hu ▸ reached
  case rested => exact Actor.Rested.finish hp ht
  case stage => exact Actor.finish_not_compiling _

end InStep

end Worker

/-! ### The crew of the document -/

/-- Whoever waits for a version up to `V` and was told something was told that the document is compiled,
and its analysis has reached that version. -/
def Inquiry.Served (V : Int) (A : Option Int) (q : Inquiry) : Prop :=
  q.version ≤ V ∧ ∀ verdict, q.wait = .told verdict → verdict = .released ∧ HasReached A q.version

theorem Inquiry.Served.mono {q : Inquiry} {V V' : Int} {A A' : Option Int} (h : q.Served V A)
    (hV : V ≤ V') (hA : versionLt A' A = false) : q.Served V' A' :=
  ⟨by have := h.1; omega, fun verdict hw => ⟨(h.2 verdict hw).1, (h.2 verdict hw).2.of_le hA⟩⟩

namespace Session

variable {σ : Type} {s t : Session σ} {h : Host σ} {uri u : Uri} {w w' i : Nat}
  {V V' v : Int} {A A' : Option Int} {k : Worker}

/-- The worker `w` compiles the document `uri`: it takes part in everything that happens to the
document, nobody told it to stop, and those who wait for it are served. -/
structure Manned (uri : Uri) (w : Nat) (V : Int) (A : Option Int) (s : Session σ) : Prop where
  scheduler : s.schedulers.find? (·.1 == uri) = some (uri, w)
  worker : ∃ k, s.workers[w]? = some k ∧ k.document = uri ∧ k.InStep V A
  mail : ∀ order, (w, order) ∈ s.mail → ∃ v i, order = .compile v i ∧ v ≤ V
  inquiries : ∀ q ∈ s.inquiries, q.worker = w → q.Served V A

namespace Manned

theorem mono (hm : s.Manned uri w V A) (hV : V ≤ V') (hA : versionLt A' A = false) :
    s.Manned uri w V' A' where
  scheduler := hm.scheduler
  worker := by
    obtain ⟨k, hk, hu, hstep⟩ := hm.worker
    exact ⟨k, hk, hu, hstep.mono hV hA⟩
  mail := by
    intro order ho
    obtain ⟨v, i, rfl, hv⟩ := hm.mail order ho
    exact ⟨v, i, rfl, by omega⟩
  inquiries := fun q hq hw => (hm.inquiries q hq hw).mono hV hA

theorem frame (hm : s.Manned uri w V A) (same : s.SameCrew t) : t.Manned uri w V A where
  scheduler := same.schedulers ▸ hm.scheduler
  worker := same.workers ▸ hm.worker
  mail := same.mail ▸ hm.mail
  inquiries := same.inquiries ▸ hm.inquiries

theorem isOpen (hm : s.Manned uri w V A) : s.isOpen w = true := by
  obtain ⟨k, hk, -, hstep⟩ := hm.worker
  simp [Session.isOpen, hk, hstep.live]

theorem staff (hm : s.Manned uri w V A) : s.staff[w]? = some uri := by
  obtain ⟨k, hk, rfl, -⟩ := hm.worker
  simp [Session.staff, hk]

/-- Waiters are told: those of other workers anything, and those of this one only that their version is
compiled, when it is. -/
theorem tell (hm : s.Manned uri w V A) {vs : List (Nat × Verdict)}
    (told : ∀ p ∈ vs, ∃ w' v, s.Asks p.1 w' v ∧ (w' = w → p.2 = .released ∧ HasReached A v)) :
    (s.tell vs).Manned uri w V A where
  scheduler := by rw [tell_schedulers]; exact hm.scheduler
  worker := by rw [tell_workers]; exact hm.worker
  mail := by rw [tell_mail]; exact hm.mail
  inquiries := by
    intro q' hq' hw
    obtain ⟨i, hi⟩ := List.mem_iff_getElem?.1 hq'
    obtain ⟨q, hq, rfl | ⟨verdict, hv, -, rfl⟩⟩ := inquiry_tell hi
    · exact hm.inquiries _ (List.mem_of_getElem? hq) hw
    · refine ⟨(hm.inquiries q (List.mem_of_getElem? hq) hw).1, fun verdict' he => ?_⟩
      obtain rfl : verdict = verdict' := Wait.told.inj he
      obtain ⟨w', v, ⟨question, hasked⟩, hw'⟩ := told _ hv
      simp only [terms, List.getElem?_map, hq, Option.map_some, Inquiry.terms, Option.some.injEq,
        Prod.mk.injEq] at hasked
      obtain ⟨-, rfl, rfl⟩ := hasked
      exact hw' hw

/-- An order is on its way. To this worker it is one to compile a version up to that of the text. -/
theorem post (hm : s.Manned uri w V A) {order : Order Nat}
    (own : w' = w → ∃ v i, order = .compile v i ∧ v ≤ V)
    (asked : ∀ v i, order = .compile v (some i) → s.Asks i w' v) :
    (s.post w' order).Manned uri w V A := by
  unfold Session.post
  split
  · refine { hm with mail := ?_ }
    intro o ho
    rcases List.mem_append.1 ho with ho | ho
    · exact hm.mail o ho
    · obtain ⟨rfl, rfl⟩ := Prod.mk.inj (List.mem_singleton.1 ho)
      exact own rfl
  · next closed =>
    -- this worker takes orders, so that another one refused
    have other : w' ≠ w := fun he => closed (he ▸ hm.isOpen)
    refine hm.tell fun p hp => ?_
    obtain ⟨i, hi, rfl⟩ := List.mem_map.1 hp
    cases order with
    | stop => simp at hi
    | compile v waiter =>
      obtain rfl : waiter = some i := by simpa using hi
      exact ⟨w', v, asked v i rfl, fun he => absurd he other⟩

theorem scheduler_eq (hm : s.Manned uri w V A) : s.scheduler uri = (s, w) := by
  simp [Session.scheduler, hm.scheduler]

/-- Looking for the worker of a document, or hiring one, changes nothing for this document, and yields
this worker only for it. -/
theorem hire (hm : s.Manned uri w V A) (hs : Sound s) (u : Uri) :
    (s.scheduler u).1.Manned uri w V A ∧ ((s.scheduler u).2 = w → u = uri) := by
  have works := (hs.scheduler u).2
  have hm' : (s.scheduler u).1.Manned uri w V A := by
    unfold Session.scheduler
    split
    · exact hm
    · constructor
      case scheduler => simp [List.find?_append, hm.scheduler]
      case worker =>
        obtain ⟨k, hk, hu, hstep⟩ := hm.worker
        refine ⟨k, ?_, hu, hstep⟩
        rw [List.getElem?_append_left (List.getElem?_eq_some_iff.1 hk).1]
        exact hk
      case mail => exact hm.mail
      case inquiries => exact hm.inquiries
  refine ⟨hm', fun he => ?_⟩
  rw [he, hm'.staff] at works
  exact (Option.some.inj works).symm

theorem requestCompilation (hm : s.Manned uri w V A) (hs : Sound s) (u : Uri)
    (version : u = uri → s.versionOf uri ≤ V) : (s.requestCompilation u).Manned uri w V A := by
  obtain ⟨hm', hown⟩ := hm.hire hs u
  refine hm'.post (fun he => ⟨_, none, rfl, ?_⟩) fun v i ho => by cases ho
  have hu := hown he
  rw [hu]
  exact version hu

theorem stopScheduler (hm : s.Manned uri w V A) (hs : Sound s) (hu : u ≠ uri) :
    (s.stopScheduler u).Manned uri w V A := by
  unfold Session.stopScheduler
  split
  · exact hm
  · next u' w' hf =>
    have hu' : u' = u := by simpa using List.find?_some hf
    have works := hs.schedulers _ (List.mem_of_find?_eq_some hf)
    have hm' : ({ s with schedulers := s.schedulers.filter (·.1 != u) } : Session σ).Manned
        uri w V A := by
      refine { hm with scheduler := ?_ }
      rw [List.find?_filter, ← hm.scheduler]
      congr 1
      funext p
      by_cases hp : p.1 = uri
      · simp [hp, Ne.symm hu]
      · simp [hp]
    refine hm'.post (fun he => ?_) fun v i ho => by cases ho
    rw [he, hm.staff, hu'] at works
    exact absurd (Option.some.inj works).symm hu

theorem updateInquiry (hm : s.Manned uri w V A) {f : Inquiry → Inquiry}
    (hf : ∀ q, (f q).worker = q.worker ∧ (q.Served V A → (f q).Served V A)) (i : Nat) :
    (s.updateInquiry i f).Manned uri w V A where
  scheduler := hm.scheduler
  worker := hm.worker
  mail := hm.mail
  inquiries := by
    intro q' hq' hw
    obtain ⟨j, hj⟩ := List.mem_iff_getElem?.1 hq'
    simp only [Session.updateInquiry, List.getElem?_modify, Option.map_eq_map,
      Option.map_eq_some_iff] at hj
    obtain ⟨q, hq, rfl⟩ := hj
    have hmem := List.mem_of_getElem? hq
    by_cases hij : i = j
    · rw [if_pos hij] at hw ⊢
      exact (hf q).2 (hm.inquiries q hmem ((hf q).1 ▸ hw))
    · rw [if_neg hij] at hw ⊢
      exact hm.inquiries q hmem hw

theorem updateWorker (hm : s.Manned uri w V A) {f : Worker → Worker}
    (worker : s.workers[w']? = some k) (document : (f k).document = k.document)
    (own : w' = w → (f k).InStep V A) : (s.updateWorker w' f).Manned uri w V A where
  scheduler := hm.scheduler
  worker := by
    obtain ⟨k', hk', hu, hstep⟩ := hm.worker
    rw [getElem?_updateWorker worker]
    split
    · next he =>
      subst he
      obtain rfl : k = k' := Option.some.inj (worker.symm.trans hk')
      exact ⟨f k, rfl, document.trans hu, own rfl⟩
    · exact ⟨k', hk', hu, hstep⟩
  mail := hm.mail
  inquiries := hm.inquiries

/-- Another worker takes a step, and tells its own waiters. -/
theorem act_other (hm : s.Manned uri w V A) (worker : s.workers[w']? = some k) (other : w' ≠ w)
    (stage : Option Stage) {r : Actor Nat × List (Nat × Verdict)}
    (told : ∀ p ∈ r.2, ∃ v, s.Asks p.1 w' v) : (s.act w' k stage r).Manned uri w V A := by
  refine (hm.updateWorker worker rfl fun he => absurd he other).tell fun p hp => ?_
  obtain ⟨v, hv⟩ := told p hp
  exact ⟨w', v, hv, fun he => absurd he other⟩

/-- A worker takes a step, after which it is in step if it is the one of this document, and tells its
waiters, who asked for versions that it knows. -/
theorem act (hm : s.Manned uri w V A) (worker : s.workers[w']? = some k) {stage : Option Stage}
    {r : Actor Nat × List (Nat × Verdict)} {more : List Nat}
    (own : w' = w → { k with actor := r.1, stage }.InStep V A) (serves : k.actor.Serves more r)
    (asked : ∀ i ∈ k.actor.waiters ++ more, ∃ v, s.Asks i w' v ∧ r.1.Knows v) :
    (s.act w' k stage r).Manned uri w V A := by
  refine (hm.updateWorker worker rfl own).tell fun p hp => ?_
  obtain ⟨v, hv, knows⟩ := (serves.forall_waiters asked).1 p hp
  refine ⟨w', v, hv, fun he => ?_⟩
  -- a worker in step does not stop, so that it tells something only at rest
  rcases serves.verdict p hp with ⟨hr, idle, -⟩ | ⟨-, stopped⟩
  · exact ⟨hr, (own he).reached idle knows⟩
  · have live := (own he).live
    simp [stopped] at live

theorem discardMail (hm : s.Manned uri w V A) (hs : Sound s) (other : w' ≠ w) :
    (s.discardMail w').Manned uri w V A := by
  have hm' : ({ s with mail := s.mail.filter (·.1 != w') } : Session σ).Manned uri w V A :=
    { hm with mail := fun o ho => hm.mail o (List.mem_filter.1 ho).1 }
  refine hm'.tell fun p hp => ?_
  simp only [List.mem_map, List.mem_filterMap, List.mem_filter, beq_iff_eq] at hp
  obtain ⟨i, ⟨⟨w'', order⟩, ⟨hm'', rfl⟩, hi⟩, rfl⟩ := hp
  cases order with
  | stop => cases hi
  | compile v waiter =>
    obtain rfl : waiter = some i := hi
    exact ⟨w'', v, hs.asked w'' v i hm'', fun he => absurd he other⟩

/-- An order leaves the mail. -/
theorem dropOrder (hm : s.Manned uri w V A) {order : Order Nat} {mail : List (Nat × Order Nat)}
    (next : takeOrder? w' s.mail = some (order, mail)) :
    ({ s with mail } : Session σ).Manned uri w V A :=
  { hm with mail := fun o ho => hm.mail o ((mem_of_takeOrder? next).2 _ ho) }

theorem inquire (hm : s.Manned uri w V A) (hs : Sound s) (id : MessageId)
    (question : DocumentRequest) (version : s.versionOf uri ≤ V) :
    (s.inquire id question).Manned uri w V A := by
  unfold Session.inquire
  split
  · exact hm.frame ⟨rfl, rfl, rfl, rfl⟩
  · obtain ⟨hm', hown⟩ := hm.hire hs question.document
    refine ⟨hm'.scheduler, hm'.worker, hm'.mail, fun q hq hw => ?_⟩
    rcases List.mem_append.1 hq with hq | hq
    · exact hm'.inquiries q hq hw
    · obtain rfl := List.mem_singleton.1 hq
      refine ⟨?_, fun verdict he => by cases he⟩
      have hu := hown hw
      simp only [hu]
      exact version

theorem conclude (hm : s.Manned uri w V A) (i : Nat) (q : Inquiry) (m : Outgoing) :
    (s.conclude i q m).Manned uri w V A := by
  have hm' : ({ s with pending := s.pending.filter (·.1 != q.id) } : Session σ).Manned uri w V A :=
    hm.frame ⟨rfl, rfl, rfl, rfl⟩
  have done := hm'.updateInquiry (f := fun q => { q with wait := .answered })
    (fun q => ⟨rfl, fun hq => ⟨hq.1, fun verdict he => by cases he⟩⟩) i
  exact done.frame ⟨rfl, rfl, rfl, rfl⟩

end Manned

end Session

/-! ### The document -/

/-- Whether a report leaves a document open that the editor has in the version `current`: it neither
opens nor closes the document, and a change of it brings a newer version. -/
def Notice.LeavesOpen (uri : Uri) (current : Int) : Notice → Prop
  | .changed c => c.uri = uri → current < c.version
  | .saved _ => True
  | n => uri ∉ n.documents

namespace Session

variable {σ : Type} {s t : Session σ} {h : Host σ} {uri : Uri} {w : Nat} {V V' : Int}
  {A : Option Int}

/-- Whether a step leaves a document open: the server does not end, no report opens or closes the
document or takes it back to an older version, and the compiler does not crash on it. -/
def LeavesOpen (h : Host σ) (uri : Uri) (s : Session σ) : Step → Prop
  | .handle (.request _ method _) => method ≠ "shutdown"
  | .handle (.notification method params) =>
    ∀ n, Notice.read? method params = some n → n.LeavesOpen uri (s.versionOf uri)
  | .shutdown => False
  | .yield w => ∀ k job project, s.workers[w]? = some k → k.document = uri →
    k.stage = some (.calling job project) →
      ∃ o, (job.run h.compiler (compilerSettings h.files s.store project) project s.cache
        s.compiler).2.2 = .ok o
  | _ => True

/-- A document is open with a text of version `V` and an analysis of version `A`, and the worker `w`
compiles it. -/
structure Serving (uri : Uri) (w : Nat) (V : Int) (A : Option Int) (s : Session σ) : Prop where
  sound : Sound s
  distinct : s.store.Distinct
  document : ∃ d, s.store.find? uri = some d ∧ d.version = some V ∧ d.analysis.version = A
  crew : s.Manned uri w V A

namespace Serving

theorem versionOf (hv : s.Serving uri w V A) : s.versionOf uri = V := by
  obtain ⟨d, hd, hV, -⟩ := hv.document
  simp [Session.versionOf, hd, hV]

/-- What does not touch the store leaves the document as it is. -/
theorem keep (hv : s.Serving uri w V A) (sound : Sound t) (store : t.store = s.store)
    (crew : t.Manned uri w V A) : t.Serving uri w V A :=
  ⟨sound, store ▸ hv.distinct, store ▸ hv.document, crew⟩

/-- A report about other documents. -/
theorem heed_other (hv : s.Serving uri w V A) {n : Notice} (hu : uri ∉ n.documents) :
    (s.heed h n).Serving uri w V A where
  sound := hv.sound.heed n
  distinct := (edited_heed n s).distinct hv.distinct
  document := by
    rw [(edited_heed n s).find?_eq hv.distinct hu]
    exact hv.document
  crew := by
    have both : Sound (s.heed h n) ∧ (s.heed h n).Manned uri w V A := by
      refine heed_induction (P := fun s : Session σ => Sound s ∧ s.Manned uri w V A) ?_ ?_ ?_ ?_
        ⟨hv.sound, hv.crew⟩
      · exact fun _ _ same hp => ⟨hp.1.frame same, hp.2.frame same⟩
      · exact fun _ u hmem hp => ⟨hp.1.requestCompilation u,
          hp.2.requestCompilation hp.1 u fun he => absurd (he ▸ hmem) hu⟩
      · exact fun _ u hmem hp => ⟨hp.1.stopScheduler u,
          hp.2.stopScheduler hp.1 fun he => hu (he ▸ hmem)⟩
      · refine fun _ i hp => ⟨hp.1.updateInquiry (f := fun q => { q with cancelled := true })
          (fun _ => rfl) i, hp.2.updateInquiry (f := fun q => { q with cancelled := true }) ?_ i⟩
        exact fun q => ⟨rfl, fun hq => hq⟩
    exact both.2

/-- The document changes, or is saved, and does not go back to an older version. -/
theorem updateDocument (hv : s.Serving uri w V A) {f : Document → Document}
    (name : ∀ d, (f d).uri = d.uri) (analysis : ∀ d, (f d).analysis = d.analysis)
    (version : ∀ d, d.version = some V → (f d).version = some V') (hV : V ≤ V') :
    (s.updateDocument h uri f).Serving uri w V' A := by
  obtain ⟨d, hd, hdV, hdA⟩ := hv.document
  have registered := hv.distinct.register_of_find? h.files hd (uri.extension?.getD "") none
  let t : Session σ := { s with store := s.store.removeDuplicates.update uri f }
  have ht : s.updateDocument h uri f = t.recompile uri := by
    simp [Session.updateDocument, Store.registerByExtension, registered, t]
  have found : t.store.find? uri = some (f d) := by
    simp only [t]
    rw [Store.find?_update_self fun d hd => (name d).trans hd,
      hv.distinct.find?_removeDuplicates, hd]
    rfl
  have newer : ({ t with cache := t.cache.erase uri } : Session σ).versionOf uri ≤ V' := by
    simp [Session.versionOf, found, version d hdV]
  have sound : Sound ({ t with cache := t.cache.erase uri } : Session σ) :=
    hv.sound.frame ⟨rfl, rfl, rfl, rfl⟩
  have crew : ({ t with cache := t.cache.erase uri } : Session σ).Manned uri w V' A :=
    (hv.crew.mono hV (versionLt_self A)).frame ⟨rfl, rfl, rfl, rfl⟩
  rw [ht]
  constructor
  case sound => exact sound.requestCompilation uri
  case distinct =>
    rw [recompile_store]
    simp only [t, Store.Distinct]
    rw [Store.uris_update fun d hd => (name d).trans hd]
    exact Store.distinct_removeDuplicates s.store
  case document =>
    rw [recompile_store]
    exact ⟨f d, found, version d hdV, by rw [analysis d, hdA]⟩
  case crew => exact crew.requestCompilation sound uri fun _ => newer

theorem heed (hv : s.Serving uri w V A) {n : Notice} (ok : n.LeavesOpen uri V) :
    ∃ V', (s.heed h n).Serving uri w V' A := by
  by_cases hu : uri ∈ n.documents
  · cases n with
    | changed c =>
      obtain rfl : uri = c.uri := by simpa [Notice.documents] using hu
      exact ⟨c.version, hv.updateDocument (fun _ => rfl) (fun _ => rfl) (fun _ _ => rfl)
        (Int.le_of_lt (ok rfl))⟩
    | saved c =>
      obtain rfl : uri = c.uri := by simpa [Notice.documents] using hu
      refine ⟨V, hv.updateDocument (fun d => Store.uri_saved d c.text)
        (fun d => Store.analysis_saved d c.text) (fun d hd => ?_) (Int.le_refl V)⟩
      cases c.text <;> exact hd
    | opened | closed | notebookOpened | notebookChanged | notebookSaved | notebookClosed
    | configured | cancelled => exact absurd hu ok
  · exact ⟨V, hv.heed_other hu⟩

theorem ask (hv : s.Serving uri w V A) {id : MessageId} {method : String} {params : Json}
    (ok : method ≠ "shutdown") : (s.ask id method params).Serving uri w V A := by
  refine hv.keep (hv.sound.ask id method params) (ask_store id method params) ?_
  unfold Session.ask
  rw [if_neg ok]
  split
  · exact hv.crew.frame ⟨rfl, rfl, rfl, rfl⟩
  · split
    · exact hv.crew.frame ⟨rfl, rfl, rfl, rfl⟩
    · exact hv.crew.inquire hv.sound id _ (Int.le_of_eq hv.versionOf)

theorem receive (hv : s.Serving uri w V A) {m : Message} (ok : s.LeavesOpen h uri (.handle m)) :
    ∃ V', (s.receive h m).Serving uri w V' A := by
  cases m with
  | request id method params => exact ⟨V, hv.ask ok⟩
  | notification method params =>
    simp only [Session.receive, notify]
    split
    · exact ⟨V, hv⟩
    · next n hn => exact hv.heed (hv.versionOf ▸ ok n hn)
  | response id => exact ⟨V, hv⟩

/-- The worker of the document takes an order, which is none to stop. -/
theorem takeOrder (hv : s.Serving uri w V A) {k : Worker} {order : Order Nat}
    (worker : s.workers[w]? = some k) (mem : (w, order) ∈ s.mail) (now window : Nat) :
    { k with actor := (k.actor.receive now window order).1 }.InStep V A := by
  obtain ⟨k', hk', -, instep⟩ := hv.crew.worker
  obtain rfl : k = k' := Option.some.inj (worker.symm.trans hk')
  obtain ⟨v, i, rfl, hle⟩ := hv.crew.mail order mem
  exact instep.receive hle

/-- Whichever worker stores an outcome, the analysis does not go back, and it has the version of the
outcome if the worker is the document's own. -/
theorem find?_afterCall (hv : s.Serving uri w V A) {k : Worker} {d : Document} {version : Int}
    {result : Except Crash Outcome} (worker : s.workers[w']? = some k)
    (stage : k.stage = some (.returned version result)) (hd : s.store.find? uri = some d) :
    ∃ a, (afterCall s.store k.document result).1.find? uri = some { d with analysis := a } ∧
      versionLt a.version d.analysis.version = false ∧ (w' = w → HasReached a.version version) := by
  by_cases he : w' = w
  · subst he
    obtain ⟨k', hk', hu, instep⟩ := hv.crew.worker
    obtain rfl : k = k' := Option.some.inj (worker.symm.trans hk')
    have fits := instep.stage
    simp only [Worker.StageFits, stage] at fits
    obtain ⟨-, o, rfl, hov⟩ := fits
    rw [hu]
    obtain ⟨a, ha, hlt, reached⟩ := Store.find?_afterCall_self hd hov
    exact ⟨a, ha, hlt, fun _ => reached⟩
  · obtain ⟨a, ha, hlt⟩ := Store.find?_afterCall hd k.document result
    exact ⟨a, ha, hlt, fun h => absurd h he⟩

/-- **Every step that leaves the document open keeps it served.** -/
theorem step (hv : s.Serving uri w V A) {e : Step} (ok : s.LeavesOpen h uri e)
    (hstep : step? h s e = some t) : ∃ V' A', t.Serving uri w V' A' := by
  have sound := hv.sound.step hstep
  obtain ⟨k₀, hk₀, hu₀, instep⟩ := hv.crew.worker
  obtain ⟨d, hd, hdV, hdA⟩ := hv.document
  -- the worker of the step is this document's, or it is another one
  have own : ∀ {w' k}, s.workers[w']? = some k → w' = w → k₀ = k := fun worker he =>
    Option.some.inj (hk₀.symm.trans (he ▸ worker))
  cases taken_of_step? hstep with
  | handle m =>
    obtain ⟨V', hv'⟩ := hv.receive (h := h) ok
    exact ⟨V', A, hv'⟩
  | shutdown => exact ok.elim
  | tick time => exact ⟨V, A, hv.keep sound rfl (hv.crew.frame ⟨rfl, rfl, rfl, rfl⟩)⟩
  | @receive w' k order mail worker next =>
    refine ⟨V, A, hv.keep sound (by simp [act, updateWorker]) ?_⟩
    have mem := (mem_of_takeOrder? next).1
    have less := hv.crew.dropOrder next
    by_cases he : w' = w
    · subst he
      obtain rfl := own worker rfl
      exact less.act worker (fun _ => hv.takeOrder worker mem _ _) (Actor.receive_serves instep.live)
        (hv.sound.asked_receive worker instep.live mem _ _)
    · exact less.act_other worker he _ (hv.sound.told_receive worker mem _ _)
  | @stop w' k order mail worker next free stops =>
    refine ⟨V, A, hv.keep sound (by simp [act, updateWorker, discardMail]) ?_⟩
    have mem := (mem_of_takeOrder? next).1
    -- nobody has told this worker to stop
    have other : w' ≠ w := by
      rintro rfl
      have := (hv.takeOrder worker mem s.now h.window).live
      simp [stops] at this
    have fewer : Sound ({ s with mail } : Session σ) := hv.sound.dropOrder next
    have acted := (hv.crew.dropOrder next).act_other worker other (Stage.orphaned k.stage)
      (hv.sound.told_receive worker mem s.now h.window)
    exact acted.discardMail (fewer.act worker _ (hv.sound.held_receive worker mem _ _)) other
  | rest worker phase elapsed live done =>
    refine ⟨V, A, hv.keep sound (by simp [act, updateWorker]) ?_⟩
    refine hv.crew.act worker (fun he => ?_) (Actor.rest_serves _) fun i hi => ?_
    · exact own worker he ▸ instep.rest (own worker he ▸ done)
    · exact hv.sound.held _ _ worker i (by simpa using hi)
  | start worker phase elapsed live due =>
    refine ⟨V, A, hv.keep sound (by simp [act, updateWorker]) ?_⟩
    refine hv.crew.act worker (fun he => ?_) (Actor.start_serves _) fun i hi => ?_
    · exact own worker he ▸ instep.start
    · exact hv.sound.held _ _ worker i (by simpa using hi)
  | @miss w' k worker stage closed =>
    refine ⟨V, A, hv.keep sound (by simp [act, updateWorker]) ?_⟩
    refine hv.crew.act worker (fun he => ?_) (Actor.finish_serves _ _ _ _)
      (hv.sound.asked_finish worker _ _ _)
    obtain rfl := own worker he
    have := Store.job?_eq_none closed
    rw [hu₀, hd] at this
    cases this
  | @call w' k job worker stage opened =>
    refine ⟨V, A, hv.keep sound rfl (hv.crew.updateWorker worker rfl fun he => ?_)⟩
    obtain rfl := own worker he
    obtain ⟨d', hd', hj⟩ := Store.job?_eq_some opened
    rw [hu₀, hd] at hd'
    cases hd'
    exact instep.call stage (by rw [hj, hdV]; rfl) _
  | @yield w' k job project compiler cache result worker stage run =>
    refine ⟨V, A, hv.keep sound rfl ?_⟩
    refine Manned.updateWorker ?_ worker ?_ fun he => ?_
    · exact hv.crew.frame ⟨rfl, rfl, rfl, rfl⟩
    · rfl
    obtain rfl := own worker he
    obtain ⟨o, ho⟩ := ok k₀ job project worker hu₀ stage
    have version := job.run_version _ _ _ _ _ ho
    rw [run] at ho
    obtain rfl : result = .ok o := ho
    simp only [instep.live]
    exact instep.yield stage version
  | @accept w' k version result worker stage =>
    obtain ⟨a, ha, hlt, reached⟩ := hv.find?_afterCall worker stage hd
    have crew := hv.crew.mono (Int.le_refl V) (hdA ▸ hlt)
    refine ⟨V, a.version, sound, hv.distinct.afterCall _ _, ⟨_, ha, hdV, rfl⟩, ?_⟩
    refine Manned.updateWorker ?_ worker ?_ fun he => ?_
    · exact crew.frame ⟨rfl, rfl, rfl, rfl⟩
    · rfl
    obtain rfl := own worker he
    exact (instep.mono (Int.le_refl V) (hdA ▸ hlt)).accept stage (reached he) _
  | announce worker stage =>
    refine ⟨V, A, hv.keep sound rfl ?_⟩
    refine Manned.frame (hv.crew.updateWorker worker rfl fun he => ?_) ⟨rfl, rfl, rfl, rfl⟩
    exact own worker he ▸ instep.announce (own worker he ▸ stage)
  | finish worker stage =>
    refine ⟨V, A, hv.keep sound (by simp [act, updateWorker]) ?_⟩
    refine hv.crew.act worker (fun he => ?_) (Actor.finish_serves _ _ _ _)
      (hv.sound.asked_finish worker _ _ _)
    exact own worker he ▸ instep.finish (own worker he ▸ stage)
  | @place i q inquiry wait =>
    refine ⟨V, A, hv.keep sound (post_store _ _) ?_⟩
    have mem := List.mem_of_getElem? inquiry
    have same : (s.updateInquiry i fun q => { q with wait := .placed }).terms = s.terms :=
      terms_updateInquiry (f := fun q => { q with wait := .placed }) (fun _ => rfl) i
    refine (hv.crew.updateInquiry (f := fun q => { q with wait := .placed })
      (fun q => ⟨rfl, fun hq => ⟨hq.1, fun verdict he => by cases he⟩⟩) i).post ?_ ?_
    · exact fun he => ⟨q.version, some i, rfl, (hv.crew.inquiries q mem he).1⟩
    · intro v j ho
      cases ho
      refine ⟨q.question, ?_⟩
      rw [same]
      simp [terms, inquiry, Inquiry.terms]
  | answerNothing inquiry wait =>
    exact ⟨V, A, hv.keep sound rfl (hv.crew.conclude _ _ _)⟩
  | answer inquiry wait =>
    exact ⟨V, A, hv.keep sound rfl (hv.crew.conclude _ _ _)⟩
  | giveUp inquiry cancelled wait =>
    exact ⟨V, A, hv.keep sound rfl (hv.crew.conclude _ _ _)⟩

theorem run {es : List Step} (run : Run (step? h) (LeavesOpen h uri) s es t)
    (hv : s.Serving uri w V A) : ∃ V' A', t.Serving uri w V' A' := by
  refine run.invariant (I := fun t : Session σ => ∃ V A, t.Serving uri w V A) ?_ ⟨V, A, hv⟩
  rintro a e b ⟨V, A, hv⟩ ok hstep
  exact hv.step ok hstep

end Serving

end Session

end LanguageServer
