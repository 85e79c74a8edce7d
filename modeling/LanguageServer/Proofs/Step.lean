import LanguageServer.Session.Step
import LanguageServer.Proofs.Actor
import LanguageServer.Proofs.Handling

/-!
# What a step is

* `Session.Taken`: all that a step can be, with what it finds and what it leaves;
* `Session.taken_of_step?`: every step is one of these;
* `Session.staff`, `Session.terms`: the documents of the workers and what inquiries asked for, which
  only grow.
-/

namespace LanguageServer

/-- What an inquiry asked for when it was made: its question, and the worker and the version that it
waits for. -/
def Inquiry.terms (q : Inquiry) : DocumentRequest × Nat × Int := (q.question, q.worker, q.version)

namespace Session

variable {σ : Type} {s t : Session σ} {h : Host σ}

/-- All that a step can be. The order to stop, the two ends of a window, and a compilation that finds
its document closed or has sent all its messages are cases of their own. -/
inductive Taken (h : Host σ) (s : Session σ) : Step → Session σ → Prop
  | handle (m : Message) : Taken h s (.handle m) (s.receive h m)
  | shutdown : Taken h s .shutdown s.shutdown
  | tick (time : Nat) : Taken h s (.tick time) { s with now := s.now + time }
  | receive {w : Nat} {k : Worker} {order : Order Nat} {mail : List (Nat × Order Nat)}
      (worker : s.workers[w]? = some k) (next : takeOrder? w s.mail = some (order, mail))
      (free : Stage.isSending k.stage = false)
      (goes : (k.actor.receive s.now h.window order).1.stopped = false) :
      Taken h s (.receive w)
        ({ s with mail }.act w k k.stage (k.actor.receive s.now h.window order))
  | stop {w : Nat} {k : Worker} {order : Order Nat} {mail : List (Nat × Order Nat)}
      (worker : s.workers[w]? = some k) (next : takeOrder? w s.mail = some (order, mail))
      (free : Stage.isSending k.stage = false)
      (stops : (k.actor.receive s.now h.window order).1.stopped = true) :
      Taken h s (.receive w)
        (({ s with mail }.act w k (Stage.orphaned k.stage)
          (k.actor.receive s.now h.window order)).discardMail w)
  | rest {w : Nat} {k : Worker} {time : Nat} (worker : s.workers[w]? = some k)
      (phase : k.actor.phase = .settling time) (elapsed : time ≤ s.now)
      (live : k.actor.stopped = false) (done : k.actor.isUpToDate = true) :
      Taken h s (.expire w) (s.act w k none k.actor.rest)
  | start {w : Nat} {k : Worker} {time : Nat} (worker : s.workers[w]? = some k)
      (phase : k.actor.phase = .settling time) (elapsed : time ≤ s.now)
      (live : k.actor.stopped = false) (due : k.actor.isUpToDate = false) :
      Taken h s (.expire w)
        (s.act w k (some .starting) ({ k.actor with phase := .compiling k.actor.desired }, []))
  | miss {w : Nat} {k : Worker} (worker : s.workers[w]? = some k)
      (stage : k.stage = some .starting) (closed : s.store.job? k.document = none) :
      Taken h s (.call w) (s.act w k none (k.actor.finish s.now h.window none))
  | call {w : Nat} {k : Worker} {job : Job} (worker : s.workers[w]? = some k)
      (stage : k.stage = some .starting) (opened : s.store.job? k.document = some job) :
      Taken h s (.call w)
        (s.updateWorker w fun k =>
          { k with stage := some (.calling job (Project.discover h.files job.files s.settings)) })
  | yield {w : Nat} {k : Worker} {job : Job} {project : Project} {compiler : σ}
      {cache : ParseCache} {result : Except Crash Outcome} (worker : s.workers[w]? = some k)
      (stage : k.stage = some (.calling job project))
      (run : job.run h.compiler (compilerSettings h.files s.store project) project s.cache
        s.compiler = (compiler, cache, result)) :
      Taken h s (.yield w)
        ({ s with compiler, cache }.updateWorker w fun k' =>
          { k' with stage := if k.actor.stopped then none else some (.returned job.version result) })
  | accept {w : Nat} {k : Worker} {version : Int} {result : Except Crash Outcome}
      (worker : s.workers[w]? = some k) (stage : k.stage = some (.returned version result)) :
      Taken h s (.accept w)
        ({ s with store := (afterCall s.store k.document result).1 }.updateWorker w fun k' =>
          { k' with stage := some (.sending version (afterCall s.store k.document result).2) })
  | announce {w : Nat} {k : Worker} {version : Int} {m : Outgoing} {rest : List Outgoing}
      (worker : s.workers[w]? = some k) (stage : k.stage = some (.sending version (m :: rest))) :
      Taken h s (.announce w)
        ((s.updateWorker w fun k => { k with stage := some (.sending version rest) }).send m)
  | finish {w : Nat} {k : Worker} {version : Int} (worker : s.workers[w]? = some k)
      (stage : k.stage = some (.sending version [])) :
      Taken h s (.announce w) (s.act w k none (k.actor.finish s.now h.window (some version)))
  | place {i : Nat} {q : Inquiry} (inquiry : s.inquiries[i]? = some q) (wait : q.wait = .unplaced) :
      Taken h s (.place i)
        ((s.updateInquiry i fun q => { q with wait := .placed }).post q.worker
          (.compile q.version (some i)))
  | answerNothing {i : Nat} {q : Inquiry} (inquiry : s.inquiries[i]? = some q)
      (wait : q.wait = .told .closed) :
      Taken h s (.answer i) (s.conclude i q (.result q.id .null))
  | answer {i : Nat} {q : Inquiry} (inquiry : s.inquiries[i]? = some q)
      (wait : q.wait = .told .released) :
      Taken h s (.answer i) (s.conclude i q (.result q.id
        (((Snapshot.capture? s.store q.question.document).map
          (q.question.answer h.files)).getD .null)))
  | giveUp {i : Nat} {q : Inquiry} (inquiry : s.inquiries[i]? = some q)
      (cancelled : q.cancelled = true) (wait : q.wait ≠ .answered) :
      Taken h s (.giveUp i) (s.conclude i q (.refusal q.id .cancelled))

theorem taken_of_receiveOrder? {w : Nat} (hs : s.receiveOrder? h w = some t) :
    Taken h s (.receive w) t := by
  simp only [receiveOrder?, Option.bind_eq_bind, Option.bind_eq_some_iff] at hs
  obtain ⟨k, hk, ⟨order, mail⟩, hn, hs⟩ := hs
  split at hs
  · cases hs
  · next hfree =>
    have free : Stage.isSending k.stage = false := by simpa using hfree
    split at hs <;> cases hs
    · next hstop => exact .stop hk hn free hstop
    · next hgo => exact .receive hk hn free (by simpa using hgo)

theorem taken_of_expire? {w : Nat} (hs : s.expire? w = some t) : Taken h s (.expire w) t := by
  simp only [expire?, Option.bind_eq_bind, Option.bind_eq_some_iff] at hs
  obtain ⟨k, hk, hs⟩ := hs
  split at hs
  · next time hp =>
    split at hs
    · cases hs
    · next hg =>
      obtain ⟨live, elapsed⟩ : k.actor.stopped = false ∧ time ≤ s.now := by simpa using hg
      obtain ⟨hu, he⟩ | ⟨hu, he⟩ := Actor.expire_cases k.actor <;> rw [he] at hs <;> cases hs
      · exact .rest hk hp elapsed live hu
      · exact .start hk hp elapsed live hu
  · cases hs
  · cases hs

theorem taken_of_call? {w : Nat} (hs : s.call? h w = some t) : Taken h s (.call w) t := by
  simp only [call?, Option.bind_eq_bind, Option.bind_eq_some_iff] at hs
  obtain ⟨k, hk, hs⟩ := hs
  split at hs
  · next hst =>
    split at hs <;> cases hs
    · next hj => exact .miss hk hst hj
    · next hj => exact .call hk hst hj
  · cases hs

theorem taken_of_yield? {w : Nat} (hs : s.yield? h w = some t) : Taken h s (.yield w) t := by
  simp only [yield?, Option.bind_eq_bind, Option.bind_eq_some_iff] at hs
  obtain ⟨k, hk, hs⟩ := hs
  split at hs
  · next hst =>
    cases hs
    exact .yield hk hst rfl
  · cases hs

theorem taken_of_accept? {w : Nat} (hs : s.accept? w = some t) : Taken h s (.accept w) t := by
  simp only [accept?, Option.bind_eq_bind, Option.bind_eq_some_iff] at hs
  obtain ⟨k, hk, hs⟩ := hs
  split at hs
  · next hst =>
    cases hs
    exact .accept hk hst
  · cases hs

theorem taken_of_announce? {w : Nat} (hs : s.announce? h w = some t) :
    Taken h s (.announce w) t := by
  simp only [announce?, Option.bind_eq_bind, Option.bind_eq_some_iff] at hs
  obtain ⟨k, hk, hs⟩ := hs
  split at hs <;> cases hs
  · next hst => exact .announce hk hst
  · next hst => exact .finish hk hst

theorem taken_of_place? {i : Nat} (hs : s.place? i = some t) : Taken h s (.place i) t := by
  simp only [place?, Option.bind_eq_bind, Option.bind_eq_some_iff] at hs
  obtain ⟨q, hq, hs⟩ := hs
  split at hs <;> cases hs
  next hw => exact .place hq hw

theorem taken_of_answer? {i : Nat} (hs : s.answer? h i = some t) : Taken h s (.answer i) t := by
  simp only [answer?, Option.bind_eq_bind, Option.bind_eq_some_iff] at hs
  obtain ⟨q, hq, hs⟩ := hs
  split at hs <;> cases hs
  · next hw => exact .answerNothing hq hw
  · next hw => exact .answer hq hw

theorem taken_of_giveUp? {i : Nat} (hs : s.giveUp? i = some t) : Taken h s (.giveUp i) t := by
  simp only [giveUp?, Option.bind_eq_bind, Option.bind_eq_some_iff] at hs
  obtain ⟨q, hq, hs⟩ := hs
  split at hs <;> cases hs
  next hg =>
    simp only [Bool.and_eq_true, bne_iff_ne, ne_eq] at hg
    exact .giveUp hq hg.1 hg.2

/-- Every step is one of these. -/
theorem taken_of_step? {e : Step} (hs : step? h s e = some t) : Taken h s e t := by
  cases e with
  | handle m => cases hs; exact .handle m
  | shutdown => cases hs; exact .shutdown
  | tick time => cases hs; exact .tick time
  | receive w => exact taken_of_receiveOrder? hs
  | expire w => exact taken_of_expire? hs
  | call w => exact taken_of_call? hs
  | yield w => exact taken_of_yield? hs
  | accept w => exact taken_of_accept? hs
  | announce w => exact taken_of_announce? hs
  | place i => exact taken_of_place? hs
  | answer i => exact taken_of_answer? hs
  | giveUp i => exact taken_of_giveUp? hs

/-! ### Workers and inquiries by their numbers -/

/-- The documents of the workers. -/
def staff (s : Session σ) : List Uri := s.workers.map (·.document)

/-- What the inquiries asked for. -/
def terms (s : Session σ) : List (DocumentRequest × Nat × Int) := s.inquiries.map Inquiry.terms

theorem isOpen_iff {w : Nat} :
    s.isOpen w = true ↔ ∃ k, s.workers[w]? = some k ∧ k.actor.stopped = false := by
  simp [isOpen, Option.any_eq_true]

theorem getElem?_concat_cases {α : Type} {xs : List α} {x y : α} {i : Nat}
    (hi : (xs ++ [x])[i]? = some y) : xs[i]? = some y ∨ i = xs.length ∧ y = x := by
  rw [List.getElem?_append] at hi
  split at hi
  · exact Or.inl hi
  · next hlen =>
    obtain ⟨hz, rfl⟩ := List.getElem?_eq_some_iff.1 hi
    simp only [List.length_singleton, Nat.lt_one_iff] at hz
    exact Or.inr ⟨by omega, by simp⟩

theorem getElem?_updateWorker {w : Nat} {k : Worker} {f : Worker → Worker}
    (worker : s.workers[w]? = some k) (v : Nat) :
    (s.updateWorker w f).workers[v]? = if v = w then some (f k) else s.workers[v]? := by
  by_cases hv : v = w
  · subst hv
    simp [updateWorker, worker]
  · simp [updateWorker, List.getElem?_modify_ne f _ (Ne.symm hv), hv]

theorem staff_updateWorker {w : Nat} {k : Worker} {f : Worker → Worker}
    (worker : s.workers[w]? = some k) (document : (f k).document = k.document) :
    (s.updateWorker w f).staff = s.staff := by
  refine List.ext_getElem? fun v => ?_
  simp only [staff, List.getElem?_map, getElem?_updateWorker worker]
  split
  · next hv => simp [hv, worker, document]
  · rfl

theorem getElem?_act {w : Nat} {k : Worker} (worker : s.workers[w]? = some k)
    (stage : Option Stage) (r : Actor Nat × List (Nat × Verdict)) (v : Nat) :
    (s.act w k stage r).workers[v]? =
      if v = w then some { k with actor := r.1, stage } else s.workers[v]? := by
  rw [act, tell_workers]
  exact getElem?_updateWorker worker v

theorem terms_updateInquiry {f : Inquiry → Inquiry} (hf : ∀ q, (f q).terms = q.terms) (i : Nat) :
    (s.updateInquiry i f).terms = s.terms := by
  refine List.ext_getElem? fun j => ?_
  simp only [terms, updateInquiry, List.getElem?_map, List.getElem?_modify]
  split <;> cases s.inquiries[j]? <;> simp [hf]

/-- An inquiry after waiters were told is as it was, or heard what it waited for. -/
theorem inquiry_tell {vs : List (Nat × Verdict)} {i : Nat} {q' : Inquiry}
    (hq : (s.tell vs).inquiries[i]? = some q') :
    ∃ q, s.inquiries[i]? = some q ∧
      (q' = q ∨ ∃ v, (i, v) ∈ vs ∧ q.wait = .placed ∧ q' = { q with wait := .told v }) := by
  unfold tell at hq
  induction vs generalizing s with
  | nil => exact ⟨q', hq, Or.inl rfl⟩
  | cons v vs ih =>
    obtain ⟨q, hq, hcase⟩ := ih hq
    simp only [updateInquiry, List.getElem?_modify, Option.map_eq_map, Option.map_eq_some_iff] at hq
    obtain ⟨q₀, hq₀, rfl⟩ := hq
    refine ⟨q₀, hq₀, ?_⟩
    by_cases hv : v.1 = i ∧ q₀.wait = .placed
    · -- it heard the first verdict, and nothing after it
      obtain ⟨rfl, hw⟩ := hv
      simp only [if_true, hw] at hcase
      rcases hcase with rfl | ⟨v', -, hw', -⟩
      · exact Or.inr ⟨v.2, List.mem_cons_self, hw, rfl⟩
      · cases hw'
    · have same : (if v.1 = i then
          (if q₀.wait = .placed then { q₀ with wait := .told v.2 } else q₀) else q₀) = q₀ := by
        split
        · next hi => rw [if_neg fun hw => hv ⟨hi, hw⟩]
        · rfl
      rw [same] at hcase
      rcases hcase with rfl | ⟨v', hv', hw', rfl⟩
      · exact Or.inl rfl
      · exact Or.inr ⟨v', List.mem_cons_of_mem _ hv', hw', rfl⟩

@[simp] theorem tell_terms (vs : List (Nat × Verdict)) : (s.tell vs).terms = s.terms := by
  unfold tell
  induction vs generalizing s with
  | nil => rfl
  | cons v vs ih =>
    rw [List.foldl_cons, ih]
    refine terms_updateInquiry (fun q => ?_) v.1
    split <;> rfl

/-! ### Inquiries later on -/

end Session

/-- An inquiry later on: it is the same request and asks for the same, it has no answer that it did not
have, and it still waits if it did. -/
structure Inquiry.Later (q q' : Inquiry) : Prop where
  id : q'.id = q.id
  terms : q'.terms = q.terms
  answered : q'.wait = .answered → q.wait = .answered
  unplaced : q'.wait = .unplaced → q.wait = .unplaced

theorem Inquiry.Later.refl (q : Inquiry) : q.Later q := ⟨rfl, rfl, fun h => h, fun h => h⟩

namespace Session

variable {σ : Type} {s t u : Session σ} {h : Host σ}

/-- The inquiries of a session are there later on. -/
def Recalls (s t : Session σ) : Prop :=
  ∀ (i : Nat) (q : Inquiry), s.inquiries[i]? = some q →
    ∃ q', t.inquiries[i]? = some q' ∧ q.Later q'

namespace Recalls

theorem of_eq (he : t.inquiries = s.inquiries) : s.Recalls t :=
  fun _ q hq => ⟨q, he ▸ hq, .refl q⟩

theorem trans (first : s.Recalls t) (second : t.Recalls u) : s.Recalls u := by
  intro i q hq
  obtain ⟨q', hq', later⟩ := first i q hq
  obtain ⟨q'', hq'', later'⟩ := second i q' hq'
  exact ⟨q'', hq'', later'.id.trans later.id, later'.terms.trans later.terms,
    fun ha => later.answered (later'.answered ha), fun hu => later.unplaced (later'.unplaced hu)⟩

theorem updateInquiry {f : Inquiry → Inquiry} (hf : ∀ q : Inquiry, q.Later (f q)) (s : Session σ)
    (i : Nat) : s.Recalls (s.updateInquiry i f) := by
  intro j q hq
  refine ⟨if i = j then f q else q, ?_, ?_⟩
  · simp [Session.updateInquiry, List.getElem?_modify, hq]
  · split
    · exact hf q
    · exact .refl q

theorem tell (s : Session σ) (vs : List (Nat × Verdict)) : s.Recalls (s.tell vs) := by
  unfold Session.tell
  refine foldl_preserves (P := fun t : Session σ => s.Recalls t) (fun t p _ ht => ?_) (of_eq rfl)
  refine ht.trans (updateInquiry (fun q => ?_) t p.1)
  split
  · exact ⟨rfl, rfl, (nomatch ·), (nomatch ·)⟩
  · exact .refl q

theorem post (s : Session σ) (w : Nat) (order : Order Nat) : s.Recalls (s.post w order) := by
  unfold Session.post
  split
  · exact of_eq rfl
  · exact tell s _

theorem requestCompilation (s : Session σ) (uri : Uri) : s.Recalls (s.requestCompilation uri) :=
  (of_eq (scheduler_inquiries uri)).trans (post _ _ _)

theorem stopScheduler (s : Session σ) (uri : Uri) : s.Recalls (s.stopScheduler uri) := by
  unfold Session.stopScheduler
  split
  · exact of_eq rfl
  · exact (of_eq (by rfl)).trans (post _ _ _)

theorem shutdown (s : Session σ) : s.Recalls s.shutdown :=
  foldl_preserves (P := fun t : Session σ => s.Recalls t) (fun t _ _ ht => ht.trans (post t _ _))
    (of_eq rfl)

theorem inquire (s : Session σ) (id : MessageId) (question : DocumentRequest) :
    s.Recalls (s.inquire id question) := by
  unfold Session.inquire
  split
  · exact of_eq rfl
  · intro i q hq
    refine ⟨q, ?_, .refl q⟩
    simp only [scheduler_inquiries]
    rw [List.getElem?_append_left (List.getElem?_eq_some_iff.1 hq).1, hq]

theorem receive (s : Session σ) (m : Message) : s.Recalls (s.receive h m) := by
  refine receive_induction (P := fun t : Session σ => s.Recalls t) ?_ m ?_ ?_ ?_ ?_ ?_ (of_eq rfl)
  · exact fun a b same ha => ha.trans (of_eq same.inquiries)
  · exact fun a u ha => ha.trans (requestCompilation a u)
  · exact fun a u ha => ha.trans (stopScheduler a u)
  · exact fun a i ha => ha.trans (updateInquiry (f := fun q => { q with cancelled := true })
      (fun _ => ⟨rfl, rfl, fun h => h, fun h => h⟩) a i)
  · exact fun a ha => ha.trans (shutdown a)
  · exact fun a id question ha => ha.trans (inquire a id question)

theorem act (s : Session σ) (w : Nat) (k : Worker) (stage : Option Stage)
    (r : Actor Nat × List (Nat × Verdict)) : s.Recalls (s.act w k stage r) :=
  tell (s.updateWorker w _) r.2

theorem discardMail (s : Session σ) (w : Nat) : s.Recalls (s.discardMail w) :=
  tell { s with mail := s.mail.filter (·.1 != w) } _

end Recalls

/-- An inquiry that is concluded is the same request, and no other inquiry changes. -/
theorem inquiry_conclude {i j : Nat} {q p : Inquiry} (hq : s.inquiries[j]? = some q) (m : Outgoing) :
    ∃ q', (s.conclude i p m).inquiries[j]? = some q' ∧ q'.id = q.id ∧ q'.terms = q.terms ∧
      (q'.wait = .answered → q.wait = .answered ∨ i = j) ∧
      (q'.wait = .unplaced → q.wait = .unplaced) := by
  refine ⟨if i = j then { q with wait := .answered } else q, ?_, ?_⟩
  · simp [conclude, send, Session.updateInquiry, List.getElem?_modify, hq]
  · split
    · next he => exact ⟨rfl, rfl, fun _ => Or.inr he, fun hu => by cases hu⟩
    · exact ⟨rfl, rfl, Or.inl, fun hu => hu⟩

/-- **An inquiry is there after every step, and gets its answer only when it answers or gives up.** An
order that was placed is not placed again. -/
theorem inquiry_step {e : Step} (hstep : step? h s e = some t) {i : Nat} {q : Inquiry}
    (hq : s.inquiries[i]? = some q) :
    ∃ q', t.inquiries[i]? = some q' ∧ q'.id = q.id ∧ q'.terms = q.terms ∧
      (q'.wait = .answered → q.wait = .answered ∨ e = .answer i ∨ e = .giveUp i) ∧
      (q'.wait = .unplaced → q.wait = .unplaced) := by
  have of_recalls : s.Recalls t → ∃ q', t.inquiries[i]? = some q' ∧ q'.id = q.id ∧
      q'.terms = q.terms ∧
      (q'.wait = .answered → q.wait = .answered ∨ e = .answer i ∨ e = .giveUp i) ∧
      (q'.wait = .unplaced → q.wait = .unplaced) := by
    intro recalls
    obtain ⟨q', hq', later⟩ := recalls i q hq
    exact ⟨q', hq', later.id, later.terms, fun ha => Or.inl (later.answered ha), later.unplaced⟩
  cases taken_of_step? hstep with
  | handle m => exact of_recalls (.receive s m)
  | shutdown => exact of_recalls (.shutdown s)
  | tick time => exact of_recalls (.of_eq (by rfl))
  | receive => exact of_recalls ((Recalls.of_eq (by rfl)).trans (.act _ _ _ _ _))
  | stop =>
    exact of_recalls (((Recalls.of_eq (by rfl)).trans (.act _ _ _ _ _)).trans (.discardMail _ _))
  | rest | start | miss | finish => exact of_recalls (.act _ _ _ _ _)
  | call | yield | accept | announce => exact of_recalls (.of_eq (by rfl))
  | place =>
    exact of_recalls ((Recalls.updateInquiry (f := fun q => { q with wait := .placed })
      (fun _ => ⟨rfl, rfl, (nomatch ·), (nomatch ·)⟩) s _).trans (.post _ _ _))
  | answerNothing | answer =>
    obtain ⟨q', hq', hid, hterms, ha, hu⟩ := inquiry_conclude hq _
    refine ⟨q', hq', hid, hterms, fun hw => (ha hw).imp_right fun he => Or.inl ?_, hu⟩
    rw [he]
  | giveUp =>
    obtain ⟨q', hq', hid, hterms, ha, hu⟩ := inquiry_conclude hq _
    refine ⟨q', hq', hid, hterms, fun hw => (ha hw).imp_right fun he => Or.inr ?_, hu⟩
    rw [he]

/-- An inquiry is the same request, and asks for the same, all along a run. -/
theorem inquiry_run {allowed : Session σ → Step → Prop} {es : List Step}
    (run : Run (step? h) allowed s es t) {i : Nat} {q : Inquiry} (hq : s.inquiries[i]? = some q) :
    ∃ q', t.inquiries[i]? = some q' ∧ q'.id = q.id ∧ q'.terms = q.terms ∧
      (q'.wait = .unplaced → q.wait = .unplaced) := by
  refine run.invariant (I := fun t : Session σ => ∃ q', t.inquiries[i]? = some q' ∧
    q'.id = q.id ∧ q'.terms = q.terms ∧ (q'.wait = .unplaced → q.wait = .unplaced)) ?_
    ⟨q, hq, rfl, rfl, fun hu => hu⟩
  rintro a e b ⟨q₁, hq₁, hid, hterms, hu⟩ - hstep
  obtain ⟨q₂, hq₂, hid', hterms', -, hu'⟩ := inquiry_step hstep hq₁
  exact ⟨q₂, hq₂, hid'.trans hid, hterms'.trans hterms, fun h => hu (hu' h)⟩

/-! ### Mail -/

/-- The first order for a worker is taken out of the mail. -/
theorem takeOrder?_eq {w : Nat} {mail rest : List (Nat × Order Nat)} {order : Order Nat}
    (ht : takeOrder? w mail = some (order, rest)) :
    ∃ before after, mail = before ++ (w, order) :: after ∧ (∀ p ∈ before, p.1 ≠ w) ∧
      rest = before ++ after := by
  induction mail generalizing rest with
  | nil => cases ht
  | cons p mail ih =>
    unfold takeOrder? at ht
    split at ht
    · next hp =>
      cases ht
      exact ⟨[], mail, by rw [← hp]; rfl, by simp, rfl⟩
    · next hp =>
      obtain ⟨⟨o, r⟩, hr, he⟩ := Option.map_eq_some_iff.1 ht
      cases he
      obtain ⟨before, after, rfl, hb, rfl⟩ := ih hr
      exact ⟨p :: before, after, rfl, List.forall_mem_cons.2 ⟨hp, hb⟩, rfl⟩

/-- The order that is taken was in the mail, and so is what is left of it. -/
theorem mem_of_takeOrder? {w : Nat} {mail rest : List (Nat × Order Nat)} {order : Order Nat}
    (ht : takeOrder? w mail = some (order, rest)) :
    (w, order) ∈ mail ∧ ∀ p ∈ rest, p ∈ mail := by
  obtain ⟨before, after, rfl, -, rfl⟩ := takeOrder?_eq ht
  refine ⟨by simp, fun p hp => ?_⟩
  rcases List.mem_append.1 hp with hp | hp
  · exact List.mem_append_left _ hp
  · exact List.mem_append_right _ (List.mem_cons_of_mem _ hp)

/-- A worker with mail has a next order. -/
theorem takeOrder?_of_mem {w : Nat} {order : Order Nat} {mail : List (Nat × Order Nat)}
    (hm : (w, order) ∈ mail) : ∃ first rest, takeOrder? w mail = some (first, rest) := by
  induction mail with
  | nil => cases hm
  | cons p mail ih =>
    unfold takeOrder?
    by_cases hp : p.1 = w
    · exact ⟨p.2, mail, by simp [hp]⟩
    · have hm : (w, order) ∈ mail := by
        rcases List.mem_cons.1 hm with he | hm
        · exact absurd (by rw [← he]) hp
        · exact hm
      obtain ⟨first, rest, ht⟩ := ih hm
      exact ⟨first, p :: rest, by simp [hp, ht]⟩

end Session

end LanguageServer
