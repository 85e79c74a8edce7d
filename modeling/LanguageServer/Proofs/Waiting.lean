import LanguageServer.Proofs.Soundness

/-!
# Nobody is forgotten

An inquiry that placed its order waits for its worker. Until it is told something, the order is on its
way, or the worker holds the inquiry.

* `Session.Awaits`, `Session.Expects`: an inquiry waits for a worker, and the worker for the inquiry;
* `Session.Attentive`: whoever waits for a worker is expected by it;
* `Session.attentive_of_reaches`: sessions are always attentive.
-/

namespace LanguageServer.Session

variable {σ : Type} {s t : Session σ} {h : Host σ} {uri : Uri} {i w : Nat}

/-- An inquiry has placed its order and waits for a worker. -/
def Awaits (s : Session σ) (i w : Nat) : Prop :=
  ∃ q, s.inquiries[i]? = some q ∧ q.wait = .placed ∧ q.worker = w

/-- The order of an inquiry is on its way to a worker, or the worker holds the inquiry. -/
def Expects (s : Session σ) (i w : Nat) : Prop :=
  (∃ v, (w, Order.compile v (some i)) ∈ s.mail) ∨
    ∃ k, s.workers[w]? = some k ∧ i ∈ k.actor.waiters

/-- Whoever waits for a worker is expected by it. -/
def Attentive (s : Session σ) : Prop := ∀ i w, s.Awaits i w → s.Expects i w

/-- Those who were told something wait no longer. -/
theorem awaits_tell {vs : List (Nat × Verdict)} (ha : (s.tell vs).Awaits i w) :
    s.Awaits i w ∧ ∀ p ∈ vs, p.1 ≠ i := by
  unfold tell at ha
  induction vs generalizing s with
  | nil => exact ⟨ha, by simp⟩
  | cons v vs ih =>
    obtain ⟨⟨q', hq', hw, hk⟩, hvs⟩ := ih ha
    simp only [updateInquiry, List.getElem?_modify, Option.map_eq_map, Option.map_eq_some_iff] at hq'
    obtain ⟨q, hq, rfl⟩ := hq'
    by_cases hv : v.1 = i
    · rw [if_pos hv] at hw
      split at hw
      · cases hw
      · next hp => exact absurd hw hp
    · rw [if_neg hv] at hw hk
      exact ⟨⟨q, hq, hw, hk⟩, List.forall_mem_cons.2 ⟨hv, hvs⟩⟩

theorem awaits_updateInquiry {f : Inquiry → Inquiry} {j : Nat}
    (hf : ∀ q, (f q).wait = .placed → q.wait = .placed ∧ (f q).worker = q.worker)
    (ha : (s.updateInquiry j f).Awaits i w) : s.Awaits i w := by
  obtain ⟨q', hq', hw, hk⟩ := ha
  simp only [updateInquiry, List.getElem?_modify, Option.map_eq_map, Option.map_eq_some_iff] at hq'
  obtain ⟨q, hq, rfl⟩ := hq'
  by_cases hj : j = i
  · rw [if_pos hj] at hw hk
    obtain ⟨hp, hworker⟩ := hf q hw
    exact ⟨q, hq, hp, hworker ▸ hk⟩
  · rw [if_neg hj] at hw hk
    exact ⟨q, hq, hw, hk⟩

theorem attentive_empty (compiler : σ) : Attentive { compiler } := by
  rintro i w ⟨q, hq, -⟩
  cases hq

namespace Attentive

/-- Nobody more waits, and those who were expected still are. -/
theorem mono (ha : Attentive s) (awaits : ∀ i w, t.Awaits i w → s.Awaits i w)
    (expects : ∀ i w, s.Expects i w → t.Expects i w) : Attentive t :=
  fun i w h => expects i w (ha i w (awaits i w h))

theorem frame (ha : Attentive s) (same : s.SameCrew t) : Attentive t := by
  refine ha.mono (fun i w hw => ?_) fun i w he => ?_
  · unfold Awaits at hw ⊢
    rwa [same.inquiries] at hw
  · unfold Expects at he ⊢
    rwa [same.mail, same.workers]

/-- Those who are told something need not be expected. -/
theorem tell {vs : List (Nat × Verdict)}
    (ha : ∀ i w, s.Awaits i w → s.Expects i w ∨ ∃ p ∈ vs, p.1 = i) : Attentive (s.tell vs) := by
  intro i w hw
  obtain ⟨hw', hvs⟩ := awaits_tell hw
  rcases ha i w hw' with he | ⟨p, hp, hi⟩
  · unfold Expects at he ⊢
    rwa [tell_mail, tell_workers]
  · exact absurd hi (hvs p hp)

/-- An order is on its way, and whoever waits for it is expected then. -/
theorem post {w' : Nat} {order : Order Nat}
    (ha : ∀ i w, s.Awaits i w → s.Expects i w ∨ w' = w ∧ order.waiter? = some i) :
    Attentive (s.post w' order) := by
  unfold Session.post
  split
  · intro i w hw
    rcases ha i w hw with (⟨v, hv⟩ | held) | ⟨rfl, ho⟩
    · exact Or.inl ⟨v, List.mem_append_left _ hv⟩
    · exact Or.inr held
    · cases order with
      | stop => cases ho
      | compile v waiter =>
        obtain rfl : waiter = some i := ho
        exact Or.inl ⟨v, List.mem_append_right _ (List.mem_singleton.2 rfl)⟩
  · refine tell fun i w hw => (ha i w hw).imp_right ?_
    rintro ⟨-, ho⟩
    exact ⟨(i, .closed), by simp [ho], rfl⟩

theorem scheduler (ha : Attentive s) (uri : Uri) : Attentive (s.scheduler uri).1 := by
  unfold Session.scheduler
  split
  · exact ha
  · refine ha.mono (fun i w hw => hw) fun i w he => ?_
    rcases he with hv | ⟨k, hk, hi⟩
    · exact Or.inl hv
    · refine Or.inr ⟨k, ?_, hi⟩
      simp only
      rw [List.getElem?_append_left (List.getElem?_eq_some_iff.1 hk).1, hk]

theorem requestCompilation (ha : Attentive s) (uri : Uri) :
    Attentive (s.requestCompilation uri) :=
  post fun i w hw => Or.inl (ha.scheduler uri i w hw)

theorem stopScheduler (ha : Attentive s) (uri : Uri) : Attentive (s.stopScheduler uri) := by
  unfold Session.stopScheduler
  split
  · exact ha
  · exact post fun i w hw => Or.inl (ha i w hw)

theorem cancelled (ha : Attentive s) (i : Nat) :
    Attentive (s.updateInquiry i fun q => { q with cancelled := true }) :=
  ha.mono (fun _ _ hw => awaits_updateInquiry (f := fun q => { q with cancelled := true })
    (fun _ hp => ⟨hp, rfl⟩) hw) fun _ _ he => he

theorem inquire (ha : Attentive s) (id : MessageId) (question : DocumentRequest) :
    Attentive (s.inquire id question) := by
  unfold Session.inquire
  split
  · exact ha.frame ⟨rfl, rfl, rfl, rfl⟩
  · refine (ha.scheduler question.document).mono ?_ fun _ _ he => he
    rintro i w ⟨q, hq, hw, hk⟩
    rcases getElem?_concat_cases hq with hq | ⟨-, rfl⟩
    · exact ⟨q, hq, hw, hk⟩
    · cases hw

theorem shutdown (ha : Attentive s) : Attentive s.shutdown := by
  have start : Attentive { s with schedulers := [] } := ha.mono (fun _ _ hw => hw) fun _ _ he => he
  exact foldl_preserves (P := Attentive) (fun t _ _ ht => post fun i w hw => Or.inl (ht i w hw)) start

theorem receive (ha : Attentive s) (m : Message) : Attentive (s.receive h m) :=
  receive_induction (P := Attentive) (fun _ _ same ha => ha.frame same) m
    (fun _ u ha => ha.requestCompilation u) (fun _ u ha => ha.stopScheduler u)
    (fun _ i ha => ha.cancelled i) (fun _ ha => ha.shutdown)
    (fun _ id question ha => ha.inquire id question) ha

/-- A worker takes a step: those it held, and those whose order it took, are told or held then. -/
theorem act {k : Worker} (worker : s.workers[w]? = some k) (stage : Option Stage)
    {r : Actor Nat × List (Nat × Verdict)} {more : List Nat}
    (ha : ∀ i v, s.Awaits i v → s.Expects i v ∨ v = w ∧ i ∈ more)
    (served : ∀ i ∈ k.actor.waiters ++ more, (∃ p ∈ r.2, p.1 = i) ∨ i ∈ r.1.waiters) :
    Attentive (s.act w k stage r) := by
  refine tell fun i v hw => ?_
  have here : ∀ {v}, v = w → (s.updateWorker w fun _ => { k with actor := r.1, stage }).workers[v]? =
      some { k with actor := r.1, stage } := by
    rintro v rfl
    rw [getElem?_updateWorker worker, if_pos rfl]
  have held : v = w → i ∈ k.actor.waiters ++ more →
      (s.updateWorker w fun _ => { k with actor := r.1, stage }).Expects i v ∨ ∃ p ∈ r.2, p.1 = i :=
    fun hv hi => (served i hi).symm.imp_left fun hi => Or.inr ⟨_, here hv, hi⟩
  -- an order on its way stays there; those held by others are held as before
  rcases ha i v hw with (hv | ⟨k', hk', hi⟩) | ⟨hv, hi⟩
  · exact Or.inl (Or.inl hv)
  · by_cases hv : v = w
    · subst hv
      obtain rfl : k = k' := Option.some.inj (worker.symm.trans hk')
      exact held rfl (List.mem_append_left _ hi)
    · refine Or.inl (Or.inr ⟨k', ?_, hi⟩)
      rw [getElem?_updateWorker worker, if_neg hv, hk']
  · exact held hv (List.mem_append_right _ hi)

theorem restage (ha : Attentive s) {k : Worker} {f : Worker → Worker}
    (worker : s.workers[w]? = some k) (actor : (f k).actor = k.actor) :
    Attentive (s.updateWorker w f) := by
  refine ha.mono (fun _ _ hw => hw) fun i v he => ?_
  rcases he with hv | ⟨k', hk', hi⟩
  · exact Or.inl hv
  · refine Or.inr ?_
    rw [getElem?_updateWorker worker]
    split
    · next hv =>
      subst hv
      obtain rfl : k = k' := Option.some.inj (worker.symm.trans hk')
      exact ⟨f k, rfl, actor ▸ hi⟩
    · exact ⟨k', hk', hi⟩

theorem discardMail (ha : Attentive s) (w : Nat) : Attentive (s.discardMail w) := by
  refine tell fun i v hw => ?_
  rcases ha i v hw with ⟨u, hu⟩ | held
  · by_cases hv : v = w
    · refine Or.inr ⟨(i, .closed), ?_, rfl⟩
      simp only [List.mem_map, List.mem_filterMap, List.mem_filter, beq_iff_eq]
      exact ⟨i, ⟨_, ⟨hu, hv⟩, rfl⟩, rfl⟩
    · exact Or.inl (Or.inl ⟨u, by simp [hu, hv]⟩)
  · exact Or.inl (Or.inr held)

theorem conclude (ha : Attentive s) (i : Nat) (q : Inquiry) (m : Outgoing) :
    Attentive (s.conclude i q m) :=
  ha.mono (fun _ _ hw => awaits_updateInquiry (f := fun q => { q with wait := .answered })
    (s := { s with pending := s.pending.filter (·.1 != q.id) }) (fun _ hp => by cases hp) hw)
    fun _ _ he => he

/-- **Every step of a session keeps it attentive.** -/
theorem step (ha : Attentive s) {e : Step} (hstep : step? h s e = some t) : Attentive t := by
  -- whose order is taken out of the mail is served by the step, and all others are expected as before
  have taken : ∀ {w order mail}, takeOrder? w s.mail = some (order, mail) →
      ∀ i v, Awaits { s with mail } i v →
        Expects { s with mail } i v ∨ v = w ∧ i ∈ order.waiter?.toList := by
    intro w order mail next i v hw
    obtain ⟨before, after, hmail, -, rfl⟩ := takeOrder?_eq next
    rcases ha i v hw with ⟨u, hu⟩ | held
    · rw [hmail] at hu
      rcases List.mem_append.1 hu with hu | hu
      · exact Or.inl (Or.inl ⟨u, List.mem_append_left _ hu⟩)
      · rcases List.mem_cons.1 hu with he | hu
        · obtain ⟨rfl, rfl⟩ := Prod.mk.inj he
          exact Or.inr ⟨rfl, List.mem_singleton.2 rfl⟩
        · exact Or.inl (Or.inl ⟨u, List.mem_append_right _ hu⟩)
    · exact Or.inl (Or.inr held)
  cases taken_of_step? hstep with
  | handle m => exact ha.receive m
  | shutdown => exact ha.shutdown
  | tick time => exact ha.frame ⟨rfl, rfl, rfl, rfl⟩
  | @receive w k order mail worker next =>
    exact act (s := { s with mail }) worker _ (taken next) (Actor.receive_told_or_held _ _ _)
  | @stop w k order mail worker next =>
    have acted := act (s := { s with mail }) worker (Stage.orphaned k.stage) (taken next)
      (Actor.receive_told_or_held s.now h.window _)
    exact acted.discardMail w
  | rest worker =>
    exact act worker _ (fun i v hw => Or.inl (ha i v hw)) (Actor.rest_serves _).told_or_held
  | start worker =>
    exact act worker _ (fun i v hw => Or.inl (ha i v hw)) (Actor.start_serves _).told_or_held
  | miss worker =>
    exact act worker _ (fun i v hw => Or.inl (ha i v hw)) (Actor.finish_serves _ _ _ _).told_or_held
  | call worker => exact ha.restage worker rfl
  | yield worker =>
    refine restage ?_ worker ?_
    · exact ha.frame ⟨rfl, rfl, rfl, rfl⟩
    · rfl
  | accept worker =>
    refine restage ?_ worker ?_
    · exact ha.frame ⟨rfl, rfl, rfl, rfl⟩
    · rfl
  | announce worker => exact (ha.restage worker rfl).frame ⟨rfl, rfl, rfl, rfl⟩
  | finish worker =>
    exact act worker _ (fun i v hw => Or.inl (ha i v hw)) (Actor.finish_serves _ _ _ _).told_or_held
  | @place i q inquiry wait =>
    refine post fun j w hw => ?_
    by_cases hj : j = i
    · subst hj
      obtain ⟨q', hq', -, rfl⟩ := hw
      simp only [updateInquiry, List.getElem?_modify, inquiry, if_true, Option.map_eq_map,
        Option.map_some, Option.some.injEq] at hq'
      exact Or.inr ⟨by rw [← hq'], rfl⟩
    · obtain ⟨q', hq', hp, hk⟩ := hw
      simp only [updateInquiry, List.getElem?_modify, if_neg (Ne.symm hj), Option.map_eq_map,
        Option.map_id'] at hq'
      exact Or.inl (ha j w ⟨q', by simpa using hq', hp, hk⟩)
  | answerNothing => exact ha.conclude _ _ _
  | answer => exact ha.conclude _ _ _
  | giveUp => exact ha.conclude _ _ _

end Attentive

/-- Every session that a server can come to is attentive. -/
theorem attentive_of_reaches {compiler : σ} (hr : Reaches h { compiler } s) : Attentive s := by
  obtain ⟨es, run⟩ := hr
  exact run.invariant (fun _ _ _ ha _ hstep => ha.step hstep) (attentive_empty compiler)

end LanguageServer.Session
