import LanguageServer.Proofs.Actor
import LanguageServer.Scheduling.Desk
import Mathlib.Data.List.Nodup

/-!
# No waiter is lost, and none is released too early

Orders reach an actor in any order of versions, before a window ends, in a window and during a
compilation. `Orderly` is what holds of its desk after any of them; it is proved event by event.

* `Desk.step?_cases`: all that can happen at a desk;
* `Desk.Orderly`, `Orderly.step`, `orderly_of_run`: the invariant;
* `Desk.every_waiter_served`: what follows for those who wait.
-/

namespace LanguageServer.Desk

variable {ω : Type} {window : Nat} {d d' : Desk ω} {e : Event ω} {es : List (Event ω)}

/-! ### Events -/

@[simp] theorem tell_actor (d : Desk ω) (vs : List (ω × Verdict)) :
    (d.tell vs).actor = d.actor := rfl
@[simp] theorem tell_queue (d : Desk ω) (vs : List (ω × Verdict)) :
    (d.tell vs).queue = d.queue := rfl
@[simp] theorem tell_taken (d : Desk ω) (vs : List (ω × Verdict)) :
    (d.tell vs).taken = d.taken := rfl

theorem waiters_tell (d : Desk ω) (vs : List (ω × Verdict)) :
    (d.tell vs).told.map (·.waiter) = d.told.map (·.waiter) ++ vs.map (·.1) := by
  simp [tell, Function.comp_def]

@[simp] theorem act_actor (d : Desk ω) (r : Actor ω × List (ω × Verdict)) :
    (d.act r).actor = r.1 := rfl
@[simp] theorem act_queue (d : Desk ω) (r : Actor ω × List (ω × Verdict)) :
    (d.act r).queue = d.queue := rfl
@[simp] theorem act_taken (d : Desk ω) (r : Actor ω × List (ω × Verdict)) :
    (d.act r).taken = d.taken := rfl

@[simp] theorem clear_actor (d : Desk ω) : d.clear.actor = d.actor := rfl
@[simp] theorem clear_queue (d : Desk ω) : d.clear.queue = [] := rfl
@[simp] theorem clear_taken (d : Desk ω) : d.clear.taken = d.taken := rfl

@[simp] theorem takes_actor (d : Desk ω) (now window : Nat) (order : Order ω)
    (queue : List (Order ω)) :
    (d.takes now window order queue).actor = (d.actor.receive now window order).1 := rfl

@[simp] theorem waiter?_send (order : Order ω) : (Event.send order).waiter? = order.waiter? := rfl
@[simp] theorem waiter?_take (now : Nat) : (Event.take now : Event ω).waiter? = none := rfl
@[simp] theorem order?_send (order : Order ω) : (Event.send order).order? = some order := rfl
@[simp] theorem order?_take (now : Nat) : (Event.take now : Event ω).order? = none := rfl

theorem filterMap_singleton {α β : Type} (f : α → Option β) (a : α) :
    [a].filterMap f = (f a).toList := by
  cases h : f a <;> simp [h]

/-- All that can happen at a desk. -/
theorem step?_cases (h : step? window d e = some d') :
    (∃ order, e = .send order ∧ d.actor.stopped = true ∧
      d' = d.tell (order.waiter?.toList.map (·, .closed))) ∨
    (∃ order, e = .send order ∧ d.actor.stopped = false ∧
      d' = { d with queue := d.queue ++ [order] }) ∨
    (∃ now queue, e = .take now ∧ d.actor.stopped = false ∧ d.queue = .stop :: queue ∧
      d' = (d.takes now window .stop queue).clear) ∨
    (∃ now v w queue, e = .take now ∧ d.actor.stopped = false ∧ d.queue = .compile v w :: queue ∧
      d' = d.takes now window (.compile v w) queue) ∨
    (e = .expire ∧ d.actor.stopped = false ∧ d' = d.act d.actor.expire) ∨
    (∃ now result target, e = .finish now result ∧ d.actor.stopped = false ∧
      d.actor.phase = .compiling target ∧ d' = d.act (d.actor.finish now window result)) := by
  cases e with
  | send order =>
    cases hs : d.actor.stopped <;> simp only [step?, hs] at h <;> cases h
    · exact Or.inr (Or.inl ⟨order, rfl, rfl, rfl⟩)
    · exact Or.inl ⟨order, rfl, rfl, rfl⟩
  | take now =>
    cases hq : d.queue with
    | nil => simp [step?, hq] at h
    | cons order queue =>
      cases hs : d.actor.stopped with
      | true => simp [step?, hq, hs] at h
      | false =>
        have hstop : (d.takes now window order queue).actor.stopped = true ↔ order = .stop :=
          Actor.receive_stopped hs
        simp only [step?, hq, hs, Bool.false_eq_true, if_false, Option.some.injEq] at h
        subst h
        cases order with
        | stop =>
          rw [if_pos (hstop.2 rfl)]
          exact Or.inr (Or.inr (Or.inl ⟨now, queue, rfl, rfl, rfl, rfl⟩))
        | compile v w =>
          rw [if_neg fun hn => by cases hstop.1 hn]
          exact Or.inr (Or.inr (Or.inr (Or.inl ⟨now, v, w, queue, rfl, rfl, rfl, rfl⟩)))
  | expire =>
    cases hp : d.actor.phase with
    | settling t =>
      cases hs : d.actor.stopped <;> simp [step?, hp, hs] at h
      exact Or.inr (Or.inr (Or.inr (Or.inr (Or.inl ⟨rfl, rfl, h.symm⟩))))
    | idle => simp [step?, hp] at h
    | compiling target => simp [step?, hp] at h
  | finish now result =>
    cases hp : d.actor.phase with
    | compiling target =>
      cases hs : d.actor.stopped <;> simp [step?, hp, hs] at h
      exact Or.inr (Or.inr (Or.inr (Or.inr (Or.inr
        ⟨now, result, target, rfl, rfl, rfl, h.symm⟩))))
    | idle => simp [step?, hp] at h
    | settling t => simp [step?, hp] at h

/-! ### The invariant -/

/-- What holds of a desk after the events `es`. Everyone who came was told, is held or stands in the
queue, in the order of arrival; every version that was taken is known to the actor; and who was
released had asked for a version that was compiled by then. -/
structure Orderly (es : List (Event ω)) (d : Desk ω) : Prop where
  waiters : d.told.map (·.waiter) ++ d.actor.waiters ++ d.queue.filterMap Order.waiter? =
    es.filterMap Event.waiter?
  orders : d.actor.stopped = false → d.taken ++ d.queue = es.filterMap Event.order?
  sent : ∀ order ∈ d.taken, .send order ∈ es
  known : ∀ v w, .compile v w ∈ d.taken → d.actor.Knows v
  rested : d.actor.stopped = false → d.actor.Rested
  held : ∀ w ∈ d.actor.waiters, ∃ v, .compile v (some w) ∈ d.taken
  released : ∀ t ∈ d.told, t.verdict = .released →
    ∃ v, .compile v (some t.waiter) ∈ d.taken ∧ HasReached t.compiled v
  closed : ∀ t ∈ d.told, t.verdict = .closed → d.actor.stopped = true
  stopped : d.actor.stopped = true →
    .send .stop ∈ es ∧ d.actor.waiters = [] ∧ d.queue = []

theorem orderly_empty : Orderly [] ({} : Desk ω) where
  waiters := rfl
  orders := fun _ => rfl
  sent := by simp
  known := by simp
  rested := fun _ _ => ⟨rfl, rfl⟩
  held := by simp
  released := by simp
  closed := by simp
  stopped := by simp

/-- An order that nobody takes any more: its waiter learns at once that the actor stopped. -/
theorem Orderly.refuse (h : Orderly es d) {order : Order ω} (hs : d.actor.stopped = true) :
    Orderly (es ++ [.send order]) (d.tell (order.waiter?.toList.map (·, .closed))) where
  waiters := by
    have hw := h.waiters
    simp only [(h.stopped hs).2, List.filterMap_nil, List.append_nil] at hw
    simp [waiters_tell, h.stopped hs, filterMap_singleton, hw, Function.comp_def]
  orders := fun hn => by simp [hs] at hn
  sent := fun o ho => List.mem_append_left _ (h.sent o ho)
  known := h.known
  rested := fun hn => by simp [hs] at hn
  held := h.held
  released := by
    intro t ht hv
    simp only [tell, List.mem_append, List.mem_map] at ht
    obtain ht | ⟨p, ⟨w, -, rfl⟩, rfl⟩ := ht
    · exact h.released t ht hv
    · cases hv
  closed := fun _ _ _ => hs
  stopped := fun _ => ⟨List.mem_append_left _ (h.stopped hs).1, (h.stopped hs).2⟩

/-- An order that joins the queue. -/
theorem Orderly.enqueue (h : Orderly es d) {order : Order ω} (hs : d.actor.stopped = false) :
    Orderly (es ++ [.send order]) { d with queue := d.queue ++ [order] } where
  waiters := by
    simp [← h.waiters, filterMap_singleton]
  orders := fun _ => by
    simp [← h.orders hs]
  sent := fun o ho => List.mem_append_left _ (h.sent o ho)
  known := h.known
  rested := h.rested
  held := h.held
  released := h.released
  closed := h.closed
  stopped := fun hn => by simp [hs] at hn

theorem sent_of_queue (h : Orderly es d) (hs : d.actor.stopped = false) {order : Order ω}
    (ho : order ∈ d.queue) : .send order ∈ es := by
  have hmem : order ∈ es.filterMap Event.order? := by
    rw [← h.orders hs]
    exact List.mem_append_right _ ho
  obtain ⟨e, he, hoe⟩ := List.mem_filterMap.1 hmem
  cases e <;> simp [Event.order?] at hoe
  exact hoe ▸ he

/-- A step of an actor that goes on, in which it took the orders `more` from its queue. -/
theorem Orderly.act (h : Orderly es d) (hs : d.actor.stopped = false)
    (more : List (Order ω)) {queue : List (Order ω)} {r : Actor ω × List (ω × Verdict)}
    (hq : d.queue = more ++ queue) (he : e.order? = none) (live : r.1.stopped = false)
    (serves : d.actor.Serves (more.filterMap Order.waiter?) r)
    (known : ∀ v w, .compile v w ∈ d.taken ++ more → r.1.Knows v) (rested : r.1.Rested) :
    Orderly (es ++ [e]) ({ d with queue, taken := d.taken ++ more }.act r) := by
  -- whoever is told something now came with an order that was taken
  have held : ∀ w ∈ d.actor.waiters ++ more.filterMap Order.waiter?,
      ∃ v, .compile v (some w) ∈ d.taken ++ more := by
    intro w hw
    rcases List.mem_append.1 hw with hw | hw
    · obtain ⟨v, hv⟩ := h.held w hw
      exact ⟨v, List.mem_append_left _ hv⟩
    · obtain ⟨order, ho, how⟩ := List.mem_filterMap.1 hw
      cases order <;> simp [Order.waiter?] at how
      exact ⟨_, List.mem_append_right _ (how ▸ ho)⟩
  have hwaiter : e.waiter? = none := by simp [Event.waiter?, he]
  constructor
  case waiters =>
    simp only [List.filterMap_append, List.filterMap_cons, hwaiter, List.filterMap_nil,
      List.append_nil, ← h.waiters, hq]
    simp only [Desk.act, waiters_tell, tell_actor, tell_queue]
    rw [List.append_assoc (d.told.map _), serves.order]
    simp
  case orders =>
    intro _
    simp [← h.orders hs, he, hq]
  case sent =>
    intro o ho
    apply List.mem_append_left
    rcases List.mem_append.1 ho with ho | ho
    · exact h.sent o ho
    · exact sent_of_queue h hs (hq ▸ List.mem_append_left _ ho)
  case known => exact known
  case rested => exact fun _ => rested
  case held => exact fun w hw => held w (serves.order ▸ List.mem_append_right _ hw)
  case released =>
    intro t ht hv
    simp only [Desk.act, tell, List.mem_append, List.mem_map] at ht
    obtain ht | ⟨p, hp, rfl⟩ := ht
    · obtain ⟨v, hv', hc⟩ := h.released t ht hv
      exact ⟨v, List.mem_append_left _ hv', hc⟩
    · obtain ⟨v, hv'⟩ := held p.1 (serves.order ▸ List.mem_append_left _ (List.mem_map_of_mem hp))
      -- only an actor at rest releases, and then all that it knows of is compiled
      rcases serves.verdict p hp with ⟨-, hi, -⟩ | ⟨-, hstop⟩
      · exact ⟨v, hv', (known v _ hv').compiled (rested hi).2⟩
      · simp [live] at hstop
  case closed =>
    intro t ht hv
    simp only [Desk.act, tell, List.mem_append, List.mem_map] at ht
    obtain ht | ⟨p, hp, rfl⟩ := ht
    · simp [h.closed t ht hv] at hs
    · rcases serves.verdict p hp with ⟨hp', -, -⟩ | ⟨-, hstop⟩
      · simp [hp'] at hv
      · exact hstop
  case stopped => exact fun hn => by simp [live] at hn

/-- The desk of an actor that took the order to stop. -/
theorem takes_stop (d : Desk ω) (hs : d.actor.stopped = false) (now : Nat)
    (queue : List (Order ω)) :
    (d.takes now window .stop queue).clear =
      { actor := d.actor.halt.1
        queue := []
        taken := d.taken ++ [.stop]
        told := d.told ++ (d.actor.waiters ++ queue.filterMap Order.waiter?).map
          (⟨·, .closed, d.actor.compiled⟩) } := by
  simp [Desk.takes, clear, Desk.act, tell, Actor.receive, hs, Actor.halt, Function.comp_def]

/-- An actor stops. -/
theorem Orderly.halt (h : Orderly es d) (hs : d.actor.stopped = false) {now : Nat}
    {queue : List (Order ω)} (hq : d.queue = .stop :: queue) :
    Orderly (es ++ [.take now]) (d.takes now window .stop queue).clear := by
  rw [takes_stop d hs]
  constructor
  case waiters =>
    simp [← h.waiters, hq, List.filterMap_cons, Actor.halt, Function.comp_def]
  case orders => exact fun hn => by simp [Actor.halt] at hn
  case sent =>
    intro o ho
    apply List.mem_append_left
    rcases List.mem_append.1 ho with ho | ho
    · exact h.sent o ho
    · exact sent_of_queue h hs (by rw [hq, List.mem_singleton.1 ho]; simp)
  case known =>
    intro v w hv
    exact h.known v w (by simpa using hv)
  case rested => exact fun hn => by simp [Actor.halt] at hn
  case held => simp [Actor.halt]
  case released =>
    intro t ht hv
    rcases List.mem_append.1 ht with ht | ht
    · obtain ⟨v, hv', hc⟩ := h.released t ht hv
      exact ⟨v, List.mem_append_left _ hv', hc⟩
    · obtain ⟨w, -, rfl⟩ := List.mem_map.1 ht
      cases hv
  case closed => exact fun _ _ _ => rfl
  case stopped =>
    intro _
    exact ⟨List.mem_append_left _ (sent_of_queue h hs (by simp [hq])), rfl, rfl⟩

/-- **Every event keeps a desk orderly.** -/
theorem Orderly.step (h : Orderly es d) (ok : d.Prompt e) (hstep : step? window d e = some d') :
    Orderly (es ++ [e]) d' := by
  obtain ⟨order, rfl, hs, rfl⟩ | ⟨order, rfl, hs, rfl⟩ | ⟨now, queue, rfl, hs, hq, rfl⟩ |
    ⟨now, v, w, queue, rfl, hs, hq, rfl⟩ | ⟨rfl, hs, rfl⟩ |
    ⟨now, result, target, rfl, hs, hp, rfl⟩ := step?_cases hstep
  · exact h.refuse hs
  · exact h.enqueue hs
  · exact h.halt hs hq
  · have live : (d.actor.receive now window (.compile v w)).1.stopped = false := by
      rw [Bool.eq_false_iff, ne_eq, Actor.receive_stopped hs]
      simp
    refine h.act hs [.compile v w] hq rfl live ?_ ?_ ?_
    · rw [filterMap_singleton]
      exact Actor.receive_serves hs
    · intro v' w' hv
      rcases List.mem_append.1 hv with hv | hv
      · exact (h.known v' w' hv).receive hs
      · cases List.mem_singleton.1 hv
        exact Actor.knows_receive hs
    · exact (h.rested hs).receive hs live
  · have := h.act (e := .expire) hs [] rfl rfl (by simp [hs]) (Actor.expire_serves d.actor)
      (fun v w hv => (h.known v w (by simpa using hv)).expire) (Actor.Rested.expire _)
    simpa using this
  · -- what comes out is no older than what was wanted at the start
    obtain ⟨c, rfl, hc⟩ := ok target hp
    have := h.act (e := .finish now (some c)) hs [] rfl rfl (by simp [hs])
      (Actor.finish_serves now window (some c) d.actor)
      (fun v w hv => (h.known v w (by simpa using hv)).finish) (Actor.Rested.finish hp hc)
    simpa using this

theorem orderly_of_run (run : Run (step? window) Prompt {} es d) : Orderly es d := by
  induction run with
  | nil => exact orderly_empty
  | snoc _ ok last ih => exact ih.step ok last

/-! ### What follows for waiters -/

/-- As long as the actor goes on, those who were told and those who are held are those whose orders it
took. -/
theorem Orderly.told_or_held (h : Orderly es d) (hs : d.actor.stopped = false) :
    d.told.map (·.waiter) ++ d.actor.waiters = d.taken.filterMap Order.waiter? := by
  have hw : es.filterMap Event.waiter? = (es.filterMap Event.order?).filterMap Order.waiter? := by
    rw [List.filterMap_filterMap]
    rfl
  have := h.waiters
  rw [hw, ← h.orders hs, List.filterMap_append] at this
  exact List.append_cancel_right this

/-- Two events with one waiter are one event if no waiter comes twice. -/
theorem event_eq_of_waiter (distinct : (es.filterMap Event.waiter?).Nodup) {e e' : Event ω} {w : ω}
    (h : e ∈ es) (h' : e' ∈ es) (hw : e.waiter? = some w) (hw' : e'.waiter? = some w) : e = e' := by
  induction es with
  | nil => cases h
  | cons a es ih =>
    have later : ∀ b ∈ es, a.waiter? = some w → b.waiter? ≠ some w := by
      intro b hb ha hbw
      rw [List.filterMap_cons_some ha] at distinct
      exact (List.nodup_cons.1 distinct).1 (List.mem_filterMap.2 ⟨b, hb, hbw⟩)
    rcases List.mem_cons.1 h with he | he <;> rcases List.mem_cons.1 h' with he' | he'
    · rw [he, he']
    · exact absurd hw' (later e' he' (he ▸ hw))
    · exact absurd hw (later e he (he' ▸ hw'))
    · refine ih (distinct.sublist ?_) he he'
      exact (List.sublist_cons_self a es).filterMap _

/-- **No waiter is lost, and none is released too early.** Let an actor get orders of any versions, in
any order and at any time, from waiters who are all different, and let each of its compilations yield a
version no older than what was wanted when it started. Whenever the actor is at rest, every version it
took is compiled, and nobody is held. Everyone who came was told once, is held or stands in the queue;
once the order was taken and the actor is at rest, or once it stopped, the waiter was told. Who was
released had asked for a version that was compiled by then, and without an order to stop all are
released. An order to stop tells all who are held or in the queue that the actor stopped. -/
theorem every_waiter_served [DecidableEq ω] (run : Run (step? window) Prompt {} es d)
    (distinct : (es.filterMap Event.waiter?).Nodup) :
    (d.actor.stopped = false → d.taken ++ d.queue = es.filterMap Event.order?) ∧
    (d.actor.stopped = false → d.actor.phase = .idle → d.actor.waiters = [] ∧
      ∀ v w, .compile v w ∈ d.taken → HasReached d.actor.compiled v) ∧
    (∀ v w, .send (.compile v (some w)) ∈ es →
      (d.told.map (·.waiter)).count w + d.actor.waiters.count w +
        (d.queue.filterMap Order.waiter?).count w = 1 ∧
      (d.actor.stopped = false → d.actor.phase = .idle → .compile v (some w) ∈ d.taken →
        (d.told.map (·.waiter)).count w = 1) ∧
      (d.actor.stopped = true → (d.told.map (·.waiter)).count w = 1) ∧
      ∀ t ∈ d.told, t.waiter = w → t.verdict = .released → HasReached t.compiled v) ∧
    (.send .stop ∉ es → d.actor.stopped = false ∧ ∀ t ∈ d.told, t.verdict = .released) ∧
    (∀ now queue d', d.actor.stopped = false → d.queue = .stop :: queue →
      step? window d (.take now) = some d' →
        d'.actor.stopped = true ∧ d'.actor.waiters = [] ∧ d'.queue = [] ∧
        d'.told = d.told ++ (d.actor.waiters ++ queue.filterMap Order.waiter?).map
          (⟨·, .closed, d.actor.compiled⟩)) := by
  have h := orderly_of_run run
  have hrest : d.actor.stopped = false → d.actor.phase = .idle → d.actor.waiters = [] :=
    fun hs hp => (h.rested hs hp).1
  -- everyone who came is in one of three places, and only once
  have hcount : ∀ v w, .send (.compile v (some w)) ∈ es →
      (d.told.map (·.waiter)).count w + d.actor.waiters.count w +
        (d.queue.filterMap Order.waiter?).count w = 1 := by
    intro v w hw
    have hmem : w ∈ es.filterMap Event.waiter? := List.mem_filterMap.2 ⟨_, hw, rfl⟩
    rw [← List.count_append, ← List.count_append, h.waiters]
    exact List.count_eq_one_of_mem distinct hmem
  refine ⟨h.orders, fun hs hp => ⟨hrest hs hp, fun v w hv => ?_⟩,
    fun v w hw => ⟨hcount v w hw, ?_, ?_, ?_⟩,
    fun hstop => ?_, fun now queue d' hs hq hstep => ?_⟩
  · exact (h.known v w hv).compiled (h.rested hs hp).2
  · -- at rest those who were told are those whose orders were taken
    intro hs hp ht
    have htold := h.told_or_held hs
    rw [hrest hs hp, List.append_nil] at htold
    have hpos : 0 < (d.told.map (·.waiter)).count w := by
      rw [htold]
      exact List.count_pos_iff.2 (List.mem_filterMap.2 ⟨_, ht, rfl⟩)
    have := hcount v w hw
    omega
  · intro hs
    have := hcount v w hw
    rw [(h.stopped hs).2.1, (h.stopped hs).2.2] at this
    simpa using this
  · intro t ht htw hv
    obtain ⟨v', hv', hc⟩ := h.released t ht hv
    have := event_eq_of_waiter distinct hw (h.sent _ hv') rfl (htw ▸ rfl)
    simp only [Event.send.injEq, Order.compile.injEq] at this
    exact this.1 ▸ hc
  · have hs : d.actor.stopped = false := by
      rw [Bool.eq_false_iff]
      exact fun hs => hstop (h.stopped hs).1
    refine ⟨hs, fun t ht => ?_⟩
    cases hv : t.verdict with
    | released => rfl
    | closed => simp [h.closed t ht hv] at hs
  · obtain ⟨order, he, -⟩ | ⟨order, he, -⟩ | ⟨now', queue', he, -, hq', rfl⟩ |
      ⟨now', v, w, queue', he, -, hq', -⟩ | ⟨he, -⟩ | ⟨now', result, target, he, -⟩ :=
      step?_cases hstep <;> cases he
    · rw [hq, List.cons.injEq] at hq'
      rw [← hq'.2, takes_stop d hs]
      exact ⟨rfl, rfl, rfl, rfl⟩
    · rw [hq] at hq'
      cases hq'

/-- The case of one waiter who came in a window and another who came during the compilation. -/
theorem both_waiters_served :
    ∃ es d, Run (step? 130) Prompt ({} : Desk Nat) es d ∧ (es.filterMap Event.waiter?).Nodup ∧
      d.actor.phase = .idle ∧ d.taken = [.compile 1 (some 0), .compile 3 (some 1)] ∧
      (∀ v w, Order.compile v w ∈ d.taken → HasReached d.actor.compiled v) ∧
      (d.told.map (·.waiter)).count 1 = 1 := by
  let es : List (Event Nat) :=
    [.send (.compile 1 (some 0)), .take 0, .expire, .send (.compile 3 (some 1)), .take 140,
      .finish 150 (some 2), .expire, .finish 300 (some 3)]
  let told : List (Told Nat) := [⟨0, .released, some 3⟩, ⟨1, .released, some 3⟩]
  let d : Desk Nat :=
    ⟨⟨.idle, some 3, some 3, 2, [], false⟩, [], [.compile 1 (some 0), .compile 3 (some 1)], told⟩
  have run : Run (step? 130) Prompt {} es d := by
    refine .cons trivial rfl (.cons trivial rfl (.cons trivial rfl (.cons trivial rfl
      (.cons trivial rfl (.cons ?_ rfl (.cons trivial rfl (.cons ?_ rfl (.nil _))))))))
    · intro target ht
      cases ht
      exact ⟨2, rfl, fun wanted hw => by cases hw; decide⟩
    · intro target ht
      cases ht
      exact ⟨3, rfl, fun wanted hw => by cases hw; decide⟩
  have served := every_waiter_served run (by decide)
  exact ⟨es, d, run, by decide, rfl, rfl, (served.2.1 rfl rfl).2,
    (served.2.2.1 3 1 (by decide)).2.1 rfl rfl (by decide)⟩

end LanguageServer.Desk
