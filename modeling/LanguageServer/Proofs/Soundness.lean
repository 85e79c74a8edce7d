import LanguageServer.Proofs.Step

/-!
# Sessions whose references are right

Workers and inquiries are known by numbers. In every session that a server can come to, a number stands
for the worker or the inquiry that was meant when it was written down.

* `Session.Asks`: an inquiry that waits for a worker and a version;
* `Session.Sound`: every reference is right, and workers know what the inquiries they hold asked for;
* `Session.Sound.step`, `Session.sound_of_reaches`: every step keeps that, so it always holds.
-/

namespace LanguageServer.Session

variable {σ : Type} {s t : Session σ} {h : Host σ} {uri : Uri} {w i : Nat} {v : Int}

/-- The inquiry of a number waits for a worker to compile a version. -/
def Asks (s : Session σ) (i w : Nat) (v : Int) : Prop :=
  ∃ question, s.terms[i]? = some (question, w, v)

theorem Asks.append (ha : s.Asks i w v) (q : Inquiry) :
    Asks { s with inquiries := s.inquiries ++ [q] } i w v := by
  obtain ⟨question, hq⟩ := ha
  refine ⟨question, ?_⟩
  have grown : ({ s with inquiries := s.inquiries ++ [q] } : Session σ).terms =
      s.terms ++ [q.terms] := by simp [terms]
  rw [grown, List.getElem?_append_left (List.getElem?_eq_some_iff.1 hq).1]
  exact hq

/-- Every reference is right: the worker of a document works on it, and so does the worker that an
inquiry about the document waits for; orders are addressed to workers; the waiter of an order is an
inquiry that asked for it; and a worker knows the versions that those it holds have asked for. -/
structure Sound (s : Session σ) : Prop where
  schedulers : ∀ p ∈ s.schedulers, s.staff[p.2]? = some p.1
  terms : ∀ x ∈ s.terms, s.staff[x.2.1]? = some x.1.document
  addressed : ∀ p ∈ s.mail, p.1 < s.staff.length
  asked : ∀ w v i, (w, Order.compile v (some i)) ∈ s.mail → s.Asks i w v
  held : ∀ w k, s.workers[w]? = some k → ∀ i ∈ k.actor.waiters, ∃ v, s.Asks i w v ∧ k.actor.Knows v

theorem sound_empty (compiler : σ) : Sound { compiler } where
  schedulers := by simp
  terms := by simp [Session.terms]
  addressed := by simp
  asked := by simp
  held := by simp

namespace Sound

/-- Fewer references are still right. -/
theorem shrink (hs : Sound s) (workers : t.workers = s.workers)
    (schedulers : ∀ p ∈ t.schedulers, p ∈ s.schedulers) (mail : ∀ p ∈ t.mail, p ∈ s.mail)
    (terms : t.terms = s.terms) : Sound t := by
  have staff : t.staff = s.staff := by rw [staff, workers, Session.staff]
  have asks : ∀ i w v, s.Asks i w v → t.Asks i w v := by
    rintro i w v ⟨question, hq⟩
    exact ⟨question, by rw [terms, hq]⟩
  constructor
  case schedulers => exact fun p hp => staff ▸ hs.schedulers p (schedulers p hp)
  case terms => exact fun x hx => staff ▸ hs.terms x (terms ▸ hx)
  case addressed => exact fun p hp => staff ▸ hs.addressed p (mail p hp)
  case asked => exact fun w v i hm => asks i w v (hs.asked w v i (mail _ hm))
  case held =>
    intro w k hk i hi
    obtain ⟨v, hv, hk'⟩ := hs.held w k (workers ▸ hk) i hi
    exact ⟨v, asks i w v hv, hk'⟩

theorem frame (hs : Sound s) (same : s.SameCrew t) : Sound t :=
  hs.shrink same.workers (fun _ hp => same.schedulers ▸ hp) (fun _ hp => same.mail ▸ hp)
    (by rw [Session.terms, same.inquiries, Session.terms])

/-- An order is taken out of the mail. -/
theorem dropOrder (hs : Sound s) {order : Order Nat} {mail : List (Nat × Order Nat)}
    (next : takeOrder? w s.mail = some (order, mail)) : Sound { s with mail } :=
  hs.shrink rfl (fun _ hp => hp) (mem_of_takeOrder? next).2 rfl

theorem tell (hs : Sound s) (vs : List (Nat × Verdict)) : Sound (s.tell vs) :=
  hs.shrink (tell_workers vs) (fun _ hp => by simpa using hp) (fun _ hp => by simpa using hp)
    (tell_terms vs)

theorem updateInquiry (hs : Sound s) {f : Inquiry → Inquiry} (hf : ∀ q, (f q).terms = q.terms)
    (i : Nat) : Sound (s.updateInquiry i f) :=
  hs.shrink rfl (fun _ hp => hp) (fun _ hp => hp) (terms_updateInquiry hf i)

/-- An order is on its way to a worker. Its waiter is an inquiry that asked for it. -/
theorem post (hs : Sound s) {order : Order Nat} (hw : w < s.staff.length)
    (ho : ∀ v i, order = .compile v (some i) → s.Asks i w v) : Sound (s.post w order) := by
  unfold Session.post
  split
  · refine { hs with addressed := ?_, asked := ?_ }
    · intro p hp
      rcases List.mem_append.1 hp with hp | hp
      · exact hs.addressed p hp
      · rw [List.mem_singleton.1 hp]
        exact hw
    · intro w' v i hm
      rcases List.mem_append.1 hm with hm | hm
      · exact hs.asked w' v i hm
      · obtain ⟨rfl, rfl⟩ := Prod.mk.inj (List.mem_singleton.1 hm)
        exact ho v i rfl
  · exact hs.tell _

/-- A document has a worker, and that works on it. -/
theorem scheduler (hs : Sound s) (uri : Uri) :
    Sound (s.scheduler uri).1 ∧ (s.scheduler uri).1.staff[(s.scheduler uri).2]? = some uri := by
  unfold Session.scheduler
  split
  · next u w hf =>
    have hu : u = uri := by simpa using List.find?_some hf
    exact ⟨hs, hu ▸ hs.schedulers _ (List.mem_of_find?_eq_some hf)⟩
  · -- the numbers given before still stand for the same workers
    have old : ∀ {w : Nat} {u : Uri}, s.staff[w]? = some u → (s.staff ++ [uri])[w]? = some u := by
      intro w u hw
      rw [List.getElem?_append_left (List.getElem?_eq_some_iff.1 hw).1]
      exact hw
    have new : (s.staff ++ [uri])[s.workers.length]? = some uri := by simp [staff]
    have grown : ({ s with
        workers := s.workers ++ [{ document := uri }]
        schedulers := s.schedulers ++ [(uri, s.workers.length)] } : Session σ).staff =
        s.staff ++ [uri] := by simp [staff]
    refine ⟨?_, grown ▸ new⟩
    constructor
    case schedulers =>
      intro p hp
      rw [grown]
      rcases List.mem_append.1 hp with hp | hp
      · exact old (hs.schedulers p hp)
      · rw [List.mem_singleton.1 hp]
        exact new
    case terms =>
      intro x hx
      rw [grown]
      exact old (hs.terms x hx)
    case addressed =>
      intro p hp
      rw [grown, List.length_append]
      exact Nat.lt_add_right _ (hs.addressed p hp)
    case asked => exact hs.asked
    case held =>
      intro w k hk i hi
      rcases getElem?_concat_cases hk with hk | ⟨-, rfl⟩
      · exact hs.held w k hk i hi
      · cases hi

theorem requestCompilation (hs : Sound s) (uri : Uri) : Sound (s.requestCompilation uri) := by
  obtain ⟨sound, works⟩ := hs.scheduler uri
  exact sound.post (List.getElem?_eq_some_iff.1 works).1 fun v i ho => by cases ho

theorem stopScheduler (hs : Sound s) (uri : Uri) : Sound (s.stopScheduler uri) := by
  unfold Session.stopScheduler
  split
  · exact hs
  · next u w hf =>
    have works := hs.schedulers _ (List.mem_of_find?_eq_some hf)
    have fewer : Sound { s with schedulers := s.schedulers.filter (·.1 != uri) } :=
      hs.shrink rfl (fun p hp => (List.mem_filter.1 hp).1) (fun _ hp => hp) rfl
    exact fewer.post (List.getElem?_eq_some_iff.1 works).1 fun v i ho => by cases ho

theorem heed (hs : Sound s) (n : Notice) : Sound (s.heed h n) :=
  heed_induction (P := Sound) (fun _ _ same hs => hs.frame same)
    (fun _ u _ hs => hs.requestCompilation u) (fun _ u _ hs => hs.stopScheduler u)
    (fun _ i hs => hs.updateInquiry (f := fun q => { q with cancelled := true }) (fun _ => rfl) i) hs

theorem notify (hs : Sound s) (method : String) (params : Json) :
    Sound (s.notify h method params) := by
  unfold Session.notify
  split
  · exact hs
  · exact hs.heed _

/-- The worker of a number changes, and knows what those it holds then have asked for. -/
theorem updateWorker (hs : Sound s) {k : Worker} {f : Worker → Worker}
    (worker : s.workers[w]? = some k) (document : (f k).document = k.document)
    (held : ∀ i ∈ (f k).actor.waiters, ∃ v, s.Asks i w v ∧ (f k).actor.Knows v) :
    Sound (s.updateWorker w f) := by
  have staff := staff_updateWorker worker document
  constructor
  case schedulers => exact fun p hp => staff ▸ hs.schedulers p hp
  case terms => exact fun x hx => staff ▸ hs.terms x hx
  case addressed => exact fun p hp => staff ▸ hs.addressed p hp
  case asked => exact hs.asked
  case held =>
    intro v k' hk' i hi
    rw [getElem?_updateWorker worker] at hk'
    split at hk'
    · next hv =>
      cases hk'
      rw [hv]
      exact held i hi
    · exact hs.held v k' hk' i hi

/-- A compilation goes on, and the actor stays as it is. -/
theorem restage (hs : Sound s) {k : Worker} {f : Worker → Worker}
    (worker : s.workers[w]? = some k) (document : (f k).document = k.document)
    (actor : (f k).actor = k.actor) : Sound (s.updateWorker w f) :=
  hs.updateWorker worker document (by rw [actor]; exact hs.held w k worker)

theorem act (hs : Sound s) {k : Worker} (worker : s.workers[w]? = some k) (stage : Option Stage)
    {r : Actor Nat × List (Nat × Verdict)}
    (held : ∀ i ∈ r.1.waiters, ∃ v, s.Asks i w v ∧ r.1.Knows v) : Sound (s.act w k stage r) :=
  (hs.updateWorker worker rfl held).tell r.2

theorem discardMail (hs : Sound s) (w : Nat) : Sound (s.discardMail w) :=
  (hs.shrink (t := { s with mail := s.mail.filter (·.1 != w) }) rfl (fun _ hp => hp)
    (fun _ hp => (List.mem_filter.1 hp).1) rfl).tell _

theorem conclude (hs : Sound s) (i : Nat) (q : Inquiry) (m : Outgoing) : Sound (s.conclude i q m) :=
  ((hs.shrink (t := { s with pending := s.pending.filter (·.1 != q.id) }) rfl (fun _ hp => hp)
    (fun _ hp => hp) rfl).updateInquiry (f := fun q => { q with wait := .answered })
    (fun _ => rfl) i).frame ⟨rfl, rfl, rfl, rfl⟩

/-- Those whom an actor held before an order and who came with it asked for versions that it knows
afterwards. -/
theorem asked_receive (hs : Sound s) {k : Worker} {order : Order Nat}
    (worker : s.workers[w]? = some k) (live : k.actor.stopped = false) (mail : (w, order) ∈ s.mail)
    (now window : Nat) :
    ∀ i ∈ k.actor.waiters ++ order.waiter?.toList,
      ∃ v, s.Asks i w v ∧ (k.actor.receive now window order).1.Knows v := by
  intro i hi
  rcases List.mem_append.1 hi with hi | hi
  · obtain ⟨v, hv, hk⟩ := hs.held w k worker i hi
    exact ⟨v, hv, hk.receive live⟩
  · cases order with
    | stop => cases hi
    | compile v waiter =>
      obtain rfl : waiter = some i := by simpa using hi
      exact ⟨v, hs.asked w v i mail, Actor.knows_receive live⟩

theorem held_receive (hs : Sound s) {k : Worker} {order : Order Nat} (worker : s.workers[w]? = some k)
    (mail : (w, order) ∈ s.mail) (now window : Nat) :
    ∀ i ∈ (k.actor.receive now window order).1.waiters,
      ∃ v, s.Asks i w v ∧ (k.actor.receive now window order).1.Knows v := by
  cases live : k.actor.stopped with
  | true =>
    rw [Actor.receive_of_stopped live]
    exact hs.held w k worker
  | false =>
    exact ((Actor.receive_serves live).forall_waiters
      (hs.asked_receive worker live mail now window)).2

/-- Those who are told something after an order wait for this worker. -/
theorem told_receive (hs : Sound s) {k : Worker} {order : Order Nat} (worker : s.workers[w]? = some k)
    (mail : (w, order) ∈ s.mail) (now window : Nat) :
    ∀ p ∈ (k.actor.receive now window order).2, ∃ v, s.Asks p.1 w v := by
  cases live : k.actor.stopped with
  | true =>
    rw [Actor.receive_of_stopped live]
    intro p hp
    obtain ⟨i, hi, rfl⟩ := List.mem_map.1 hp
    cases order with
    | stop => cases hi
    | compile v waiter =>
      obtain rfl : waiter = some i := by simpa using hi
      exact ⟨v, hs.asked w v i mail⟩
  | false =>
    intro p hp
    obtain ⟨v, hv, -⟩ := ((Actor.receive_serves live).forall_waiters
      (hs.asked_receive worker live mail now window)).1 p hp
    exact ⟨v, hv⟩

theorem asked_finish (hs : Sound s) {k : Worker} (worker : s.workers[w]? = some k)
    (now window : Nat) (result : Option Int) :
    ∀ i ∈ k.actor.waiters ++ [],
      ∃ v, s.Asks i w v ∧ (k.actor.finish now window result).1.Knows v := by
  intro i hi
  obtain ⟨v, hv, hk⟩ := hs.held w k worker i (by simpa using hi)
  exact ⟨v, hv, hk.finish⟩

theorem held_finish (hs : Sound s) {k : Worker} (worker : s.workers[w]? = some k) (now window : Nat)
    (result : Option Int) :
    ∀ i ∈ (k.actor.finish now window result).1.waiters,
      ∃ v, s.Asks i w v ∧ (k.actor.finish now window result).1.Knows v :=
  ((Actor.finish_serves now window result k.actor).forall_waiters
    (hs.asked_finish worker now window result)).2

theorem inquire (hs : Sound s) (id : MessageId) (question : DocumentRequest) :
    Sound (s.inquire id question) := by
  unfold Session.inquire
  split
  · exact hs.frame ⟨rfl, rfl, rfl, rfl⟩
  · obtain ⟨sound, works⟩ := hs.scheduler question.document
    constructor
    case schedulers => exact sound.schedulers
    case terms =>
      intro x hx
      simp only [Session.terms, List.map_append, List.mem_append, List.map_cons, List.map_nil,
        List.mem_singleton] at hx
      rcases hx with hx | rfl
      · exact sound.terms x hx
      · exact works
    case addressed => exact sound.addressed
    case asked => exact fun w v i hm => (sound.asked w v i hm).append _
    case held =>
      intro w k hk i hi
      obtain ⟨v, hv, hk'⟩ := sound.held w k hk i hi
      exact ⟨v, hv.append _, hk'⟩

theorem shutdown (hs : Sound s) : Sound s.shutdown := by
  unfold Session.shutdown
  have none : Sound { s with schedulers := [] } := hs.shrink rfl (by simp) (fun _ hp => hp) rfl
  refine (foldl_preserves (P := fun t : Session σ => Sound t ∧ t.staff = s.staff) ?_
    ⟨none, rfl⟩).1
  rintro t ⟨u, w⟩ hp ⟨ht, hstaff⟩
  refine ⟨ht.post ?_ (fun v i ho => by cases ho), by rw [staff, post_workers]; exact hstaff⟩
  rw [hstaff]
  exact (List.getElem?_eq_some_iff.1 (hs.schedulers _ hp)).1

theorem ask (hs : Sound s) (id : MessageId) (method : String) (params : Json) :
    Sound (s.ask id method params) :=
  ask_induction (P := Sound) (fun _ _ same hs => hs.frame same) (fun _ hs => hs.shutdown)
    (fun _ _ hs => hs.inquire id _) hs

theorem receive (hs : Sound s) (m : Message) : Sound (s.receive h m) := by
  cases m with
  | request id method params => exact hs.ask id method params
  | notification method params => exact hs.notify method params
  | response id => exact hs

/-- **Every step of a session leaves its references right.** -/
theorem step (hs : Sound s) {e : Step} (hstep : step? h s e = some t) : Sound t := by
  cases taken_of_step? hstep with
  | handle m => exact hs.receive m
  | shutdown => exact hs.shutdown
  | tick time => exact hs.frame ⟨rfl, rfl, rfl, rfl⟩
  | receive worker next =>
    exact (hs.dropOrder next).act worker _ (hs.held_receive worker (mem_of_takeOrder? next).1 _ _)
  | stop worker next =>
    refine discardMail ?_ _
    exact (hs.dropOrder next).act worker _ (hs.held_receive worker (mem_of_takeOrder? next).1 _ _)
  | rest worker => exact hs.act worker _ (by simp [Actor.rest])
  | start worker => exact hs.act worker _ (hs.held _ _ worker)
  | miss worker => exact hs.act worker _ (hs.held_finish worker _ _ _)
  | call worker => exact hs.restage worker rfl rfl
  | yield worker =>
    refine restage ?_ worker ?_ ?_
    · exact hs.frame ⟨rfl, rfl, rfl, rfl⟩
    · rfl
    · rfl
  | accept worker =>
    refine restage ?_ worker ?_ ?_
    · exact hs.frame ⟨rfl, rfl, rfl, rfl⟩
    · rfl
    · rfl
  | announce worker => exact (hs.restage worker rfl rfl).frame ⟨rfl, rfl, rfl, rfl⟩
  | finish worker => exact hs.act worker _ (hs.held_finish worker _ _ _)
  | @place i q inquiry wait =>
    have same : (s.updateInquiry i fun q => { q with wait := .placed }).terms = s.terms :=
      terms_updateInquiry (f := fun q => { q with wait := .placed }) (fun _ => rfl) i
    have terms : s.terms[i]? = some q.terms := by simp [Session.terms, inquiry]
    refine (hs.updateInquiry (f := fun q => { q with wait := .placed }) (fun _ => rfl) i).post ?_ ?_
    · have works := hs.terms _ (List.mem_of_getElem? terms)
      exact (List.getElem?_eq_some_iff.1 works).1
    · rintro v j ho
      cases ho
      exact ⟨q.question, by rw [same, terms]; rfl⟩
  | answerNothing => exact hs.conclude _ _ _
  | answer => exact hs.conclude _ _ _
  | giveUp => exact hs.conclude _ _ _

end Sound

/-- Every session that a server can come to is sound. -/
theorem sound_of_reaches {compiler : σ} (hr : Reaches h { compiler } s) : Sound s := by
  obtain ⟨es, run⟩ := hr
  exact run.invariant (fun _ _ _ hs _ hstep => hs.step hstep) (sound_empty compiler)

end LanguageServer.Session
