import LanguageServer.Attempt
import LanguageServer.Proofs.Saving
import LanguageServer.Proofs.Publishing

/-!
# What is shown after a document was closed

A compilation stores its outcome at one moment and publishes it in messages of their own, file by
file. A document that is closed in between is cleared at once, and the rest of the messages follow.

* `Session.published`, `Session.leftovers`: what was published for a document, and what is left to
  publish;
* `Session.sent_heed`: the messages that a report leads to;
* `Session.Settles`: what is published is taken from what was left, for a step and for a run;
* `Session.leads_finished`: all compilations can end;
* `Session.cleared_iff`: when a closed document stays cleared.
-/

namespace LanguageServer

/-- What a worker is about to publish for a document. -/
def Worker.leftovers (uri : Uri) (k : Worker) : List (List Problem) :=
  match k.stage with
  | some (.sending _ rest) => rest.filterMap (·.shownIn? uri)
  | _ => []

/-- A bound for the steps that a compilation has left, once its document is closed. -/
def Stage.effort : Stage → Nat
  | .starting => 1
  | .calling _ _ => 4
  | .returned _ _ => 3
  | .sending _ rest => rest.length + 1

/-- A bound for the steps that a worker has left in its compilation. -/
def Worker.effort (k : Worker) : Nat := (k.stage.map Stage.effort).getD 0

/-- A bound for the steps that some workers have left in their compilations. -/
def Worker.efforts : List Worker → Nat
  | [] => 0
  | k :: ks => k.effort + efforts ks

theorem Worker.efforts_append (ks ls : List Worker) :
    efforts (ks ++ ls) = efforts ks + efforts ls := by
  induction ks with
  | nil => simp [efforts]
  | cons k ks ih => simp only [List.cons_append, efforts, ih, Nat.add_assoc]

/-- A value that a record was read for was read from one of its fields. -/
theorem Record.read_of_required? {α : Type} {r : Record} {name : String} {read? : Json → Option α} {x : α}
    (found : r.required? name read? = some x) : ∃ j, read? j = some x := by
  obtain ⟨j, -, read⟩ := Option.bind_eq_some_iff.1 found
  exact ⟨j, read⟩

namespace Session

variable {σ : Type} {s t u : Session σ} {h : Host σ} {uri : Uri} {w : Nat} {k x : Worker} {e : Step}
  {es : List Step}

/-- What was published for a document, in order. -/
def published (uri : Uri) (s : Session σ) : List (List Problem) := s.sent.filterMap (·.shownIn? uri)

/-- What is left to publish for a document. -/
def leftovers (uri : Uri) (s : Session σ) : List (List Problem) :=
  s.workers.flatMap (·.leftovers uri)

/-! ### Messages -/

@[simp] theorem post_sent (w : Nat) (order : Order Nat) : (s.post w order).sent = s.sent := by
  rw [post_eq]

@[simp] theorem scheduler_sent (uri : Uri) : (s.scheduler uri).1.sent = s.sent := by
  rw [scheduler_eq]

@[simp] theorem requestCompilation_sent (uri : Uri) : (s.requestCompilation uri).sent = s.sent := by
  simp [requestCompilation]

@[simp] theorem recompile_sent (uri : Uri) : (s.recompile uri).sent = s.sent := by
  rw [recompile, requestCompilation_sent]

@[simp] theorem stopScheduler_sent (uri : Uri) : (s.stopScheduler uri).sent = s.sent := by
  unfold stopScheduler
  split
  · rfl
  · exact post_sent _ _

@[simp] theorem shutdown_sent : s.shutdown.sent = s.sent :=
  foldl_preserves (P := fun t : Session σ => t.sent = s.sent) (fun _ _ _ ht => by simp [ht]) rfl

theorem foldl_sent {α : Type} {f : Session σ → α → Session σ} (same : ∀ s x, (f s x).sent = s.sent)
    (xs : List α) (s : Session σ) : (xs.foldl f s).sent = s.sent :=
  foldl_preserves (P := fun t : Session σ => t.sent = s.sent)
    (fun t x _ ht => (same t x).trans ht) rfl

theorem closeDocument_sent (uri : Uri) :
    (s.closeDocument uri).sent = s.sent ++ (Outgoing.publish? uri [] none).toList := by
  unfold closeDocument publish
  split
  · next silent => simp [silent]
  · next m clears => simp [clears, send]

theorem foldl_closeDocument_sent (uris : List Uri) (s : Session σ) :
    (uris.foldl closeDocument s).sent =
      s.sent ++ uris.filterMap (Outgoing.publish? · [] none) := by
  induction uris generalizing s with
  | nil => simp
  | cons u uris ih =>
    rw [List.foldl_cons, ih, closeDocument_sent]
    cases clears : Outgoing.publish? u [] none <;> simp [clears]

theorem updateDocument_sent (h : Host σ) (uri : Uri) (f : Document → Document) :
    (s.updateDocument h uri f).sent = s.sent := by
  unfold updateDocument
  split
  · exact recompile_sent _
  · rfl

/-- A report leads to no messages, except that the documents which it closes are cleared. -/
theorem sent_heed (n : Notice) (s : Session σ) :
    ∃ uris, uris ⊆ n.closes ∧
      (s.heed h n).sent = s.sent ++ uris.filterMap (Outgoing.publish? · [] none) := by
  have silent : (s.heed h n).sent = s.sent → ∃ uris, uris ⊆ n.closes ∧
      (s.heed h n).sent = s.sent ++ uris.filterMap (Outgoing.publish? · [] none) := fun same =>
    ⟨[], List.nil_subset _, by simpa using same⟩
  cases n with
  | opened d =>
    refine silent ?_
    simp only [heed, openDocument]
    split
    · exact requestCompilation_sent _
    · rfl
  | changed c => exact silent (updateDocument_sent h _ _)
  | saved c => exact silent (updateDocument_sent h _ _)
  | closed uri =>
    refine ⟨[uri], List.Subset.refl _, ?_⟩
    rw [heed, closeDocument_sent]
    cases clears : Outgoing.publish? uri [] none <;> simp [clears]
  | notebookOpened opening =>
    refine silent ?_
    simp only [heed, openNotebook]
    split
    · exact foldl_sent (fun s u => requestCompilation_sent u) _ _
    · rfl
  | notebookChanged change =>
    refine ⟨(change.splice.map (·.closed)).getD [], List.Subset.refl _, ?_⟩
    simp only [heed, changeNotebook]
    split
    · rw [foldl_sent (fun s u => recompile_sent u), foldl_closeDocument_sent]
    · rw [foldl_closeDocument_sent]
  | notebookSaved uri => exact silent rfl
  | notebookClosed closing =>
    exact ⟨closing.cells, fun _ hu => List.mem_cons_of_mem _ hu, foldl_closeDocument_sent _ s⟩
  | configured settings => exact silent rfl
  | cancelled id =>
    refine silent ?_
    simp only [heed, cancel]
    split <;> rfl

/-- Clearing some documents shows nothing in another one. -/
theorem filterMap_cleared {uris : List Uri} (other : uri ∉ uris) :
    (uris.filterMap (Outgoing.publish? · [] none)).filterMap (·.shownIn? uri) = [] := by
  rw [List.filterMap_filterMap, List.filterMap_eq_nil_iff]
  intro u hu
  rw [shownIn?_publish?, if_neg]
  rintro ⟨rfl, -⟩
  exact other hu

theorem published_send (m : Outgoing) :
    (s.send m).published uri = s.published uri ++ (m.shownIn? uri).toList := by
  cases shown : m.shownIn? uri <;> simp [published, send, shown]

theorem published_ask (id : MessageId) (method : String) (params : Json) :
    (s.ask id method params).published uri = s.published uri := by
  unfold ask
  split
  · rw [published_send, published, shutdown_sent]
    exact List.append_nil _
  · split
    · exact (published_send _).trans (List.append_nil _)
    · split
      · exact (published_send _).trans (List.append_nil _)
      · unfold inquire
        split
        · exact (published_send _).trans (List.append_nil _)
        · exact congrArg (List.filterMap _) (scheduler_sent _)

/-! ### What workers have left -/

theorem leftovers_of_workers (same : t.workers = s.workers) : t.leftovers uri = s.leftovers uri := by
  rw [leftovers, same, leftovers]

theorem leftovers_scheduler (u : Uri) : (s.scheduler u).1.leftovers uri = s.leftovers uri := by
  unfold scheduler
  split
  · rfl
  · simp [leftovers, Worker.leftovers]

/-- No message leaves more or less to publish. -/
theorem leftovers_receive (m : Message) : (s.receive h m).leftovers uri = s.leftovers uri := by
  refine receive_induction (P := fun t : Session σ => t.leftovers uri = s.leftovers uri)
    ?_ m ?_ ?_ ?_ ?_ ?_ rfl
  · exact fun a b same ha => (leftovers_of_workers same.workers).trans ha
  · exact fun a u ha =>
      (leftovers_of_workers (post_workers _ _)).trans ((leftovers_scheduler u).trans ha)
  · exact fun a u ha => (leftovers_of_workers (stopScheduler_workers u)).trans ha
  · exact fun a i ha => ha
  · exact fun a ha => (leftovers_of_workers shutdown_workers).trans ha
  · intro a id question ha
    unfold inquire
    split
    · exact ha
    · exact (leftovers_scheduler _).trans ha

/-- A worker that changes stands between others. -/
theorem workers_split (worker : s.workers[w]? = some k)
    (changed : ∀ i, t.workers[i]? = if i = w then some x else s.workers[i]?) :
    ∃ before after, s.workers = before ++ k :: after ∧ t.workers = before ++ x :: after := by
  have set : t.workers = s.workers.modify w fun _ => x := by
    refine List.ext_getElem? fun i => ?_
    rw [changed]
    exact (getElem?_updateWorker (f := fun _ => x) worker i).symm
  obtain ⟨hw, rfl⟩ := List.getElem?_eq_some_iff.1 worker
  exact ⟨s.workers.take w, s.workers.drop (w + 1), by simp,
    set.trans (List.modify_eq_take_cons_drop hw)⟩

theorem leftovers_of_changed (worker : s.workers[w]? = some k)
    (changed : ∀ i, t.workers[i]? = if i = w then some x else s.workers[i]?)
    (same : x.leftovers uri = k.leftovers uri) : t.leftovers uri = s.leftovers uri := by
  obtain ⟨before, after, old, new⟩ := workers_split worker changed
  simp [leftovers, old, new, same]

/-- A call whose document is closed leaves nothing to publish. -/
theorem filterMap_afterCall_of_closed {store : Store} {document : Uri}
    (closed : store.find? document = none) (result : Except Crash Outcome) :
    (afterCall store document result).2.filterMap (·.shownIn? uri) = [] := by
  cases result with
  | error crash => rfl
  | ok outcome => simp [afterCall, Store.accept?, closed]

/-! ### From what is left to what was published -/

/-- What was published between two sessions was left to publish before, and the rest still is. -/
def Settles (uri : Uri) (s t : Session σ) : Prop :=
  ∃ now, t.published uri = s.published uri ++ now ∧ (now ++ t.leftovers uri).Perm (s.leftovers uri)

theorem Settles.of_eq (published : t.published uri = s.published uri)
    (leftovers : t.leftovers uri = s.leftovers uri) : s.Settles uri t :=
  ⟨[], by simpa using published, by simp [leftovers]⟩

theorem Settles.trans (first : s.Settles uri t) (second : t.Settles uri u) : s.Settles uri u := by
  obtain ⟨now, published, left⟩ := first
  obtain ⟨later, published', left'⟩ := second
  refine ⟨now ++ later, by rw [published', published, List.append_assoc], ?_⟩
  rw [List.append_assoc]
  exact (left'.append_left now).trans left

/-- The steps after which a document is not closed again, and no document is open. -/
def StaysClosed (h : Host σ) (uri : Uri) (s : Session σ) : Step → Prop
  | .handle (.notification method params) =>
    ∀ n, Notice.read? method params = some n → uri ∉ n.closes ∧ (s.heed h n).store.documents = []
  | _ => True

theorem Settles.handle {m : Message} (ok : s.StaysClosed h uri (.handle m)) :
    s.Settles uri (s.receive h m) := by
  refine .of_eq ?_ (leftovers_receive m)
  cases m with
  | request id method params => exact published_ask id method params
  | response id => rfl
  | notification method params =>
    simp only [receive, notify]
    split
    · rfl
    · next n read =>
      obtain ⟨uris, closes, sent⟩ := sent_heed (h := h) n s
      have other : uri ∉ uris := fun hu => (ok n read).1 (closes hu)
      rw [published, sent, List.filterMap_append, filterMap_cleared other, List.append_nil,
        published]

/-- A worker does something else than sending. -/
theorem Settles.of_changed (worker : s.workers[w]? = some k)
    (changed : ∀ i, t.workers[i]? = if i = w then some x else s.workers[i]?) (sent : t.sent = s.sent)
    (same : x.leftovers uri = k.leftovers uri) : s.Settles uri t :=
  .of_eq (by rw [published, sent, published]) (leftovers_of_changed worker changed same)

/-- A worker sends a message. -/
theorem Settles.announce {version : Int} {m : Outgoing} {rest : List Outgoing}
    (worker : s.workers[w]? = some k) (stage : k.stage = some (.sending version (m :: rest))) :
    s.Settles uri
      ((s.updateWorker w fun k => { k with stage := some (.sending version rest) }).send m) := by
  let k' : Worker := { k with stage := some (.sending version rest) }
  have first : k.leftovers uri = (m.shownIn? uri).toList ++ k'.leftovers uri := by
    cases shown : m.shownIn? uri <;> simp [Worker.leftovers, stage, shown, k']
  obtain ⟨before, after, old, new⟩ :=
    workers_split (x := k') (t := s.updateWorker w fun k =>
      { k with stage := some (.sending version rest) }) worker (getElem?_updateWorker worker)
  refine ⟨(m.shownIn? uri).toList, published_send m, ?_⟩
  have sent : ∀ a : Session σ, (a.send m).leftovers uri = a.leftovers uri := fun _ => rfl
  rw [sent, leftovers, new, leftovers, old]
  simp only [List.flatMap_append, List.flatMap_cons, first, List.append_assoc]
  exact List.perm_append_comm_assoc _ _ _

theorem leftovers_of_none (stage : k.stage = none) : k.leftovers uri = [] := by
  simp [Worker.leftovers, stage]

theorem leftovers_of_free (free : Stage.isSending k.stage = false) : k.leftovers uri = [] := by
  unfold Worker.leftovers
  split
  · next stage => simp [stage, Stage.isSending] at free
  · rfl

theorem isSending_orphaned (stage : Option Stage) :
    Stage.isSending (Stage.orphaned stage) = false := by
  unfold Stage.orphaned
  split <;> rfl

/-- **Nothing is published that was not left to publish**, once no document is open. -/
theorem settles_step {compiler : σ} (hr : Reaches h { compiler } s) (empty : s.store.documents = [])
    (ok : s.StaysClosed h uri e) (hstep : step? h s e = some t) : s.Settles uri t := by
  have idle : ∀ {w : Nat} {k : Worker} {time : Nat}, s.workers[w]? = some k →
      k.actor.phase = .settling time → k.actor.stopped = false → k.leftovers uri = [] :=
    fun worker phase live => leftovers_of_none
      (((apt_of_reaches hr worker).stage live).2 (by simp [phase]))
  cases taken_of_step? hstep with
  | handle m => exact .handle ok
  | shutdown =>
    exact .of_eq (by rw [published, shutdown_sent, published])
      (leftovers_of_workers shutdown_workers)
  | tick time => exact .of_eq rfl rfl
  | @receive w k order mail worker next free goes =>
    exact .of_changed worker (getElem?_act (s := { s with mail }) worker _ _)
      (by simp [act, updateWorker]) rfl
  | @stop w k order mail worker next free stops =>
    refine .of_changed (x := { k with
      actor := (k.actor.receive s.now h.window order).1
      stage := Stage.orphaned k.stage }) worker (fun i => ?_)
      (by simp [discardMail, act, updateWorker]) ?_
    · rw [discardMail, tell_workers]
      exact getElem?_act (s := { s with mail }) worker _ _ i
    · rw [leftovers_of_free free]
      exact leftovers_of_free (isSending_orphaned k.stage)
  | rest worker phase elapsed live done =>
    refine .of_changed worker (getElem?_act worker _ _) (by simp [act, updateWorker]) ?_
    rw [idle worker phase live]
    rfl
  | start worker phase elapsed live due =>
    refine .of_changed worker (getElem?_act worker _ _) (by simp [act, updateWorker]) ?_
    rw [idle worker phase live]
    rfl
  | miss worker stage closed =>
    refine .of_changed worker (getElem?_act worker _ _) (by simp [act, updateWorker]) ?_
    simp [Worker.leftovers, stage]
  | finish worker stage =>
    refine .of_changed worker (getElem?_act worker _ _) (by simp [act, updateWorker]) ?_
    simp [Worker.leftovers, stage]
  | call worker stage opened =>
    refine .of_changed worker (getElem?_updateWorker worker) rfl ?_
    simp [Worker.leftovers, stage]
  | @yield w k job project compiler cache result worker stage run =>
    refine .of_changed worker (getElem?_updateWorker (s := { s with compiler, cache }) worker) rfl ?_
    simp only [Worker.leftovers, stage]
    split <;> simp_all
  | @accept w k version result worker stage =>
    refine .of_changed worker (getElem?_updateWorker
      (s := { s with store := (afterCall s.store k.document result).1 }) worker) rfl ?_
    have closed : s.store.find? k.document = none := by simp [Store.find?, empty]
    simp [Worker.leftovers, stage, filterMap_afterCall_of_closed closed]
  | announce worker stage => exact .announce worker stage
  | place =>
    exact .of_eq (by simp [published, updateInquiry]) (leftovers_of_workers (post_workers _ _))
  | answerNothing | answer | giveUp =>
    exact .of_eq ((published_send _).trans (List.append_nil _)) rfl

/-- No document is opened by a step that leaves all of them closed. -/
theorem empty_step (empty : s.store.documents = []) (ok : s.StaysClosed h uri e)
    (hstep : step? h s e = some t) : t.store.documents = [] := by
  cases taken_of_step? hstep with
  | handle m =>
    cases m with
    | request id method params =>
      rw [receive, ask_store]
      exact empty
    | response id => exact empty
    | notification method params =>
      simp only [receive, notify]
      split
      · exact empty
      · next n read => exact (ok n read).2
  | @accept w k version result worker stage =>
    obtain he | ⟨o, d, -, hd, -⟩ := Store.afterCall_cases s.store k.document result
    · show (afterCall s.store k.document result).1.documents = []
      rw [he]
      exact empty
    · simp [Store.find?, empty] at hd
  | shutdown => rwa [shutdown_store]
  | receive | rest | start | miss | finish => simpa [act, updateWorker] using empty
  | stop => simpa [discardMail, act, updateWorker] using empty
  | place => simpa [updateInquiry] using empty
  | tick | call | yield | announce | answerNothing | answer | giveUp => exact empty

theorem settles_run {compiler : σ} (start : Reaches h { compiler } s)
    (empty : s.store.documents = []) (run : Run (step? h) (StaysClosed h uri) s es t) :
    s.Settles uri t := by
  have all : Reaches h { compiler } t ∧ t.store.documents = [] ∧ s.Settles uri t :=
    run.invariant (I := fun t : Session σ =>
      Reaches h { compiler } t ∧ t.store.documents = [] ∧ s.Settles uri t)
      (fun a e b ⟨reaches, closed, settles⟩ ok hstep =>
        ⟨reaches.run (.single trivial hstep : Run _ (fun _ _ => True) _ _ _),
          empty_step closed ok hstep, settles.trans (settles_step reaches closed ok hstep)⟩)
      ⟨start, empty, .of_eq rfl rfl⟩
  exact all.2.2

/-! ### Every compilation ends -/

/-- No compilation is under way, and none has messages left. -/
def Finished (s : Session σ) : Prop :=
  ∀ (w : Nat) (k : Worker), s.workers[w]? = some k → k.stage = none

theorem finished_iff : s.Finished ↔ s.workers.all (·.stage.isNone) = true := by
  simp only [Finished, List.all_eq_true, Option.isNone_iff_eq_none, List.mem_iff_getElem?]
  exact ⟨fun h k ⟨w, worker⟩ => h w k worker, fun h w k worker => h k ⟨w, worker⟩⟩

theorem efforts_lt_of_changed (worker : s.workers[w]? = some k)
    (changed : ∀ i, t.workers[i]? = if i = w then some x else s.workers[i]?)
    (less : x.effort < k.effort) : Worker.efforts t.workers < Worker.efforts s.workers := by
  obtain ⟨before, after, old, new⟩ := workers_split worker changed
  rw [old, new, Worker.efforts_append, Worker.efforts_append]
  show _ + (x.effort + _) < _ + (k.effort + _)
  omega

/-- A call whose document is closed leads to one message at most. -/
theorem length_afterCall_of_closed {store : Store} {document : Uri}
    (closed : store.find? document = none) (result : Except Crash Outcome) :
    (afterCall store document result).2.length ≤ 1 := by
  cases result with
  | error crash => exact Nat.le_refl 1
  | ok outcome => simp [afterCall, Store.accept?, closed]

/-- A compilation that is under way while no document is open comes closer to its end. -/
theorem effort_step (h : Host σ) (uri : Uri) (empty : s.store.documents = [])
    (worker : s.workers[w]? = some k) {x : Stage} (stage : k.stage = some x) :
    ∃ e t, s.StaysClosed h uri e ∧ step? h s e = some t ∧
      Worker.efforts t.workers < Worker.efforts s.workers := by
  have closed : s.store.find? k.document = none := by simp [Store.find?, empty]
  cases x with
  | starting =>
    have unread : s.store.job? k.document = none := by rw [Store.job?, closed]; rfl
    refine ⟨.call w, s.act w k none (k.actor.finish s.now h.window none), trivial,
      by simp [step?, call?, worker, stage, unread], ?_⟩
    exact efforts_lt_of_changed worker (getElem?_act worker _ _)
      (by simp [Worker.effort, stage, Stage.effort])
  | calling job project =>
    let call :=
      job.run h.compiler (compilerSettings h.files s.store project) project s.cache s.compiler
    let s' : Session σ := { s with compiler := call.1, cache := call.2.1 }
    let next : Option Stage :=
      if k.actor.stopped then none else some (.returned job.version call.2.2)
    refine ⟨.yield w, s'.updateWorker w fun k => { k with stage := next }, trivial,
      by simp [step?, yield?, worker, stage, s', next, call], ?_⟩
    refine efforts_lt_of_changed worker (getElem?_updateWorker (s := s') worker) ?_
    cases stopped : k.actor.stopped <;> simp [Worker.effort, stage, Stage.effort, next, stopped]
  | returned version result =>
    let s' : Session σ := { s with store := (afterCall s.store k.document result).1 }
    refine ⟨.accept w, s'.updateWorker w fun k' =>
      { k' with stage := some (.sending version (afterCall s.store k.document result).2) }, trivial,
      by simp [step?, accept?, worker, stage, s'], ?_⟩
    refine efforts_lt_of_changed worker (getElem?_updateWorker (s := s') worker) ?_
    have := length_afterCall_of_closed closed result
    simp only [Worker.effort, stage, Stage.effort, Option.map_some, Option.getD_some]
    omega
  | sending version rest =>
    cases rest with
    | nil =>
      refine ⟨.announce w, s.act w k none (k.actor.finish s.now h.window (some version)), trivial,
        by simp [step?, announce?, worker, stage], ?_⟩
      exact efforts_lt_of_changed worker (getElem?_act worker _ _)
        (by simp [Worker.effort, stage, Stage.effort])
    | cons m rest =>
      refine ⟨.announce w, (s.updateWorker w fun k =>
        { k with stage := some (.sending version rest) }).send m, trivial,
        by simp [step?, announce?, worker, stage], ?_⟩
      exact efforts_lt_of_changed worker (getElem?_updateWorker worker)
        (by simp [Worker.effort, stage, Stage.effort])

/-- All compilations can come to their end while no document is open. -/
theorem leads_finished (h : Host σ) (uri : Uri) (empty : s.store.documents = []) :
    Leads h (StaysClosed h uri) s Finished := by
  induction size : Worker.efforts s.workers using Nat.strongRecOn generalizing s with
  | ind n ih =>
    by_cases finished : s.Finished
    · exact .now finished
    · obtain ⟨w, k, worker, busy⟩ : ∃ (w : Nat) (k : Worker), s.workers[w]? = some k ∧
          k.stage ≠ none := by
        simpa [Finished] using finished
      obtain ⟨x, stage⟩ := Option.ne_none_iff_exists'.1 busy
      obtain ⟨e, t, ok, hstep, less⟩ := effort_step h uri empty worker stage
      exact .step ok hstep (ih _ (size ▸ less) (empty_step empty ok hstep) rfl)

theorem Finished.leftovers (finished : s.Finished) (uri : Uri) : s.leftovers uri = [] := by
  refine List.flatMap_eq_nil_iff.2 fun k hk => ?_
  obtain ⟨w, worker⟩ := List.mem_iff_getElem?.1 hk
  exact leftovers_of_none (finished w k worker)

/-! ### Closing -/

/-- A closing names a document that the editor can be told of. -/
theorem isValid_of_closing {method : String} {params : Json}
    (closing : Notice.read? method params = some (.closed uri)) : uri.isValid = true := by
  have read : closingOf? params = some uri := by
    unfold Notice.read? at closing
    split at closing <;> simp_all
  obtain ⟨_, -, read⟩ := Option.bind_eq_some_iff.1 read
  obtain ⟨_, read⟩ := Record.read_of_required? read
  obtain ⟨_, -, read⟩ := Option.bind_eq_some_iff.1 read
  obtain ⟨_, read⟩ := Record.read_of_required? read
  exact (Option.filter_eq_some_iff.1 read).2

/-- **When a closed document stays cleared.** Let a document be closed, after which none is open,
and let nothing be opened then. Whatever is published for it after it was cleared had been left to
publish when it was closed; the last of it is what the editor shows. All compilations can end then.
So the empty list that clears the document is the last that is published for it in every run after
which all compilations have ended, if nothing was left when it was closed, and only then. -/
theorem cleared_iff {compiler : σ} {s₀ s₁ : Session σ} {method : String} {params : Json}
    (start : Reaches h { compiler } s₀) (closing : Notice.read? method params = some (.closed uri))
    (closes : step? h s₀ (.handle (.notification method params)) = some s₁)
    (alone : s₁.store.documents = []) :
    (∀ es t, Run (step? h) (StaysClosed h uri) s₁ es t →
      ∃ later, t.published uri = s₀.published uri ++ [] :: later ∧
        shownIn uri t.sent = later.getLast?.getD [] ∧
        (later ++ t.leftovers uri).Perm (s₀.leftovers uri)) ∧
    (∃ es t, Run (step? h) (StaysClosed h uri) s₁ es t ∧ t.Finished) ∧
    ((∀ es t, Run (step? h) (StaysClosed h uri) s₁ es t → t.Finished →
      t.published uri = s₀.published uri ++ [[]]) ↔ s₀.leftovers uri = []) := by
  have eq_close : s₁ = s₀.closeDocument uri := by
    simpa [step?, Session.receive, notify, closing, heed] using closes.symm
  have cleared : s₁.published uri = s₀.published uri ++ [[]] := by
    rw [eq_close, published, closeDocument_sent, List.filterMap_append, published]
    simp [Outgoing.publish?, isValid_of_closing closing, Outgoing.shownIn?]
  have left : s₁.leftovers uri = s₀.leftovers uri := by
    obtain rfl := Option.some.inj closes
    exact leftovers_receive _
  have reaches : Reaches h { compiler } s₁ :=
    start.run (.single trivial closes : Run _ (fun _ _ => True) _ _ _)
  have settled : ∀ es t, Run (step? h) (StaysClosed h uri) s₁ es t →
      ∃ later, t.published uri = s₀.published uri ++ [] :: later ∧
        (later ++ t.leftovers uri).Perm (s₀.leftovers uri) := by
    intro es t run
    obtain ⟨later, published, rest⟩ := settles_run reaches alone run
    exact ⟨later, by rw [published, cleared]; simp, left ▸ rest⟩
  refine ⟨fun es t run => ?_, leads_finished h uri alone, fun all => ?_,
    fun none es t run ends => ?_⟩
  · obtain ⟨later, published, rest⟩ := settled es t run
    refine ⟨later, published, ?_, rest⟩
    rw [shownIn, ← Session.published, published, List.getLast?_append_cons, List.getLast?_cons]
    cases later.getLast? <;> rfl
  · obtain ⟨es, t, run, ends⟩ := leads_finished h uri alone
    obtain ⟨later, published, rest⟩ := settled es t run
    have none : later = [] := by simpa [published] using all es t run ends
    simpa [none, ends.leftovers uri, List.nil_perm] using rest
  · obtain ⟨later, published, rest⟩ := settled es t run
    rw [none, ends.leftovers uri, List.append_nil, List.perm_nil] at rest
    rw [published, rest]

end Session

/-! ### Two closings -/

namespace Sample

/-- The parameters of a closing of the file. -/
def closingFile : Json := .obj [("textDocument", .obj [("uri", .str file.text)])]

/-- The file is closed. -/
def closesFile : Step := .handle (.notification "textDocument/didClose" closingFile)

/-- A host that has the file, and whose compiler plays a script. -/
def playing : Host Script := ⟨.withParents [(["p", "main.bbc"], .file [])], player, 150⟩

/-- Two calls of the compiler, each of which finds a problem in the file. -/
def problematic : Script :=
  List.replicate 2
    ({ diagnostics := [⟨.error, "Unknown type", ⟨⟨0, 0⟩, ⟨0, 3⟩⟩, some file, []⟩] },
      .ok (programOf [file]))

end Sample

namespace Session

open Sample

/-- The case of a file that is closed after its problem was found, and before that was stored. -/
theorem cleared_before_stored :
    ∃ s₀ s₁ : Session Script, Reaches playing { compiler := problematic } s₀ ∧
      step? playing s₀ closesFile = some s₁ ∧ s₁.store.documents = [] ∧
      s₀.leftovers file = [] ∧ ¬ s₁.Finished ∧
      ∀ es t, Run (step? playing) (StaysClosed playing file) s₁ es t → t.Finished →
        t.published file = [[]] := by
  let before : List Step := opensFile "int one;" :: compiling 0
  let s : Session Script := { compiler := problematic }
  let s₀ : Session Script := (before.foldlM (step? playing) s).get (by decide +kernel)
  let s₁ : Session Script := (step? playing s₀ closesFile).get (by decide +kernel)
  have h₀ : before.foldlM (step? playing) s = some s₀ := (Option.some_get _).symm
  have h₁ : step? playing s₀ closesFile = some s₁ := (Option.some_get _).symm
  have reaches : Reaches playing s s₀ := ⟨before, .of_foldlM (fun _ _ _ => trivial) h₀⟩
  obtain ⟨nothing, silent⟩ : s₀.leftovers file = [] ∧ s₀.published file = [] := by decide +kernel
  obtain ⟨empty, busy⟩ : s₁.store.documents.isEmpty = true ∧
      s₁.workers.all (·.stage.isNone) ≠ true := by decide +kernel
  have alone : s₁.store.documents = [] := List.isEmpty_iff.1 empty
  obtain ⟨-, -, stays⟩ := cleared_iff reaches rfl h₁ alone
  refine ⟨s₀, s₁, reaches, h₁, alone, nothing, fun finished => busy (finished_iff.1 finished),
    fun es t run ends => ?_⟩
  simpa [silent] using stays.2 nothing es t run ends

/-- A file is closed after its problem was stored, and before it was sent. When all is done, the
editor shows a problem of a document that nobody has open. -/
theorem problem_after_closing :
    ∃ t : Session Script, Run (step? playing) (fun _ _ => True) { compiler := problematic }
      (opensFile "int one;" :: compiling 0 ++
        [.accept 0, closesFile, .announce 0, .announce 0, .receive 0]) t ∧
      t.store.documents = [] ∧ t.mail = [] ∧ t.Finished ∧
      t.published file = [[], [⟨⟨⟨0, 0⟩, ⟨0, 3⟩⟩, 1, file.text, "Unknown type"⟩]] ∧
      shownIn file t.sent ≠ [] := by
  let es : List Step := opensFile "int one;" :: compiling 0 ++
    [.accept 0, closesFile, .announce 0, .announce 0, .receive 0]
  let s : Session Script := { compiler := problematic }
  let t : Session Script := (es.foldlM (step? playing) s).get (by decide +kernel)
  have steps : es.foldlM (step? playing) s = some t := (Option.some_get _).symm
  obtain ⟨closed, empty, finished, published, shown⟩ : t.store.documents.isEmpty = true ∧
      t.mail.isEmpty = true ∧ t.workers.all (·.stage.isNone) = true ∧
      t.published file = [[], [⟨⟨⟨0, 0⟩, ⟨0, 3⟩⟩, 1, file.text, "Unknown type"⟩]] ∧
      shownIn file t.sent ≠ [] := by decide +kernel
  exact ⟨t, .of_foldlM (fun _ _ _ => trivial) steps, List.isEmpty_iff.1 closed,
    List.isEmpty_iff.1 empty, finished_iff.2 finished, published, shown⟩

/-- A closed file is saved. That registers it again, from the disk, and its problem comes back,
although the editor has not opened it. -/
theorem problem_after_late_saving :
    ∃ t : Session Script, Run (step? playing) (fun _ _ => True) { compiler := problematic }
      (opensFile "int one;" :: compiling 0 ++ [.accept 0, .announce 0, .announce 0, closesFile,
        .receive 0, savesFile "int one;"] ++ compiling 1 ++ [.accept 1, .announce 1, .announce 1]) t ∧
      t.mail = [] ∧ t.Finished ∧ (t.published file).map List.length = [1, 0, 1] := by
  let es : List Step := opensFile "int one;" :: compiling 0 ++ [.accept 0, .announce 0, .announce 0,
    closesFile, .receive 0, savesFile "int one;"] ++ compiling 1 ++
      [.accept 1, .announce 1, .announce 1]
  let s : Session Script := { compiler := problematic }
  let t : Session Script := (es.foldlM (step? playing) s).get (by decide +kernel)
  have steps : es.foldlM (step? playing) s = some t := (Option.some_get _).symm
  obtain ⟨empty, finished, published⟩ : t.mail.isEmpty = true ∧
      t.workers.all (·.stage.isNone) = true ∧ (t.published file).map List.length = [1, 0, 1] := by
    decide +kernel
  exact ⟨t, .of_foldlM (fun _ _ _ => trivial) steps, List.isEmpty_iff.1 empty,
    finished_iff.2 finished, published⟩

end Session

end LanguageServer
