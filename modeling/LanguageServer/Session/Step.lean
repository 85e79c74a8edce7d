import LanguageServer.Run
import LanguageServer.Session.Handling

/-!
# Steps

What can happen next in a session. The main loop, the workers and the inquiries take turns in any
order; each step is taken at one moment, and the store is locked for no longer. In particular a
compilation stores its outcome in one step and sends its messages in others, and messages of the
editor may be handled in between.

* `Step`: the steps;
* `Session.step?`: the session after a step, if that can be taken;
* `Session.Reaches`: what a session can become.
-/

namespace LanguageServer

/-- A step; numbers are those of workers and inquiries. The main loop handles a message, or ends, and
then all workers are to stop; time passes. A worker takes the next order, or its window ends; then a
compilation reads the store and calls the compiler, which returns at some time; the outcome is stored,
and the messages about it are sent one by one. An inquiry places its order, and answers after it was
told something, or gives up after it was taken back. -/
inductive Step
  | handle (m : Message)
  | shutdown
  | tick (time : Nat)
  | receive (worker : Nat)
  | expire (worker : Nat)
  | call (worker : Nat)
  | yield (worker : Nat)
  | accept (worker : Nat)
  | announce (worker : Nat)
  | place (inquiry : Nat)
  | answer (inquiry : Nat)
  | giveUp (inquiry : Nat)

namespace Session

variable {σ : Type}

/-! ### Workers -/

/-- The actor of a worker takes a step, and its waiters are told. -/
def act (s : Session σ) (w : Nat) (worker : Worker) (stage : Option Stage)
    (result : Actor Nat × List (Nat × Verdict)) : Session σ :=
  (s.updateWorker w fun _ => { worker with actor := result.1, stage }).tell result.2

/-- What is left of a compilation whose worker stopped: the call, if the compiler has not returned. -/
def Stage.orphaned : Option Stage → Option Stage
  | some (.calling job project) => some (.calling job project)
  | _ => none

/-- The mail of a worker that stopped is thrown away, and those who wait for an answer learn it. -/
def discardMail (s : Session σ) (w : Nat) : Session σ :=
  let lost := (s.mail.filter (·.1 == w)).filterMap (·.2.waiter?)
  { s with mail := s.mail.filter (·.1 != w) }.tell (lost.map (·, .closed))

/-- The first order for a worker, and the mail without it. -/
def takeOrder? (w : Nat) : List (Nat × Order Nat) → Option (Order Nat × List (Nat × Order Nat))
  | [] => none
  | (v, order) :: mail =>
    if v = w then some (order, mail)
    else (takeOrder? w mail).map fun (found, rest) => (found, (v, order) :: rest)

/-- Whether a worker is in the midst of sending messages, where it takes no orders. -/
def Stage.isSending : Option Stage → Bool
  | some (.sending _ _) => true
  | _ => false

/-- A worker takes the next order. A worker that stops gives up the compilation it runs. -/
def receiveOrder? (h : Host σ) (w : Nat) (s : Session σ) : Option (Session σ) := do
  let worker ← s.workers[w]?
  let (order, mail) ← takeOrder? w s.mail
  if Stage.isSending worker.stage then none
  else
    let (actor, verdicts) := worker.actor.receive s.now h.window order
    let s := { s with mail }
    if actor.stopped then
      some ((s.act w worker (Stage.orphaned worker.stage) (actor, verdicts)).discardMail w)
    else some (s.act w worker worker.stage (actor, verdicts))

/-- The window of a worker ends. -/
def expire? (w : Nat) (s : Session σ) : Option (Session σ) := do
  let worker ← s.workers[w]?
  match worker.actor.phase with
  | .settling time =>
    if worker.actor.stopped || s.now < time then none
    else
      let (actor, verdicts) := worker.actor.expire
      let stage : Option Stage :=
        match actor.phase with
        | .compiling _ => some .starting
        | .idle | .settling _ => none
      some (s.act w worker stage (actor, verdicts))
  | .idle | .compiling _ => none

/-- A compilation reads the store and calls the compiler. That of a closed document ends at once. -/
def call? (h : Host σ) (w : Nat) (s : Session σ) : Option (Session σ) := do
  let worker ← s.workers[w]?
  match worker.stage with
  | some .starting =>
    match s.store.job? worker.document with
    | none => some (s.act w worker none (worker.actor.finish s.now h.window none))
    | some job =>
      let project := Project.discover h.files job.files s.settings
      some (s.updateWorker w fun worker => { worker with stage := some (.calling job project) })
  | _ => none

/-- The compiler returns. What a stopped worker asked for goes nowhere. -/
def yield? (h : Host σ) (w : Nat) (s : Session σ) : Option (Session σ) := do
  let worker ← s.workers[w]?
  match worker.stage with
  | some (.calling job project) =>
    let (compiler, cache, result) :=
      job.run h.compiler (compilerSettings h.files s.store project) project s.cache s.compiler
    let stage : Option Stage :=
      if worker.actor.stopped then none else some (.returned job.version result)
    some ({ s with compiler, cache }.updateWorker w fun worker => { worker with stage })
  | _ => none

/-- A compilation stores its outcome. -/
def accept? (w : Nat) (s : Session σ) : Option (Session σ) := do
  let worker ← s.workers[w]?
  match worker.stage with
  | some (.returned version result) =>
    let (store, messages) := afterCall s.store worker.document result
    some ({ s with store }.updateWorker w fun worker =>
      { worker with stage := some (.sending version messages) })
  | _ => none

/-- A compilation sends a message, or ends if there is none left. -/
def announce? (h : Host σ) (w : Nat) (s : Session σ) : Option (Session σ) := do
  let worker ← s.workers[w]?
  match worker.stage with
  | some (.sending version (m :: rest)) =>
    some ((s.updateWorker w fun worker =>
      { worker with stage := some (.sending version rest) }).send m)
  | some (.sending version []) =>
    some (s.act w worker none (worker.actor.finish s.now h.window (some version)))
  | _ => none

/-! ### Inquiries -/

/-- An inquiry places its order. -/
def place? (i : Nat) (s : Session σ) : Option (Session σ) := do
  let q ← s.inquiries[i]?
  if q.wait = .unplaced then
    some ((s.updateInquiry i fun q => { q with wait := .placed }).post q.worker
      (.compile q.version (some i)))
  else none

/-- An inquiry is answered, and its request is not pending any more. A task that answers drops the request
first and sends the answer next. Both are one step here, at the moment at which the answer is decided:
nothing that happens before it is sent can change it, and to take the request back is too late with or
without the entry in `pending`. All that may differ is its place among the messages of others. -/
def conclude (s : Session σ) (i : Nat) (q : Inquiry) (m : Outgoing) : Session σ :=
  ({ s with pending := s.pending.filter (·.1 != q.id) }.updateInquiry i
    fun q => { q with wait := .answered }).send m

/-- An inquiry answers after it was told: from a snapshot, if its document is compiled and still open,
and else with nothing. -/
def answer? (h : Host σ) (i : Nat) (s : Session σ) : Option (Session σ) := do
  let q ← s.inquiries[i]?
  match q.wait with
  | .told .closed => some (s.conclude i q (.result q.id .null))
  | .told .released =>
    let value := ((Snapshot.capture? s.store q.question.document).map
      (q.question.answer h.files)).getD .null
    some (s.conclude i q (.result q.id value))
  | .unplaced | .placed | .answered => none

/-- An inquiry that was taken back answers. -/
def giveUp? (i : Nat) (s : Session σ) : Option (Session σ) := do
  let q ← s.inquiries[i]?
  if q.cancelled && q.wait != .answered then some (s.conclude i q (.refusal q.id .cancelled))
  else none

/-! ### All steps -/

/-- The session after a step, if that can be taken. -/
def step? (h : Host σ) (s : Session σ) : Step → Option (Session σ)
  | .handle m => some (s.receive h m)
  | .shutdown => some s.shutdown
  | .tick time => some { s with now := s.now + time }
  | .receive w => s.receiveOrder? h w
  | .expire w => s.expire? w
  | .call w => s.call? h w
  | .yield w => s.yield? h w
  | .accept w => s.accept? w
  | .announce w => s.announce? h w
  | .place i => s.place? i
  | .answer i => s.answer? h i
  | .giveUp i => s.giveUp? i

/-- What a session can become by any number of steps. -/
def Reaches (h : Host σ) (s t : Session σ) : Prop :=
  ∃ es, Run (step? h) (fun _ _ => True) s es t

end Session

end LanguageServer
