import LanguageServer.Session.Step

/-!
# Sessions on a clock

One order of steps out of all, in which everything that can be done is done at once: orders are taken
in the order of their arrival, compilations take no time, and windows that end at the same moment end
in the order of their alarms.

The clock counts milliseconds in base 64, and an alarm for a later moment first rings when the highest
digit that is to change has changed; then it is set again. A window that opens anew keeps its alarm,
which is set again when it rings too early. Of alarms that ring at one time, the one that was set first
rings first.

* `firstRing`: when an alarm first rings;
* `Clocked`: a session with its alarms;
* `Clocked.settle`: everything that can be done at once;
* `Clocked.handle`, `Clocked.elapse`: a message, and a time in which none arrives;
* `Clocked.converse`, `Session.handleAll`: whole sessions.
-/

namespace LanguageServer

/-- When an alarm that is set now for a moment first rings: the moment with zeros in all digits of base
64 below the highest in which the two differ. -/
def firstRing (now moment : Nat) : Nat :=
  if moment / 64 ≤ now / 64 then moment else 64 * firstRing (now / 64) (moment / 64)
termination_by moment
decreasing_by omega

/-- A session with the alarms that are set, by the time when they ring: the worker whose window may end
then. -/
structure Clocked (σ : Type) where
  session : Session σ
  alarms : List (Nat × Nat) := []

namespace Clocked

variable {σ : Type}

/-- An alarm among others; it rings after those of the same time. -/
def insertAlarm (alarm : Nat × Nat) : List (Nat × Nat) → List (Nat × Nat)
  | [] => [alarm]
  | a :: as => if alarm.1 < a.1 then alarm :: a :: as else a :: insertAlarm alarm as

/-- A step, if it can be taken. A window that opens with it gets an alarm. -/
def take (h : Host σ) (e : Step) (worker : Option Nat) (c : Clocked σ) : Clocked σ :=
  match c.session.step? h e with
  | none => c
  | some session =>
    let deadline? (s : Session σ) (w : Nat) : Option Nat :=
      (s.workers[w]?).bind fun worker =>
        match worker.actor.phase with
        | .settling time => some time
        | .idle | .compiling _ => none
    match worker with
    | none => { c with session }
    | some w =>
      match deadline? c.session w, deadline? session w with
      | none, some time =>
        { session, alarms := insertAlarm (firstRing session.now time, w) c.alarms }
      | _, _ => { c with session }

/-- Steps, each if it can be taken. -/
def takeAll (h : Host σ) (es : List (Step × Option Nat)) (c : Clocked σ) : Clocked σ :=
  es.foldl (fun c (e, worker) => c.take h e worker) c

/-- Everything that can be done at once: inquiries place their orders, workers take all orders, and
inquiries answer. -/
def settle (h : Host σ) (c : Clocked σ) : Clocked σ :=
  let numbers (c : Clocked σ) : List Nat := List.range c.session.inquiries.length
  let c := c.takeAll h ((numbers c).map fun i => (.place i, none))
  let c := c.takeAll h (c.session.mail.map fun (w, _) => (.receive w, some w))
  c.takeAll h ((numbers c).flatMap fun i => [(.giveUp i, none), (.answer i, none)])

/-- A message arrives, and everything is done that follows from it at once. -/
def handle (h : Host σ) (m : Message) (c : Clocked σ) : Clocked σ :=
  (c.take h (.handle m) none).settle h

/-- The number of messages that a worker has left to send. -/
def unsent (s : Session σ) (w : Nat) : Nat :=
  match s.workers[w]?.bind (·.stage) with
  | some (.sending _ rest) => rest.length
  | _ => 0

/-- The window of a worker ends, and its compilation runs from beginning to end. -/
def compile (h : Host σ) (w : Nat) (c : Clocked σ) : Clocked σ :=
  let c := c.takeAll h [(.expire w, none), (.call w, some w), (.yield w, none), (.accept w, none)]
  let c := c.takeAll h (List.replicate (unsent c.session w + 1) (.announce w, some w))
  c.settle h

/-- An alarm rings: the window of the worker ends, or the alarm is set again to its end. -/
def ring (h : Host σ) (w : Nat) (c : Clocked σ) : Clocked σ :=
  match c.session.workers[w]?.map (·.actor) with
  | none => c
  | some actor =>
    match actor.phase with
    | .settling time =>
      if actor.stopped then c
      else if time ≤ c.session.now then c.compile h w
      else { c with alarms := insertAlarm (firstRing c.session.now time, w) c.alarms }
    | .idle | .compiling _ => c

/-- Time passes up to a moment, while at most so many alarms ring. -/
def elapseTo (h : Host σ) (until_ : Nat) : Nat → Clocked σ → Clocked σ
  | 0, c => { c with session := { c.session with now := until_ } }
  | n + 1, c =>
    match c.alarms with
    | [] => { c with session := { c.session with now := until_ } }
    | (time, w) :: alarms =>
      if time ≤ until_ then
        elapseTo h until_ n
          (ring h w { session := { c.session with now := max c.session.now time }, alarms })
      else { c with session := { c.session with now := until_ } }

/-- Time passes. While no message arrives no alarm is new, and none rings twice at one moment. -/
def elapse (h : Host σ) (time : Nat) (c : Clocked σ) : Clocked σ :=
  c.elapseTo h (c.session.now + time) ((time + 1) * c.alarms.length)

/-! ### Whole sessions -/

/-- The end of a session. -/
def close (h : Host σ) (c : Clocked σ) : Clocked σ := (c.take h .shutdown none).settle h

/-- A session with an editor that sends a message after the other, and waits for the answer to every
request before it goes on. -/
def converse (h : Host σ) (c : Clocked σ) : List Message → Clocked σ
  | [] => c.close h
  | m :: ms =>
    if Session.endsSession m then c.close h
    else
      let c := c.handle h m
      match m with
      | .request _ _ _ =>
        converse h (if c.session.pending.isEmpty then c else c.elapse h h.window) ms
      | .notification _ _ | .response _ => converse h c ms

/-- A session whose messages all arrive before a worker takes its first order. -/
def handleAll (h : Host σ) (c : Clocked σ) : List Message → Clocked σ
  | [] => c.close h
  | m :: ms =>
    if Session.endsSession m then c.close h else handleAll h (c.take h (.handle m) none) ms

end Clocked

end LanguageServer
