import LanguageServer.Scheduling.Actor

/-!
# An actor on a clock

One actor with a document whose version is set from outside. A compilation reads the version when it
starts, takes a fixed time, and returns what it read. Time stands still while orders arrive.

* `Happening`: what can be seen;
* `Timeline`: the actor with its clock;
* `Timeline.request`, `wait`, `abandon`, `stop`: orders;
* `Timeline.elapse`: time passes.
-/

namespace LanguageServer

/-- Why a wait for a compilation failed. -/
inductive WaitError
  | cancelled
  | closed
  deriving DecidableEq, Repr

/-- The wording of a failure. -/
def WaitError.message : WaitError → String
  | .cancelled => "compilation wait was cancelled"
  | .closed => "compilation scheduler is closed"

/-- How a wait ends that was not abandoned. -/
def Verdict.toExcept : Verdict → Except WaitError Unit
  | .released => .ok ()
  | .closed => .error .closed

/-- What can be seen of a timeline: the start and the end of a compilation with the version it read,
and the end of a wait with the version that was compiled by then. -/
inductive Happening
  | started (time : Nat) (version : Option Int)
  | ended (time : Nat) (version : Option Int)
  | waited (time : Nat) (name : String) (result : Except WaitError Unit) (compiled : Option Int)

/-- An actor on a clock. `running` is the end of the compilation under way with the version that it
read; waiters are known by their number, and `waiting` are those whose wait has not ended. -/
structure Timeline where
  window : Nat
  duration : Nat
  now : Nat := 0
  version : Option Int := none
  actor : Actor Nat := {}
  running : Option (Nat × Option Int) := none
  names : List String := []
  waiting : List Nat := []
  happenings : List Happening := []

namespace Timeline

/-- One more thing that can be seen. -/
def record (t : Timeline) (h : Happening) : Timeline :=
  { t with happenings := t.happenings ++ [h] }

/-- A wait ends, if it has not ended. -/
def endWait (t : Timeline) (waiter : Nat) (result : Except WaitError Unit) : Timeline :=
  if t.waiting.contains waiter then
    { t with waiting := t.waiting.filter (· != waiter) }.record
      (.waited t.now (t.names.getD waiter "") result t.actor.compiled)
  else t

/-- The actor takes a step, and its waiters are told. -/
def act (t : Timeline) (step : Actor Nat → Actor Nat × List (Nat × Verdict)) : Timeline :=
  let (actor, verdicts) := step t.actor
  verdicts.foldl (fun t (waiter, verdict) => t.endWait waiter verdict.toExcept) { t with actor }

/-- An order arrives. -/
def order (t : Timeline) (o : Order Nat) : Timeline := t.act (Actor.receive t.now t.window o)

/-- A version is wanted. -/
def request (t : Timeline) (version : Int) : Timeline := t.order (.compile version none)

/-- A version is wanted by someone who waits for it. -/
def wait (t : Timeline) (version : Int) (name : String) : Timeline :=
  let waiter := t.names.length
  { t with names := t.names ++ [name], waiting := t.waiting ++ [waiter] }.order
    (.compile version (some waiter))

/-- The number of the last waiter of a name. -/
def waiter? (t : Timeline) (name : String) : Option Nat :=
  (t.names.zipIdx.reverse.find? (·.1 == name)).map (·.2)

/-- The last waiter of a name waits no longer. -/
def abandon (t : Timeline) (name : String) : Timeline :=
  match t.waiter? name with
  | none => t
  | some waiter => t.endWait waiter (.error .cancelled)

/-- The actor is stopped; a compilation under way is given up. -/
def stop (t : Timeline) : Timeline := { t with running := none }.order .stop

/-- The window ends, and a compilation may start. -/
def expire (t : Timeline) : Timeline :=
  let t := t.act Actor.expire
  match t.actor.phase with
  | .compiling _ =>
    { t with running := some (t.now + t.duration, t.version) }.record (.started t.now t.version)
  | .idle | .settling _ => t

/-- The compilation under way ends. -/
def finish (t : Timeline) (version : Option Int) : Timeline :=
  ({ t with running := none }.record (.ended t.now version)).act
    (Actor.finish t.now t.window version)

/-- When the next thing happens by itself, and what the timeline is after it. -/
def next? (t : Timeline) : Option (Nat × (Timeline → Timeline)) :=
  if t.actor.stopped then none
  else
    match t.running, t.actor.phase with
    | some (time, version), _ => some (time, (finish · version))
    | none, .settling time => some (time, expire)
    | none, .idle | none, .compiling _ => none

/-- Time passes up to a moment, with at most so many things happening by themselves. -/
def elapseTo (until_ : Nat) : Nat → Timeline → Timeline
  | 0, t => { t with now := until_ }
  | n + 1, t =>
    match t.next? with
    | none => { t with now := until_ }
    | some (time, step) =>
      if time ≤ until_ then elapseTo until_ n (step { t with now := time })
      else { t with now := until_ }

/-- Time passes. While no order arrives four things can happen: a compilation ends, the window after
it, and the compilation after that, or a window and its compilation. -/
def elapse (t : Timeline) (time : Nat) : Timeline := t.elapseTo (t.now + time) 4

end Timeline

end LanguageServer
