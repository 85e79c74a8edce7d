import LanguageServer.Run
import LanguageServer.Scheduling.Actor

/-!
# An actor at its desk

One actor with the orders that wait for it. Orders are sent at any time and taken one by one, in the
order of their arrival; windows end and compilations end at any time. An actor that stops throws away
the orders that it has not taken, and those who wait for them learn that it stopped.

* `Desk`: the actor, its queue, and what was seen of it so far;
* `Desk.Event`, `Desk.step?`: what can happen;
* `Desk.Prompt`: compilations that do not fall behind.
-/

namespace LanguageServer

/-- What a waiter was told, and the version that was compiled by then. -/
structure Told (ω : Type) where
  waiter : ω
  verdict : Verdict
  compiled : Option Int
  deriving DecidableEq, Repr

/-- An actor with its queue. `taken` are the orders that it took, and `told` is what waiters were told. -/
structure Desk (ω : Type) where
  actor : Actor ω := {}
  queue : List (Order ω) := []
  taken : List (Order ω) := []
  told : List (Told ω) := []
  deriving DecidableEq, Repr

namespace Desk

variable {ω : Type}

/-- What can happen: an order is sent, the actor takes the next one, its window ends, or its compilation
ends with the version that was compiled, if the document was open. -/
inductive Event (ω : Type)
  | send (order : Order ω)
  | take (now : Nat)
  | expire
  | finish (now : Nat) (result : Option Int)
  deriving DecidableEq, Repr

/-- The order that is sent. -/
def Event.order? : Event ω → Option (Order ω)
  | .send order => some order
  | .take _ | .expire | .finish _ _ => none

/-- The waiter of the order that is sent. -/
def Event.waiter? (e : Event ω) : Option ω := e.order?.bind Order.waiter?

/-- Waiters are told. -/
def tell (d : Desk ω) (verdicts : List (ω × Verdict)) : Desk ω :=
  { d with told := d.told ++ verdicts.map fun (w, verdict) => ⟨w, verdict, d.actor.compiled⟩ }

/-- The actor takes a step, and its waiters are told. -/
def act (d : Desk ω) (result : Actor ω × List (ω × Verdict)) : Desk ω :=
  { d with actor := result.1 }.tell result.2

/-- The actor takes an order, and the others stay in the queue. -/
def takes (d : Desk ω) (now window : Nat) (order : Order ω) (queue : List (Order ω)) : Desk ω :=
  { d with queue, taken := d.taken ++ [order] }.act (d.actor.receive now window order)

/-- The queue of an actor that stopped is thrown away. -/
def clear (d : Desk ω) : Desk ω :=
  { d with queue := [] }.tell ((d.queue.filterMap Order.waiter?).map (·, .closed))

/-- The desk after an event, if that can happen. -/
def step? (window : Nat) (d : Desk ω) : Event ω → Option (Desk ω)
  | .send order =>
    if d.actor.stopped then some (d.tell (order.waiter?.toList.map (·, .closed)))
    else some { d with queue := d.queue ++ [order] }
  | .take now =>
    match d.queue with
    | [] => none
    | order :: queue =>
      if d.actor.stopped then none
      else
        let after := d.takes now window order queue
        some (if after.actor.stopped then after.clear else after)
  | .expire =>
    match d.actor.phase with
    | .settling _ => if d.actor.stopped then none else some (d.act d.actor.expire)
    | .idle | .compiling _ => none
  | .finish now result =>
    match d.actor.phase with
    | .compiling _ => if d.actor.stopped then none else some (d.act (d.actor.finish now window result))
    | .idle | .settling _ => none

/-- Every compilation that ends yields a version, and none older than what was wanted when it
started. -/
def Prompt (d : Desk ω) : Event ω → Prop
  | .finish _ result =>
    ∀ target, d.actor.phase = .compiling target →
      ∃ c, result = some c ∧ ∀ wanted, target = some wanted → wanted ≤ c
  | .send _ | .take _ | .expire => True

end Desk

end LanguageServer
