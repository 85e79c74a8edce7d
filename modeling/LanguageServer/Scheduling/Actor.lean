import LanguageServer.Document

/-!
# The actor of a document

Every open document has an actor that decides when to compile it. Orders arrive one at a time. An
order for a version newer than all that were wanted or compiled opens a window, or opens it anew; when
the window ends without another such order, the document is compiled. Orders that arrive meanwhile
only move the wanted version; if one did, another window follows. Every order may come with a waiter,
who is released when the actor has nothing left to do.

* `Order`: what an actor is told; `Verdict`: what a waiter is told;
* `Actor`, `Phase`: the state;
* `Actor.receive`, `Actor.expire`, `Actor.finish`: the steps.
-/

namespace LanguageServer

/-- The later of two versions. -/
def laterVersion (a b : Option Int) : Option Int := if versionLt a b then b else a

/-- What an actor is told: to compile a version, for a waiter perhaps, or to stop. -/
inductive Order (ω : Type)
  | compile (version : Int) (waiter : Option ω)
  | stop
  deriving DecidableEq, Repr

/-- The waiter of an order. -/
def Order.waiter? {ω : Type} : Order ω → Option ω
  | .compile _ waiter => waiter
  | .stop => none

/-- What a waiter is told: that there is nothing left to do, or that the actor stopped. -/
inductive Verdict
  | released
  | closed
  deriving DecidableEq, Repr

/-- Where an actor is in its cycle: at rest, in a window that ends at some time, or in a compilation
with the version that was wanted when it started. -/
inductive Phase
  | idle
  | settling (until_ : Nat)
  | compiling (target : Option Int)
  deriving DecidableEq, Repr, Inhabited

/-- The state of an actor whose waiters are known by `ω`: the versions that are wanted and compiled,
the number of compilations, and the waiters it holds. A stopped actor keeps its last phase. -/
structure Actor (ω : Type) where
  phase : Phase := .idle
  desired : Option Int := none
  compiled : Option Int := none
  compilations : Nat := 0
  waiters : List ω := []
  stopped : Bool := false
  deriving DecidableEq, Repr, Inhabited

namespace Actor

variable {ω : Type}

/-- Whether a version is newer than all that were wanted or compiled. -/
def isNews (a : Actor ω) (version : Int) : Bool :=
  versionLt (laterVersion a.desired a.compiled) (some version)

/-- Whether the wanted version is compiled. -/
def isUpToDate (a : Actor ω) : Bool := !versionLt a.compiled a.desired

/-- The actor holds one more waiter. -/
def hold (a : Actor ω) (waiter : Option ω) : Actor ω :=
  { a with waiters := a.waiters ++ waiter.toList }

/-- The actor comes to rest, and all waiters are released. -/
def rest (a : Actor ω) : Actor ω × List (ω × Verdict) :=
  ({ a with phase := .idle, waiters := [] }, a.waiters.map (·, .released))

/-- The actor stops, and all waiters learn it. -/
def halt (a : Actor ω) : Actor ω × List (ω × Verdict) :=
  ({ a with stopped := true, waiters := [] }, a.waiters.map (·, .closed))

/-- A newer version is wanted: a window opens or opens anew, but a compilation goes on. -/
def want (now window : Nat) (version : Int) (a : Actor ω) : Actor ω :=
  { a with
    desired := some version
    phase := match a.phase with
      | .compiling target => .compiling target
      | .idle | .settling _ => .settling (now + window) }

/-- An order arrives. One that brings no news releases its waiter at once if the actor is at rest. -/
def receive (now window : Nat) (order : Order ω) (a : Actor ω) : Actor ω × List (ω × Verdict) :=
  if a.stopped then (a, order.waiter?.toList.map (·, .closed))
  else
    match order with
    | .stop => a.halt
    | .compile version waiter =>
      let held := a.hold waiter
      if held.isNews version then (held.want now window version, [])
      else if held.phase = .idle then held.rest
      else (held, [])

/-- The window ends, and a compilation starts if one is needed. -/
def expire (a : Actor ω) : Actor ω × List (ω × Verdict) :=
  if a.isUpToDate then a.rest else ({ a with phase := .compiling a.desired }, [])

/-- A compilation ends, with the version that was compiled. The actor comes to rest unless a newer
version is wanted now than at the start. -/
def finish (now window : Nat) (result : Option Int) (a : Actor ω) :
    Actor ω × List (ω × Verdict) :=
  let done : Actor ω :=
    { a with compiled := laterVersion a.compiled result, compilations := a.compilations + 1 }
  if a.phase = .compiling done.desired || done.isUpToDate then done.rest
  else ({ done with phase := .settling (now + window) }, [])

end Actor

end LanguageServer
