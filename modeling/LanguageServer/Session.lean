import LanguageServer.Compilation
import LanguageServer.Protocol.Request
import LanguageServer.Scheduling.Actor

/-!
# Sessions

The state of a server between two of its steps. Nothing in it is hidden: what a thread of the server
would hold is a value here, so that every order of steps can be followed.

* `Host`: what the server is built on;
* `Worker`, `Stage`: an actor with the compilation it runs;
* `Inquiry`, `Wait`: a request that is being answered;
* `Session`: all of it, with the orders on their way to the workers and the messages that were sent;
* `Session.post`, `tell`, `requestCompilation`, `closeDocument`: the moves that steps are made of.
-/

namespace LanguageServer

/-- What a server is built on: the files, the compiler, and the length of the windows. -/
structure Host (σ : Type) where
  files : Files
  compiler : Compiler σ
  window : Nat

/-- The window of a server that is told no other, in milliseconds. -/
def defaultWindow : Nat := 150

/-- How far a compilation has come: it is about to read the store, it is inside the compiler, the
compiler returned, or the outcome is stored and there are messages left to send. -/
inductive Stage
  | starting
  | calling (job : Job) (project : Project)
  | returned (version : Int) (result : Except Crash Outcome)
  | sending (version : Int) (rest : List Outgoing)

/-- The actor of a document with the compilation it runs. A stopped worker may still have a call in the
compiler, whose outcome goes nowhere. -/
structure Worker where
  document : Uri
  actor : Actor Nat := {}
  stage : Option Stage := none

/-- What an inquiry waits for: to place its order, to be told that its document is compiled, to answer
after it was told, or nothing since it is answered. -/
inductive Wait
  | unplaced
  | placed
  | told (verdict : Verdict)
  | answered
  deriving DecidableEq, Repr

/-- A request that is answered once a worker has compiled a version of the document. -/
structure Inquiry where
  id : MessageId
  question : DocumentRequest
  worker : Nat
  version : Int
  wait : Wait := .unplaced
  cancelled : Bool := false
  deriving DecidableEq, Repr

/-- The state of a server with a compiler of state `σ`. Workers and inquiries are known by their place
in the lists, which only grow. `schedulers` has the worker of each document, `mail` the orders on their
way to workers, and `pending` the inquiry of each request without an answer. -/
structure Session (σ : Type) where
  compiler : σ
  now : Nat := 0
  store : Store := {}
  cache : ParseCache := {}
  settings : Json := .null
  workers : List Worker := []
  schedulers : List (Uri × Nat) := []
  mail : List (Nat × Order Nat) := []
  inquiries : List Inquiry := []
  pending : List (MessageId × Nat) := []
  shutdownRequested : Bool := false
  sent : List Outgoing := []

namespace Session

variable {σ : Type}

/-- A message is sent. -/
def send (s : Session σ) (m : Outgoing) : Session σ := { s with sent := s.sent ++ [m] }

/-- A worker changes. -/
def updateWorker (s : Session σ) (w : Nat) (f : Worker → Worker) : Session σ :=
  { s with workers := s.workers.modify w f }

/-- An inquiry changes. -/
def updateInquiry (s : Session σ) (i : Nat) (f : Inquiry → Inquiry) : Session σ :=
  { s with inquiries := s.inquiries.modify i f }

/-- Waiters are told. An inquiry hears only what it waits for. -/
def tell (s : Session σ) (verdicts : List (Nat × Verdict)) : Session σ :=
  verdicts.foldl
    (fun s (i, verdict) => s.updateInquiry i fun q =>
      if q.wait = .placed then { q with wait := .told verdict } else q)
    s

/-- Whether a worker takes orders. -/
def isOpen (s : Session σ) (w : Nat) : Bool := s.workers[w]?.any (!·.actor.stopped)

/-- An order is on its way to a worker; one that stopped takes none. -/
def post (s : Session σ) (w : Nat) (order : Order Nat) : Session σ :=
  if s.isOpen w then { s with mail := s.mail ++ [(w, order)] }
  else s.tell (order.waiter?.toList.map (·, .closed))

/-- The worker of a document, hired if there is none. -/
def scheduler (s : Session σ) (uri : Uri) : Session σ × Nat :=
  match s.schedulers.find? (·.1 == uri) with
  | some (_, w) => (s, w)
  | none =>
    let w := s.workers.length
    ({ s with
        workers := s.workers ++ [{ document := uri }]
        schedulers := s.schedulers ++ [(uri, w)] }, w)

/-- The version of a document; one without a version, or none, counts as version zero. -/
def versionOf (s : Session σ) (uri : Uri) : Int :=
  ((s.store.find? uri).bind (·.version)).getD 0

/-- The present version of a document is to be compiled. -/
def requestCompilation (s : Session σ) (uri : Uri) : Session σ :=
  let version := s.versionOf uri
  let (s, w) := s.scheduler uri
  s.post w (.compile version none)

/-- The worker of a document is to stop. -/
def stopScheduler (s : Session σ) (uri : Uri) : Session σ :=
  match s.schedulers.find? (·.1 == uri) with
  | none => s
  | some (_, w) =>
    { s with schedulers := s.schedulers.filter (·.1 != uri) }.post w .stop

/-- All workers are to stop. -/
def shutdown (s : Session σ) : Session σ :=
  s.schedulers.foldl (fun s (_, w) => s.post w .stop) { s with schedulers := [] }

/-- The problems shown in a document are replaced. -/
def publish (s : Session σ) (uri : Uri) (shown : List Problem) (version : Option Int) : Session σ :=
  match Outgoing.publish? uri shown version with
  | none => s
  | some m => s.send m

/-- A document is closed: it leaves the store, its worker is to stop, and no problem is shown in it
any more. -/
def closeDocument (s : Session σ) (uri : Uri) : Session σ :=
  ({ s with store := s.store.remove uri }.stopScheduler uri).publish uri [] none

/-- A document that was changed is to be compiled, without what was cached for it. -/
def recompile (s : Session σ) (uri : Uri) : Session σ :=
  { s with cache := s.cache.erase uri }.requestCompilation uri

end Session

end LanguageServer
