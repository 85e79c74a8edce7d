import LanguageServer.Proofs.Ledger

/-!
# Compilations on a clock

An actor whose orders arrive at any moment, and whose compilations take any time and yield whatever
they like. A window ends at its moment, and time does not pass over it. A logbook records when
orders were accepted and when compilations started and ended, what the actor shows, and what those
who waited were told.

* `Logbook`, `Logbook.step?`: an actor with its clock and its record;
* `Logbook.Due`: a moment that is one window after what was last recorded;
* `Logbook.Punctual`: how the record fits the actor, proved for each step;
* `Logbook.starts_one_window_later`: when compilations start.
-/

namespace LanguageServer

/-- What is recorded of compilations: an order was accepted, a compilation of a wanted version
started, or one ended with the version that was compiled. -/
inductive Mark
  | accepted (time : Nat) (version : Int)
  | started (time : Nat) (target : Option Int)
  | ended (time : Nat) (result : Option Int)
  deriving DecidableEq, Repr

namespace Mark

/-- The moment of a mark. -/
def time : Mark → Nat
  | .accepted time _ | .started time _ | .ended time _ => time

/-- Whether a compilation started. -/
def isStart : Mark → Bool
  | .started _ _ => true
  | .accepted _ _ | .ended _ _ => false

/-- The version that was accepted. -/
def acceptance? : Mark → Option (Nat × Int)
  | .accepted time version => some (time, version)
  | .started _ _ | .ended _ _ => none

/-- The moment at which a compilation ended. -/
def end? : Mark → Option Nat
  | .ended time _ => some time
  | .accepted _ _ | .started _ _ => none

/-- What was wanted when a compilation started. -/
def target? : Mark → Option (Option Int)
  | .started _ target => some target
  | .accepted _ _ | .ended _ _ => none

end Mark

/-- What an actor shows of its work. -/
structure Status where
  desired : Option Int := none
  compiled : Option Int := none
  compilations : Nat := 0
  deriving DecidableEq, Repr

/-- What an actor shows of its work. -/
def Actor.status {ω : Type} (a : Actor ω) : Status := ⟨a.desired, a.compiled, a.compilations⟩

/-- The end of a wait: who waited, what the waiter was told, and when. -/
structure WaitEnd (ω : Type) where
  time : Nat
  waiter : ω
  verdict : Verdict
  deriving DecidableEq, Repr

/-- An actor on a clock with its record. `absent` are those who no longer wait, `statuses` are the
changes of what the actor shows, and `waits` are the waits that ended. -/
structure Logbook (ω : Type) where
  now : Nat := 0
  actor : Actor ω := {}
  absent : List ω := []
  marks : List Mark := []
  statuses : List Status := []
  waits : List (WaitEnd ω) := []
  deriving DecidableEq, Repr

namespace Logbook

/-- What can happen: time passes, an order arrives, someone waits no longer, a window ends, or a
compilation ends with the version that was compiled. -/
inductive Event (ω : Type)
  | pass (time : Nat)
  | order (order : Order ω)
  | leave (waiter : ω)
  | expire
  | finish (result : Option Int)
  deriving DecidableEq, Repr

variable {ω : Type}

/-- The end of the window that is open. -/
def deadline? (l : Logbook ω) : Option Nat :=
  match l.actor.phase with
  | .settling until_ => if l.actor.stopped then none else some until_
  | .idle | .compiling _ => none

/-- Whether some time can pass before the window ends. -/
def mayPass (l : Logbook ω) (time : Nat) : Bool := l.deadline?.all (l.now + time ≤ ·)

section Step

variable [DecidableEq ω]

/-- The actor takes a step, which is recorded. Those who no longer wait are told nothing. -/
def log (l : Logbook ω) (mark : Option Mark) (result : Actor ω × List (ω × Verdict)) : Logbook ω :=
  { l with
    actor := result.1
    marks := l.marks ++ mark.toList
    statuses := l.statuses ++ if result.1.status = l.actor.status then [] else [result.1.status]
    waits := l.waits ++ (result.2.filter (·.1 ∉ l.absent)).map fun p => ⟨l.now, p.1, p.2⟩ }

/-- The logbook after an event, if that can happen. -/
def step? (window : Nat) (l : Logbook ω) : Event ω → Option (Logbook ω)
  | .pass time =>
    if l.mayPass time then some { l with now := l.now + time } else none
  | .order order =>
    let accepted := if l.actor.stopped then none else l.actor.accepted? order
    some (l.log (accepted.map (.accepted l.now)) (l.actor.receive l.now window order))
  | .leave waiter => some { l with absent := waiter :: l.absent }
  | .expire =>
    if l.deadline? = some l.now then
      some (l.log (l.actor.started?.map (.started l.now)) l.actor.expire)
    else none
  | .finish result =>
    if l.actor.isCompiling && !l.actor.stopped then
      some (l.log (some (.ended l.now result)) (l.actor.finish l.now window result))
    else none

end Step

/-- Events that are no orders to stop. -/
def Goes (_ : Logbook ω) (e : Event ω) : Prop := e ≠ .order .stop

/-! ### Marks -/

/-- The last request that was accepted. -/
def lastAcceptance? (marks : List Mark) : Option (Nat × Int) :=
  (marks.filterMap Mark.acceptance?).getLast?

/-- The end of the last compilation. -/
def lastEnd? (marks : List Mark) : Option Nat := (marks.filterMap Mark.end?).getLast?

/-- The last mark is no start, and it was made one window before the moment `time`. -/
def Due (window : Nat) (marks : List Mark) (time : Nat) : Prop :=
  ∃ m, marks.getLast? = some m ∧ m.isStart = false ∧ time = m.time + window

/-- What was accepted last is wanted, and one window has passed since then and since the end of the
last compilation. -/
def Scheduled (window : Nat) (marks : List Mark) (time : Nat) (target : Option Int) : Prop :=
  ∃ accepted version, lastAcceptance? marks = some (accepted, version) ∧ target = some version ∧
    time = max accepted ((lastEnd? marks).getD 0) + window

/-- A start is recorded when it is scheduled. -/
def Started (window : Nat) (before : List Mark) : Mark → Prop
  | .started time target => Scheduled window before time target
  | .accepted _ _ | .ended _ _ => True

/-- Every start of a record is as it should be. -/
def Lawful (window : Nat) (marks : List Mark) : Prop :=
  ∀ before m after, marks = before ++ m :: after → Started window before m

variable {window time : Nat} {marks before after : List Mark} {m : Mark}

@[simp] theorem lastAcceptance?_append_one (marks : List Mark) (m : Mark) :
    lastAcceptance? (marks ++ [m]) = m.acceptance?.or (lastAcceptance? marks) := by
  cases h : m.acceptance? <;> simp [lastAcceptance?, h]

@[simp] theorem lastEnd?_append_one (marks : List Mark) (m : Mark) :
    lastEnd? (marks ++ [m]) = m.end?.or (lastEnd? marks) := by
  cases h : m.end? <;> simp [lastEnd?, h]

theorem due_append_one (h : m.isStart = false) : Due window (marks ++ [m]) (m.time + window) :=
  ⟨m, by simp, h, rfl⟩

theorem mem_of_lastAcceptance? {version : Int} (h : lastAcceptance? marks = some (time, version)) :
    .accepted time version ∈ marks := by
  obtain ⟨m, hm, hv⟩ := List.mem_filterMap.1 (List.mem_of_getLast? h)
  cases m <;> cases hv
  exact hm

theorem mem_of_lastEnd? (h : lastEnd? marks = some time) : ∃ result, .ended time result ∈ marks := by
  obtain ⟨m, hm, ht⟩ := List.mem_filterMap.1 (List.mem_of_getLast? h)
  cases m <;> cases ht
  exact ⟨_, hm⟩

/-- In a record in the order of time, no mark of a kind is later than the last one of the kind. -/
theorem time_le_getLast {α : Type} {f : Mark → Option α} (moment : α → Nat)
    (kind : ∀ m x, f m = some x → moment x = m.time)
    (ordered : marks.Pairwise fun m n => m.time ≤ n.time) {last x : α}
    (latest : (marks.filterMap f).getLast? = some last) (mem : m ∈ marks) (hm : f m = some x) :
    m.time ≤ moment last := by
  have sorted : (marks.filterMap f).Pairwise fun x y => moment x ≤ moment y := by
    refine List.pairwise_filterMap.2 (ordered.imp fun {m n} le x hx y hy => ?_)
    rwa [kind m x hx, kind n y hy]
  have found : x ∈ marks.filterMap f := List.mem_filterMap.2 ⟨m, mem, hm⟩
  obtain ⟨init, hinit⟩ := List.getLast?_eq_some_iff.1 latest
  rw [hinit] at found sorted
  rw [← kind m x hm]
  rcases List.mem_append.1 found with found | found
  · exact (List.pairwise_append.1 sorted).2.2 x found _ (List.mem_singleton_self _)
  · exact Nat.le_of_eq (congrArg moment (List.mem_singleton.1 found))

/-- In a record in the order of time, what is due is scheduled. -/
theorem Due.scheduled (due : Due window marks time)
    (ordered : marks.Pairwise fun m n => m.time ≤ n.time)
    {accepted : Nat} {version : Int} (last : lastAcceptance? marks = some (accepted, version)) :
    Scheduled window marks time (some version) := by
  refine ⟨accepted, version, last, rfl, ?_⟩
  obtain ⟨m, hm, noStart, rfl⟩ := due
  obtain ⟨init, rfl⟩ := List.getLast?_eq_some_iff.1 hm
  obtain ⟨-, -, before⟩ := List.pairwise_append.1 ordered
  rw [lastAcceptance?_append_one] at last
  rw [lastEnd?_append_one]
  cases m with
  | accepted t v =>
    cases last
    have ends : (lastEnd? init).getD 0 ≤ accepted := by
      cases he : lastEnd? init with
      | none => exact Nat.zero_le _
      | some e =>
        obtain ⟨result, hmem⟩ := mem_of_lastEnd? he
        exact before _ hmem _ (List.mem_singleton_self _)
    show accepted + window = max accepted ((lastEnd? init).getD 0) + window
    omega
  | started t target => cases noStart
  | ended t result =>
    have accepts : accepted ≤ t :=
      before _ (mem_of_lastAcceptance? last) _ (List.mem_singleton_self _)
    show t + window = max accepted t + window
    omega

theorem lawful_nil : Lawful window [] := by
  intro before m after whole
  simp at whole

theorem Lawful.append_one (h : Lawful window marks) (hm : Started window marks m) :
    Lawful window (marks ++ [m]) := by
  intro before m' after whole
  rcases List.eq_nil_or_concat after with rfl | ⟨after, last, rfl⟩
  · obtain ⟨rfl, rfl⟩ : marks = before ∧ m = m' := by simpa using whole
    exact hm
  · rw [List.concat_eq_append, ← List.cons_append, ← List.append_assoc] at whole
    obtain ⟨rfl, -⟩ := List.append_inj' whole rfl
    exact h before m' after rfl

/-! ### The record fits the actor -/

/-- The versions that were accepted. -/
def acceptances (marks : List Mark) : List Int := (marks.filterMap Mark.acceptance?).map (·.2)

/-- What was wanted when compilations started. -/
def targets (marks : List Mark) : List (Option Int) := marks.filterMap Mark.target?

@[simp] theorem acceptances_append_one (marks : List Mark) (m : Mark) :
    acceptances (marks ++ [m]) = acceptances marks ++ (m.acceptance?.map (·.2)).toList := by
  cases h : m.acceptance? <;> simp [acceptances, h]

@[simp] theorem targets_append_one (marks : List Mark) (m : Mark) :
    targets (marks ++ [m]) = targets marks ++ m.target?.toList := by
  cases h : m.target? <;> simp [targets, h]

/-- How the record fits an actor that is not told to stop. The marks are in the order of time. What
is wanted was accepted last. A window is due, and has not passed; a request that was recorded last
is in its window, or waits for the end of a compilation. -/
structure Punctual (window : Nat) (l : Logbook ω) : Prop where
  live : l.actor.stopped = false
  booked : l.actor.Booked (acceptances l.marks) (targets l.marks)
  wanted : l.actor.desired = (lastAcceptance? l.marks).map (·.2)
  past : ∀ m ∈ l.marks, m.time ≤ l.now
  ordered : l.marks.Pairwise fun m n => m.time ≤ n.time
  lawful : Lawful window l.marks
  due : ∀ until_, l.actor.phase = .settling until_ → Due window l.marks until_ ∧ l.now ≤ until_
  pending : ∀ time version, l.marks.getLast? = some (.accepted time version) →
    l.actor.phase = .settling (time + window) ∨ l.actor.isCompiling = true

variable {l l' : Logbook ω} {r : Actor ω × List (ω × Verdict)} {e : Event ω} {es : List (Event ω)}

theorem punctual_empty (window : Nat) : Punctual window ({} : Logbook ω) where
  live := rfl
  booked := Actor.booked_new
  wanted := rfl
  past := by simp
  ordered := .nil
  lawful := lawful_nil
  due := by simp
  pending := by simp

theorem deadline?_eq_some {until_ : Nat} (h : l.deadline? = some until_) :
    l.actor.phase = .settling until_ ∧ l.actor.stopped = false := by
  unfold deadline? at h
  split at h
  · next phase =>
    rw [Option.ite_none_left_eq_some, Option.some.injEq] at h
    obtain ⟨live, rfl⟩ := h
    exact ⟨phase, by simpa using live⟩
  · cases h
  · cases h

/-- Time passes as far as the window allows. -/
theorem Punctual.pass (h : Punctual window l) (within : l.mayPass time = true) :
    Punctual window { l with now := l.now + time } := by
  constructor
  case live => exact h.live
  case booked => exact h.booked
  case wanted => exact h.wanted
  case past => exact fun m hm => Nat.le_trans (h.past m hm) (Nat.le_add_right _ _)
  case ordered => exact h.ordered
  case lawful => exact h.lawful
  case due =>
    intro until_ phase
    have open_ : l.deadline? = some until_ := by
      simp only at phase
      simp [deadline?, phase, h.live]
    exact ⟨(h.due until_ phase).1, by simpa [mayPass, open_] using within⟩
  case pending => exact h.pending

/-- A window ends with the start of a compilation. -/
theorem Punctual.expire_eq (h : Punctual window l) (open_ : l.deadline? = some l.now) :
    l.actor.started? = some l.actor.desired ∧
      l.actor.expire = ({ l.actor with phase := .compiling l.actor.desired }, []) := by
  have phase := (deadline?_eq_some open_).1
  refine ⟨h.booked.started?_eq phase, ?_⟩
  obtain ⟨done, -⟩ | ⟨-, he⟩ := Actor.expire_cases l.actor
  · cases done.symm.trans (h.booked.behind _ phase)
  · exact he

/-- In a window, what is wanted is scheduled for its end. -/
theorem Punctual.scheduled (h : Punctual window l) {until_ : Nat}
    (phase : l.actor.phase = .settling until_) :
    Scheduled window l.marks until_ l.actor.desired := by
  have behind := h.booked.behind until_ phase
  have wanted := h.wanted
  cases last : lastAcceptance? l.marks with
  | none =>
    rw [last] at wanted
    simp [Actor.isUpToDate, wanted, versionLt] at behind
  | some p =>
    rw [last] at wanted
    rw [wanted]
    exact (h.due until_ phase).1.scheduled h.ordered last

section Log

variable [DecidableEq ω]

/-- A step that is not recorded leaves the phase and what is wanted, or leads to rest. -/
theorem Punctual.unmarked (h : Punctual window l)
    (live : r.1.stopped = false) (booked : r.1.Booked (acceptances l.marks) (targets l.marks))
    (desired : r.1.desired = l.actor.desired) (phase : r.1.phase = l.actor.phase) :
    Punctual window (l.log none r) := by
  have marks : (l.log none r).marks = l.marks := by simp [log]
  constructor
  case live => exact live
  case booked => exact marks.symm ▸ booked
  case wanted => exact marks.symm ▸ desired.trans h.wanted
  case past => exact marks.symm ▸ h.past
  case ordered => exact marks.symm ▸ h.ordered
  case lawful => exact marks.symm ▸ h.lawful
  case due => exact marks.symm ▸ fun until_ hp => h.due until_ (phase ▸ hp)
  case pending =>
    rw [marks]
    intro time version last
    refine (h.pending time version last).imp (phase ▸ id) fun compiling => ?_
    simpa [Actor.isCompiling, log, phase] using compiling

/-- A step that is recorded, and may open a window. -/
theorem Punctual.marked (h : Punctual window l) (now : m.time = l.now)
    (live : r.1.stopped = false)
    (booked : r.1.Booked (acceptances (l.marks ++ [m])) (targets (l.marks ++ [m])))
    (wanted : r.1.desired = (lastAcceptance? (l.marks ++ [m])).map (·.2))
    (started : Started window l.marks m)
    (opens : ∀ until_, r.1.phase = .settling until_ → m.isStart = false ∧ until_ = l.now + window)
    (pending : ∀ time version, m = .accepted time version →
      r.1.phase = .settling (time + window) ∨ r.1.isCompiling = true) :
    Punctual window (l.log (some m) r) := by
  have marks : (l.log (some m) r).marks = l.marks ++ [m] := rfl
  constructor
  case live => exact live
  case booked => exact booked
  case wanted => exact wanted
  case past =>
    intro n hn
    rcases List.mem_append.1 (marks ▸ hn) with hn | hn
    · exact h.past n hn
    · rw [List.mem_singleton.1 hn]
      exact Nat.le_of_eq now
  case ordered =>
    refine List.pairwise_append.2 ⟨h.ordered, List.pairwise_singleton _ _, fun n hn k hk => ?_⟩
    rw [List.mem_singleton.1 hk, now]
    exact h.past n hn
  case lawful => exact h.lawful.append_one started
  case due =>
    intro until_ phase
    obtain ⟨noStart, rfl⟩ := opens until_ phase
    exact ⟨now ▸ due_append_one noStart, Nat.le_add_right _ _⟩
  case pending =>
    intro time version last
    rw [marks, List.getLast?_append, List.getLast?_singleton, Option.some_or,
      Option.some.injEq] at last
    exact pending time version last

theorem Punctual.order (h : Punctual window l) {v : Int} {w : Option ω} :
    Punctual window
      (l.log ((l.actor.accepted? (.compile v w)).map (.accepted l.now))
        (l.actor.receive l.now window (.compile v w))) := by
  have booked := h.booked.receive l.now window (.compile v w) h.live
  obtain ⟨ho, -⟩ | ⟨v, w, ho, news, he⟩ | ⟨v, w, ho, known, idle, he⟩ | ⟨v, w, ho, known, -, he⟩ :=
    Actor.receive_cases l.now window (.compile v w) h.live <;> cases ho
  · rw [he] at booked ⊢
    have accepted : l.actor.accepted? (.compile v w) = some v := if_pos news
    rw [accepted] at booked ⊢
    apply h.marked
    case now => rfl
    case live => exact h.live
    case booked => simpa [Mark.acceptance?, Mark.target?] using booked
    case wanted => simp [Mark.acceptance?]
    case started => trivial
    case opens =>
      intro until_ phase
      refine ⟨rfl, ?_⟩
      unfold Actor.want at phase
      cases hp : l.actor.phase <;> simp_all
    case pending =>
      rintro _ _ ⟨⟩
      cases hp : l.actor.phase <;> simp [Actor.want, Actor.isCompiling, hp]
  · rw [he] at booked ⊢
    have none : l.actor.accepted? (.compile v w) = none := if_neg (by simp [known])
    rw [none] at booked ⊢
    exact h.unmarked h.live (by simpa using booked) rfl idle.symm
  · rw [he] at booked ⊢
    have none : l.actor.accepted? (.compile v w) = none := if_neg (by simp [known])
    rw [none] at booked ⊢
    exact h.unmarked h.live (by simpa using booked) rfl rfl

theorem Punctual.expire (h : Punctual window l) (open_ : l.deadline? = some l.now) :
    Punctual window (l.log (l.actor.started?.map (.started l.now)) l.actor.expire) := by
  have phase := (deadline?_eq_some open_).1
  have booked := h.booked.expire phase
  obtain ⟨starts, he⟩ := h.expire_eq open_
  rw [he, starts] at booked
  rw [he, starts]
  apply h.marked
  case now => rfl
  case live => exact h.live
  case booked => simpa [Mark.acceptance?, Mark.target?] using booked
  case wanted => simpa [Mark.acceptance?] using h.wanted
  case started => exact h.scheduled phase
  case opens => exact fun _ hp => nomatch hp
  case pending => exact fun _ _ hm => nomatch hm

theorem Punctual.finish (h : Punctual window l) {target : Option Int} (result : Option Int)
    (compiling : l.actor.phase = .compiling target) :
    Punctual window (l.log (some (.ended l.now result)) (l.actor.finish l.now window result)) := by
  have booked := h.booked.finish l.now window result compiling
  apply h.marked
  case now => rfl
  case live => simpa using h.live
  case booked => simpa [Mark.acceptance?, Mark.target?] using booked
  case wanted => simpa [Mark.acceptance?] using h.wanted
  case started => trivial
  case opens =>
    intro until_ phase
    refine ⟨rfl, ?_⟩
    obtain ⟨-, he⟩ | ⟨-, he⟩ := Actor.finish_cases l.actor l.now window result
    · rw [he] at phase
      cases phase
    · rw [he] at phase
      exact (Phase.settling.inj phase).symm
  case pending => exact fun _ _ hm => nomatch hm

theorem Punctual.step (h : Punctual window l) (goes : Goes l e)
    (hstep : l.step? window e = some l') : Punctual window l' := by
  cases e with
  | pass time =>
    simp only [step?, Option.ite_none_right_eq_some, Option.some.injEq] at hstep
    obtain ⟨within, rfl⟩ := hstep
    exact h.pass within
  | order o =>
    cases o with
    | stop => exact absurd rfl goes
    | compile v w =>
      simp only [step?, h.live, Bool.false_eq_true, if_false, Option.some.injEq] at hstep
      rw [← hstep]
      exact h.order
  | leave waiter =>
    cases hstep
    exact ⟨h.live, h.booked, h.wanted, h.past, h.ordered, h.lawful, h.due, h.pending⟩
  | expire =>
    simp only [step?, Option.ite_none_right_eq_some, Option.some.injEq] at hstep
    obtain ⟨open_, rfl⟩ := hstep
    exact h.expire open_
  | finish result =>
    simp only [step?, Option.ite_none_right_eq_some, Option.some.injEq] at hstep
    obtain ⟨busy, rfl⟩ := hstep
    cases phase : l.actor.phase with
    | compiling target => exact h.finish result phase
    | idle => simp [Actor.isCompiling, phase] at busy
    | settling until_ => simp [Actor.isCompiling, phase] at busy

theorem punctual_of_run (run : Run (step? window) Goes {} es l) : Punctual window l :=
  run.invariant (fun _ _ _ h goes hstep => h.step goes hstep) (punctual_empty window)

/-! ### All runs -/

omit [DecidableEq ω] in
/-- At least a window lies between a request or the end of a compilation and every later start. -/
theorem Punctual.window_le (h : Punctual window l) {target : Option Int}
    (whole : l.marks = before ++ .started time target :: after) (mem : m ∈ before)
    (noStart : m.isStart = false) : m.time + window ≤ time := by
  have ordered : before.Pairwise fun m n => m.time ≤ n.time :=
    h.ordered.sublist (whole ▸ List.sublist_append_left _ _)
  obtain ⟨last, version, latest, -, rfl⟩ := h.lawful before _ after whole
  suffices m.time ≤ max last ((lastEnd? before).getD 0) by omega
  cases m with
  | accepted t v =>
    refine Nat.le_trans ?_ (Nat.le_max_left _ _)
    exact time_le_getLast Prod.fst (fun m p hp => by cases m <;> cases hp; rfl) ordered latest mem
      rfl
  | ended t result =>
    refine Nat.le_trans ?_ (Nat.le_max_right _ _)
    cases ends : lastEnd? before with
    | none =>
      have none := List.filterMap_eq_nil_iff.1 (List.getLast?_eq_none_iff.1 ends) _ mem
      cases none
    | some e =>
      exact time_le_getLast id (fun m p hp => by cases m <;> cases hp; rfl) ordered ends mem rfl
  | started t target => cases noStart

/-- **Compilations start one window after the last request and the last compilation.** Let requests
of any versions arrive at any moments, and let compilations take any time and yield whatever they
like; only no order to stop arrives. A compilation starts exactly one window after the later of the
last request that was accepted before and the end of the compilation before, and for the version
that was requested last; so a whole window lies between any accepted request and the next start. Two
requests that were accepted less than a window apart have no start between them, and so share the
next one. A request that was accepted while nothing is compiled opens the window. Time does not pass
over the end of a window, which is where the rule says it is, and at its end the compilation does
start. -/
theorem starts_one_window_later (run : Run (step? window) Goes {} es l) :
    (∀ before time target after, l.marks = before ++ .started time target :: after →
      Scheduled window before time target ∧
      ∀ accepted version, .accepted accepted version ∈ before → accepted + window ≤ time) ∧
    (∀ before first v between second w after,
      l.marks = before ++ .accepted first v :: between ++ .accepted second w :: after →
      second < first + window → ∀ m ∈ between, m.isStart = false) ∧
    (∀ time version, l.marks.getLast? = some (.accepted time version) →
      l.actor.isCompiling = false → l.actor.phase = .settling (time + window)) ∧
    (∀ until_, l.actor.phase = .settling until_ →
      Scheduled window l.marks until_ l.actor.desired ∧ l.now ≤ until_ ∧
      (l.now = until_ → ∃ l', l.step? window .expire = some l' ∧
        l'.marks = l.marks ++ [.started until_ l.actor.desired])) := by
  have h := punctual_of_run run
  refine ⟨fun before time target after whole => ⟨?_, fun accepted version request => ?_⟩,
    fun before first v between second w after whole near m hm => ?_,
    fun time version last rests => ?_,
    fun until_ phase => ⟨h.scheduled phase, (h.due until_ phase).2, fun ends => ?_⟩⟩
  · exact h.lawful before _ after whole
  · exact h.window_le whole request rfl
  · -- a start between them would come a window after the first and before the second
    cases m with
    | accepted _ _ => rfl
    | ended _ _ => rfl
    | started time target =>
      exfalso
      obtain ⟨b₁, b₂, rfl⟩ := List.append_of_mem hm
      have whole' : l.marks =
          (before ++ .accepted first v :: b₁) ++ .started time target :: (b₂ ++
            .accepted second w :: after) := by
        simp [whole]
      have request : Mark.accepted first v ∈ before ++ .accepted first v :: b₁ := by simp
      have late : first + window ≤ time := h.window_le whole' request rfl
      have ordered := h.ordered
      rw [whole'] at ordered
      have early : time ≤ second :=
        (List.pairwise_cons.1 (List.pairwise_append.1 ordered).2.1).1 (.accepted second w) (by simp)
      omega
  · rcases h.pending time version last with phase | compiling
    · exact phase
    · cases rests.symm.trans compiling
  · subst ends
    have open_ : l.deadline? = some l.now := by simp [deadline?, phase, h.live]
    obtain ⟨starts, -⟩ := h.expire_eq open_
    exact ⟨_, if_pos open_, by simp [log, starts]⟩

end Log

/-- The case of two requests in one window, of a third one that arrives during the compilation, and
of one that opens the next window anew. -/
theorem four_requests_share_two_starts :
    ∃ es l, Run (step? 110) Goes ({} : Logbook Nat) es l ∧
      l.marks = [.accepted 0 1, .accepted 100 2, .started 210 (some 2), .accepted 230 3,
        .ended 240 (some 2), .accepted 300 4, .started 410 (some 4), .ended 440 none] ∧
      Scheduled 110 [.accepted 0 1, .accepted 100 2] 210 (some 2) ∧
      Scheduled 110 (l.marks.take 6) 410 (some 4) := by
  let es : List (Event Nat) :=
    [.order (.compile 1 none), .pass 100, .order (.compile 2 (some 0)), .pass 110, .expire, .pass 20,
      .order (.compile 3 none), .pass 10, .finish (some 2), .pass 60, .order (.compile 4 none),
      .order (.compile 4 (some 1)), .leave 1, .pass 110, .expire, .pass 30, .finish none]
  let l : Logbook Nat := (es.foldlM (step? 110) {}).get (by decide)
  have run : Run (step? 110) Goes {} es l :=
    .of_foldlM (fun _ => (by decide : ∀ e ∈ es, e ≠ .order .stop)) (Option.some_get _).symm
  have marks : l.marks = [.accepted 0 1, .accepted 100 2, .started 210 (some 2), .accepted 230 3,
      .ended 240 (some 2), .accepted 300 4, .started 410 (some 4), .ended 440 none] := by decide
  obtain ⟨starts, -⟩ := starts_one_window_later run
  exact ⟨es, l, run, marks, (starts [.accepted 0 1, .accepted 100 2] _ _ _ marks).1,
    (starts (l.marks.take 6) 410 (some 4) _ (by rw [marks]; rfl)).1⟩

end Logbook

end LanguageServer
