import LanguageServer.Proofs.Answering
import LanguageServer.Proofs.Logbook

/-!
# Queries do not disturb compilations

A query asks for a version that is known already, and perhaps waits. Some guests come with queries,
and some of those who came anyway no longer wait. Without the guests two runs look the same, at any
moment.

* `Actor.without`, `Order.without`, `Logbook.without`: what is left without the guests;
* `Logbook.step?_without`: a step is the same without them;
* `Logbook.Padded`: one run with queries and departures put into it;
* `Logbook.queries_leave_no_trace`: what the rest of the run is.
-/

namespace LanguageServer

variable {ω : Type} [DecidableEq ω]

/-! ### Steps without the guests -/

/-- The guests are not waited for. -/
def Order.without (guests : List ω) : Order ω → Order ω
  | .compile version waiter => .compile version (waiter.filter (· ∉ guests))
  | .stop => .stop

namespace Actor

variable {guests : List ω} {a : Actor ω} {now window : Nat} {result : Option Int}

/-- The guests do not wait. -/
def without (guests : List ω) (a : Actor ω) : Actor ω :=
  { a with waiters := a.waiters.filter (· ∉ guests) }

/-- A step of an actor and what it tells those who are no guests. -/
def stepWithout (guests : List ω) (r : Actor ω × List (ω × Verdict)) :
    Actor ω × List (ω × Verdict) :=
  (r.1.without guests, r.2.filter (·.1 ∉ guests))

theorem without_hold (waiter : Option ω) :
    (a.hold waiter).without guests = (a.without guests).hold (waiter.filter (· ∉ guests)) := by
  cases waiter with
  | none => simp [hold, without]
  | some w =>
    by_cases hw : w ∈ guests
    · simp [hold, without, hw, Option.filter]
    · simp [hold, without, hw, Option.filter]

theorem without_want (version : Int) :
    (a.want now window version).without guests = (a.without guests).want now window version := rfl

theorem stepWithout_rest : stepWithout guests a.rest = (a.without guests).rest := by
  simp only [stepWithout, rest, without, List.filter_nil, List.filter_map]
  rfl

theorem stepWithout_halt : stepWithout guests a.halt = (a.without guests).halt := by
  simp only [stepWithout, halt, without, List.filter_nil, List.filter_map]
  rfl

theorem receive_without (order : Order ω) :
    (a.without guests).receive now window (order.without guests) =
      stepWithout guests (a.receive now window order) := by
  cases live : a.stopped with
  | true =>
    have live' : (a.without guests).stopped = true := live
    rw [receive_of_stopped live, receive_of_stopped live']
    cases order with
    | stop => rfl
    | compile v w =>
      cases w with
      | none => rfl
      | some w => by_cases hw : w ∈ guests <;> simp [stepWithout, Order.without, hw, Option.filter]
  | false =>
    have live' : (a.without guests).stopped = false := live
    obtain ⟨rfl, he⟩ | ⟨v, w, rfl, news, he⟩ | ⟨v, w, rfl, known, idle, he⟩ |
      ⟨v, w, rfl, known, busy, he⟩ := receive_cases now window order live <;> rw [he]
    · rw [stepWithout_halt]
      simp [receive, live', Order.without]
    · have news' : (a.without guests).isNews v = true := news
      simp [receive, live', Order.without, news', stepWithout, without_want, without_hold]
    · rw [stepWithout_rest, without_hold]
      have known' : (a.without guests).isNews v = false := known
      have idle' : (a.without guests).phase = .idle := idle
      simp [receive, live', Order.without, known', idle']
    · have known' : (a.without guests).isNews v = false := known
      have busy' : (a.without guests).phase ≠ .idle := busy
      simp [receive, live', Order.without, known', busy', stepWithout, without_hold]

theorem expire_without : (a.without guests).expire = stepWithout guests a.expire := by
  have same : (a.without guests).isUpToDate = a.isUpToDate := rfl
  obtain ⟨done, he⟩ | ⟨behind, he⟩ := expire_cases a <;> rw [he]
  · rw [stepWithout_rest]
    exact if_pos (same.trans done)
  · have behind' : (a.without guests).isUpToDate = false := same.trans behind
    simp only [expire, behind', Bool.false_eq_true, if_false]
    rfl

theorem finish_without :
    (a.without guests).finish now window result =
      stepWithout guests (a.finish now window result) := by
  show (if (a.phase = .compiling a.desired || (a.ended result).isUpToDate) = true then
      ((a.ended result).without guests).rest
    else ({ (a.ended result).without guests with phase := .settling (now + window) }, [])) =
    stepWithout guests
      (if (a.phase = .compiling a.desired || (a.ended result).isUpToDate) = true then
        (a.ended result).rest
      else ({ a.ended result with phase := .settling (now + window) }, []))
  split
  · exact stepWithout_rest.symm
  · rfl

omit [DecidableEq ω] in
/-- A query that nobody waits for is nothing to an actor. -/
theorem receive_query {v : Int} (known : a.isNews v = false) (dismissed : a.Dismissed) :
    a.receive now window (.compile v none) = (a, []) := by
  cases live : a.stopped with
  | true => exact receive_of_stopped live
  | false =>
    obtain ⟨ho, -⟩ | ⟨v, w, ho, news, -⟩ | ⟨v, w, ho, -, idle, he⟩ | ⟨v, w, ho, -, -, he⟩ :=
      receive_cases now window (.compile v none) live <;> cases ho
    · cases known.symm.trans news
    · have nobody : a.waiters = [] := dismissed (.inr idle)
      rw [he]
      cases a
      cases idle
      cases nobody
      rfl
    · rw [he]
      simp [hold]

end Actor

namespace Logbook

/-- What happens apart from the guests. -/
def Event.without (guests : List ω) : Event ω → Event ω
  | .order o => .order (o.without guests)
  | .pass time => .pass time
  | .leave waiter => .leave waiter
  | .expire => .expire
  | .finish result => .finish result

/-- What is recorded apart from the guests. -/
def without (guests : List ω) (l : Logbook ω) : Logbook ω :=
  { l with
    actor := l.actor.without guests
    absent := l.absent.filter (· ∉ guests)
    waits := l.waits.filter (·.waiter ∉ guests) }

variable {window : Nat} {guests : List ω} {l l' m m' : Logbook ω} {e : Event ω}
  {es es' : List (Event ω)}

theorem log_without (mark : Option Mark) (r : Actor ω × List (ω × Verdict)) :
    (l.without guests).log mark (Actor.stepWithout guests r) = (l.log mark r).without guests := by
  have told : (r.2.filter (·.1 ∉ guests)).filter (·.1 ∉ (l.without guests).absent) =
      (r.2.filter (·.1 ∉ l.absent)).filter (·.1 ∉ guests) := by
    rw [List.filter_filter, List.filter_filter]
    refine List.filter_congr fun p _ => ?_
    by_cases hp : p.1 ∈ guests <;> simp [without, hp]
  have waits : ((l.without guests).log mark (Actor.stepWithout guests r)).waits =
      ((l.log mark r).without guests).waits := by
    simp only [log, Actor.stepWithout, told]
    simp only [without, List.filter_append, List.filter_map]
    rfl
  rw [Logbook.mk.injEq]
  exact ⟨rfl, rfl, rfl, rfl, rfl, waits⟩

@[simp] theorem without_now (guests : List ω) (l : Logbook ω) : (l.without guests).now = l.now := rfl
@[simp] theorem without_actor (guests : List ω) (l : Logbook ω) :
    (l.without guests).actor = l.actor.without guests := rfl
@[simp] theorem without_deadline? (guests : List ω) (l : Logbook ω) :
    (l.without guests).deadline? = l.deadline? := rfl

theorem started?_without (a : Actor ω) : (a.without guests).started? = a.started? := by
  rw [Actor.started?, Actor.expire_without]
  rfl

/-- Without the guests the same happens, unless a guest leaves. -/
theorem step?_without (stays : ∀ w ∈ guests, e ≠ .leave w) :
    (l.without guests).step? window (e.without guests) =
      (l.step? window e).map (without guests) := by
  cases e with
  | pass time =>
    have same : (l.without guests).mayPass time = l.mayPass time := rfl
    simp only [step?, Event.without, same]
    split <;> rfl
  | order o =>
    have same : (l.actor.without guests).accepted? (o.without guests) = l.actor.accepted? o := by
      cases o <;> rfl
    have stopped : (l.actor.without guests).stopped = l.actor.stopped := rfl
    simp only [step?, Event.without, without_now, without_actor, same, stopped, Actor.receive_without,
      log_without, Option.map_some]
  | leave w =>
    have stays : w ∉ guests := fun hw => stays w hw rfl
    simp [step?, Event.without, without, stays]
  | expire =>
    simp only [step?, Event.without, without_now, without_actor, without_deadline?, started?_without,
      Actor.expire_without, log_without]
    split <;> rfl
  | finish result =>
    have stopped : (l.actor.without guests).stopped = l.actor.stopped := rfl
    have compiling : (l.actor.without guests).isCompiling = l.actor.isCompiling := rfl
    simp only [step?, Event.without, without_now, without_actor, stopped, compiling,
      Actor.finish_without, log_without]
    split <;> rfl

/-! ### Queries and departures -/

/-- One run with queries and departures put into it: `es` are events that happen from `l` on, and
`es'` are the same with more between them. A query asks for a version that is known where it is put,
and its waiter is a guest; those who leave are guests, too. Time may be divided for them. -/
inductive Padded (window : Nat) (guests : List ω) :
    Logbook ω → List (Event ω) → List (Event ω) → Prop
  | nil (l : Logbook ω) : Padded window guests l [] []
  | keep {l m : Logbook ω} {e : Event ω} {es es' : List (Event ω)} (step : l.step? window e = some m)
      (rest : Padded window guests m es es') : Padded window guests l (e :: es) (e :: es')
  | divide {l m : Logbook ω} (first second : Nat) {es es' : List (Event ω)}
      (step : l.step? window (.pass first) = some m)
      (rest : Padded window guests m (.pass second :: es) es') :
      Padded window guests l (.pass (first + second) :: es) (.pass first :: es')
  | query {l : Logbook ω} {version : Int} {waiter : Option ω} {es es' : List (Event ω)}
      (known : l.actor.isNews version = false) (guest : ∀ w ∈ waiter, w ∈ guests)
      (rest : Padded window guests l es es') :
      Padded window guests l es (.order (.compile version waiter) :: es')
  | leave {l : Logbook ω} {waiter : ω} {es es' : List (Event ω)} (guest : waiter ∈ guests)
      (rest : Padded window guests l es es') : Padded window guests l es (.leave waiter :: es')

/-- An actor on a clock holds nobody whom it need not hold. -/
theorem dismissed_step (h : l.actor.Dismissed) (hstep : l.step? window e = some m) :
    m.actor.Dismissed := by
  cases e with
  | pass time =>
    simp only [step?, Option.ite_none_right_eq_some, Option.some.injEq] at hstep
    rw [← hstep.2]
    exact h
  | order o =>
    cases hstep
    exact h.receive _ _ _
  | leave w =>
    cases hstep
    exact h
  | expire =>
    simp only [step?, Option.ite_none_right_eq_some, Option.some.injEq] at hstep
    rw [← hstep.2]
    show l.actor.expire.1.Dismissed
    obtain ⟨-, he⟩ | ⟨-, he⟩ := Actor.expire_cases l.actor <;> rw [he]
    · exact Actor.dismissed_rest _
    · exact h.start
  | finish result =>
    simp only [step?, Option.ite_none_right_eq_some, Option.some.injEq] at hstep
    rw [← hstep.2]
    exact h.finish _ _ _

/-- The guests who leave are not missed. -/
theorem step?_leave (window : Nat) (l : Logbook ω) {w : ω} (guest : w ∈ guests) :
    ∃ m, l.step? window (.leave w) = some m ∧ m.without guests = l.without guests :=
  ⟨_, rfl, by simp [without, guest]⟩

@[simp] theorem log_nothing (l : Logbook ω) : l.log none (l.actor, []) = l := by
  simp [log]

/-- A query by a guest is nothing to the others. -/
theorem step?_query (window : Nat) {version : Int} {waiter : Option ω}
    (known : l.actor.isNews version = false)
    (dismissed : (l.actor.without guests).Dismissed) (guest : ∀ w ∈ waiter, w ∈ guests) :
    ∃ m, l.step? window (.order (.compile version waiter)) = some m ∧
      m.without guests = l.without guests := by
  refine ⟨_, rfl, ?_⟩
  have nobody : (Order.compile version waiter).without guests = .compile version none := by
    rw [Order.without, Order.compile.injEq, Option.filter_eq_none_iff]
    exact ⟨rfl, fun w hw => by simp [guest w hw]⟩
  have accepted : l.actor.accepted? (.compile version waiter) = none := by
    simp [Actor.accepted?, known]
  have receives : Actor.stepWithout guests
      (l.actor.receive l.now window (.compile version waiter)) = (l.actor.without guests, []) := by
    rw [← Actor.receive_without, nobody]
    exact Actor.receive_query known dismissed
  rw [← log_without, receives, accepted, ite_self, Option.map_none]
  exact log_nothing (l.without guests)

/-- What happens to a logbook happens to one that is the same without the guests. -/
theorem step?_same (same : l'.without guests = l.without guests) (step : l.step? window e = some m) :
    ∃ m', l'.step? window e = some m' ∧ m'.without guests = m.without guests := by
  by_cases stays : ∀ w ∈ guests, e ≠ .leave w
  · have after : (l'.without guests).step? window (e.without guests) =
        (l'.step? window e).map (without guests) := step?_without stays
    rw [same, step?_without stays, step, Option.map_some] at after
    exact Option.map_eq_some_iff.1 after.symm
  · push Not at stays
    obtain ⟨w, guest, rfl⟩ := stays
    obtain ⟨m₁, step₁, gone⟩ := step?_leave window l guest
    obtain ⟨m', step', gone'⟩ := step?_leave window l' guest
    obtain rfl : m = m₁ := Option.some.inj (step.symm.trans step₁)
    exact ⟨m', step', gone'.trans (same.trans gone.symm)⟩

/-- Time that can pass at once can pass in two parts. -/
theorem step?_second {k : Logbook ω} {first second : Nat}
    (step : l.step? window (.pass first) = some k)
    (both : l.step? window (.pass (first + second)) = some m) :
    k.step? window (.pass second) = some m := by
  simp only [step?, Option.ite_none_right_eq_some, Option.some.injEq] at step both
  obtain ⟨-, rfl⟩ := step
  obtain ⟨within, rfl⟩ := both
  have within' : Logbook.mayPass { l with now := l.now + first } second = true := by
    simpa [mayPass, deadline?, Nat.add_assoc] using within
  rw [step?, if_pos within', Nat.add_assoc]

/-- Queries and departures of guests leave a run as it is for the others. -/
theorem Padded.lockstep (padded : Padded window guests l es es')
    (run : Run (step? window) (fun _ _ => True) l es m) (dismissed : l.actor.Dismissed)
    (same : l'.without guests = l.without guests) :
    ∃ m', Run (step? window) (fun _ _ => True) l' es' m' ∧ m'.without guests = m.without guests := by
  induction padded generalizing l' with
  | nil l =>
    rw [run.eq_of_nil]
    exact ⟨l', .nil l', same⟩
  | @keep l k e es es' step rest ih =>
    obtain ⟨k₁, -, step₁, run⟩ := run.uncons
    obtain rfl : k = k₁ := Option.some.inj (step.symm.trans step₁)
    obtain ⟨k', step', same⟩ := step?_same same step
    obtain ⟨m', run', same'⟩ := ih run (dismissed_step dismissed step) same
    exact ⟨m', .cons trivial step' run', same'⟩
  | @divide l k first second es es' step rest ih =>
    obtain ⟨k₁, -, step₁, run⟩ := run.uncons
    obtain ⟨k', step', same⟩ := step?_same same step
    obtain ⟨m', run', same'⟩ :=
      ih (.cons trivial (step?_second step step₁) run) (dismissed_step dismissed step) same
    exact ⟨m', .cons trivial step' run', same'⟩
  | @query l version waiter es es' known guest rest ih =>
    have actors : l'.actor.without guests = l.actor.without guests := congrArg Logbook.actor same
    have known' : l'.actor.isNews version = false := by
      have : (l'.actor.without guests).isNews version = false := actors ▸ known
      exact this
    have dismissed' : (l'.actor.without guests).Dismissed := by
      rw [actors]
      intro h
      simp [Actor.without, dismissed h]
    obtain ⟨k', step', gone⟩ := step?_query window known' dismissed' guest
    obtain ⟨m', run', same'⟩ := ih run dismissed (gone.trans same)
    exact ⟨m', .cons trivial step' run', same'⟩
  | @leave l waiter es es' guest rest ih =>
    obtain ⟨k', step, gone⟩ := step?_leave window l' guest
    obtain ⟨m', run', same'⟩ := ih run dismissed (gone.trans same)
    exact ⟨m', .cons trivial step run', same'⟩

/-- What is the same without the guests was recorded the same. -/
theorem recorded_same (same : l'.without guests = l.without guests) :
    l'.now = l.now ∧ l'.marks = l.marks ∧ l'.statuses = l.statuses ∧
      ∀ w ∉ guests, l'.waits.filter (·.waiter = w) = l.waits.filter (·.waiter = w) := by
  have waits : l'.waits.filter (·.waiter ∉ guests) = l.waits.filter (·.waiter ∉ guests) :=
    congrArg Logbook.waits same
  have own : ∀ (k : Logbook ω), ∀ w ∉ guests,
      (k.waits.filter (·.waiter ∉ guests)).filter (·.waiter = w) =
      k.waits.filter (·.waiter = w) := by
    intro k w hw
    rw [List.filter_filter]
    refine List.filter_congr fun x _ => ?_
    by_cases hx : x.waiter = w
    · simp [hx, hw]
    · simp [hx]
  have now : (l'.without guests).now = (l.without guests).now := congrArg Logbook.now same
  have marks : (l'.without guests).marks = (l.without guests).marks := congrArg Logbook.marks same
  have statuses : (l'.without guests).statuses = (l.without guests).statuses :=
    congrArg Logbook.statuses same
  refine ⟨now, marks, statuses, fun w hw => ?_⟩
  rw [← own l' w hw, ← own l w hw, waits]

/-- **Queries leave no trace.** Take any run of an actor on a clock. At any moments, put in requests
for versions that are not newer than what is wanted or compiled by then, with waiters or without;
and let any of those who wait, old or new, wait no longer. All of it can happen, and nothing else
changes: orders are accepted and compilations start and end at the same moments and with the same
results, the actor shows the same changes of its status, and everyone else's wait ends at the same
moment with the same verdict. -/
theorem queries_leave_no_trace (run : Run (step? window) (fun _ _ => True) {} es l)
    (padded : Padded window guests {} es es') :
    ∃ l', Run (step? window) (fun _ _ => True) {} es' l' ∧
      l'.now = l.now ∧ l'.marks = l.marks ∧ l'.statuses = l.statuses ∧
      ∀ w ∉ guests, l'.waits.filter (·.waiter = w) = l.waits.filter (·.waiter = w) := by
  obtain ⟨l', run', same⟩ := padded.lockstep run (fun _ => rfl) rfl
  exact ⟨l', run', recorded_same same⟩

/-- The case of queries in a window, during a compilation and at rest, and of a waiter who leaves.
-/
theorem three_queries_leave_no_trace :
    ∃ (es es' : List (Event Nat)) (l l' : Logbook Nat),
      Run (step? 110) (fun _ _ => True) {} es l ∧ Padded 110 [1, 7, 8] {} es es' ∧
      Run (step? 110) (fun _ _ => True) {} es' l' ∧ l'.marks = l.marks ∧
      l'.statuses = l.statuses ∧ l.waits = [⟨140, 1, .released⟩, ⟨140, 2, .released⟩] ∧
      l'.waits.filter (·.waiter = 2) = [⟨140, 2, .released⟩] ∧ es'.length = es.length + 7 := by
  let es : List (Event Nat) :=
    [.order (.compile 3 (some 1)), .pass 110, .order (.compile 2 (some 2)), .expire, .pass 30,
      .finish (some 3)]
  let l : Logbook Nat := (es.foldlM (step? 110) {}).get (by decide)
  have run : Run (step? 110) (fun _ _ => True) {} es l :=
    .of_foldlM (fun _ _ _ => trivial) (Option.some_get _).symm
  have padded : Padded 110 [1, 7, 8] {} es
      [.order (.compile 3 (some 1)), .pass 50, .order (.compile 3 (some 7)), .leave 1, .pass 60,
        .order (.compile 2 (some 2)), .expire, .order (.compile 1 none), .pass 10, .leave 7, .pass 20,
        .finish (some 3), .order (.compile 3 (some 8))] := by
    refine .keep rfl (.divide 50 60 rfl (.query (by decide) (by simp)
      (.leave (by decide) (.keep rfl (.keep rfl (.keep rfl (.query (by decide) (by simp)
        (.divide 10 20 rfl (.leave (by decide) (.keep rfl (.keep rfl
          (.query (by decide) (by simp) (.nil _)))))))))))))
  obtain ⟨l', run', -, marks, statuses, waits⟩ := queries_leave_no_trace run padded
  have waits₂ := waits 2 (by decide)
  have told : l.waits.filter (·.waiter = 2) = [⟨140, 2, .released⟩] := by decide
  exact ⟨es, _, l, l', run, padded, run', marks, statuses, by decide, waits₂.trans told, rfl⟩

end Logbook

end LanguageServer
