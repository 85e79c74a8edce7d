import LanguageServer.Proofs.Desk

/-!
# Compilations are counted

An actor takes orders of any versions at any time, and its compilations yield whatever they like: no
version, or one that is older or newer than what was wanted. A ledger records which orders it accepted,
and what was wanted when each compilation started.

* `Ledger`, `Ledger.step?`: a desk with its record;
* `Actor.Ahead`: nothing that an actor shows goes back;
* `Actor.Booked`: how the record fits the actor, proved for each of its steps;
* `Ledger.every_start_wants_more`: every compilation wants more than all before it.
-/

namespace LanguageServer

variable {ω : Type}

/-! ### The record -/

/-- The version that becomes wanted by an order, if it is accepted. -/
def Actor.accepted? (a : Actor ω) : Order ω → Option Int
  | .compile version _ => if a.isNews version then some version else none
  | .stop => none

/-- What is wanted by the compilation that starts when a window ends, if one does. -/
def Actor.started? (a : Actor ω) : Option (Option Int) :=
  match a.expire.1.phase with
  | .compiling target => some target
  | .idle | .settling _ => none

namespace Desk

/-- The version that becomes wanted by an event. -/
def accepted? (d : Desk ω) : Event ω → Option Int
  | .take _ => d.queue.head?.bind d.actor.accepted?
  | .send _ | .expire | .finish _ _ => none

/-- What is wanted by the compilation that an event starts. -/
def started? (d : Desk ω) : Event ω → Option (Option Int)
  | .expire => d.actor.started?
  | .send _ | .take _ | .finish _ _ => none

end Desk

/-- A desk with its record: the versions of the orders that were accepted, and what was wanted when
each compilation started. -/
structure Ledger (ω : Type) where
  desk : Desk ω := {}
  accepted : List Int := []
  started : List (Option Int) := []

/-- The ledger after an event, if that can happen. -/
def Ledger.step? (window : Nat) (l : Ledger ω) (e : Desk.Event ω) : Option (Ledger ω) :=
  (l.desk.step? window e).map fun desk =>
    { desk
      accepted := l.accepted ++ (l.desk.accepted? e).toList
      started := l.started ++ (l.desk.started? e).toList }

namespace Actor

variable {a b c : Actor ω} {now window : Nat} {order : Order ω} {result : Option Int}
  {accepted : List Int} {started : List (Option Int)}

/-! ### Nothing goes back -/

/-- The wanted and the compiled version of an actor are no older than those of another, and it has
compiled no less. -/
structure Ahead (b a : Actor ω) : Prop where
  desired : versionLt b.desired a.desired = false
  compiled : versionLt b.compiled a.compiled = false
  compilations : a.compilations ≤ b.compilations

theorem Ahead.refl (a : Actor ω) : a.Ahead a :=
  ⟨versionLt_self _, versionLt_self _, Nat.le_refl _⟩

theorem Ahead.trans (hc : c.Ahead b) (hb : b.Ahead a) : c.Ahead a :=
  ⟨versionLt_trans_false hc.desired hb.desired, versionLt_trans_false hc.compiled hb.compiled,
    Nat.le_trans hb.compilations hc.compilations⟩

theorem receive_compilations (h : a.stopped = false) :
    (a.receive now window order).1.compilations = a.compilations := by
  obtain ⟨-, he⟩ | ⟨v, w, -, -, he⟩ | ⟨v, w, -, -, -, he⟩ | ⟨v, w, -, -, -, he⟩ :=
    receive_cases now window order h
  all_goals
    rw [he]
    rfl

@[simp] theorem expire_compilations (a : Actor ω) : a.expire.1.compilations = a.compilations := by
  obtain ⟨-, he⟩ | ⟨-, he⟩ := expire_cases a <;> rw [he]
  rfl

@[simp] theorem finish_compilations (a : Actor ω) :
    (a.finish now window result).1.compilations = a.compilations + 1 := by
  obtain ⟨-, he⟩ | ⟨-, he⟩ := finish_cases a now window result <;> rw [he] <;> rfl

theorem ahead_receive (h : a.stopped = false) : (a.receive now window order).1.Ahead a where
  desired := receive_desired h
  compiled := by rw [receive_compiled h]; exact versionLt_self _
  compilations := Nat.le_of_eq (receive_compilations h).symm

theorem ahead_expire (a : Actor ω) : a.expire.1.Ahead a where
  desired := by simp
  compiled := by simp
  compilations := by simp

theorem ahead_finish (a : Actor ω) : (a.finish now window result).1.Ahead a where
  desired := by simp
  compiled := by rw [finish_compiled]; exact laterVersion_not_lt_left _ _
  compilations := by simp

/-! ### The record fits the actor -/

/-- Whether a compilation is under way. -/
def isCompiling (a : Actor ω) : Bool := a.phase matches .compiling _

/-- Whether what is wanted waits for a compilation of its own: in a window, and during a compilation
that was started for something else. -/
def Waits (a : Actor ω) : Prop := a.phase ≠ .idle ∧ a.phase ≠ .compiling a.desired

/-- How the record fits the actor. Nothing that a compilation was started for is newer than what is
wanted; what waits for a compilation is newer, and was accepted after it. In a window the compiled
version is older than the wanted one. -/
structure Booked (a : Actor ω) (accepted : List Int) (started : List (Option Int)) : Prop where
  known : ∀ t ∈ started, versionLt a.desired t = false
  newer : a.Waits → ∀ t ∈ started, versionLt t a.desired = true
  behind : ∀ time, a.phase = .settling time → a.isUpToDate = false
  ordered : started.Pairwise (versionLt · · = true)
  source : started.Sublist (accepted.map some)
  waiting : a.Waits → (started ++ [a.desired]).Sublist (accepted.map some)
  count : started.length = a.compilations + a.isCompiling.toNat

theorem booked_new : ({} : Actor ω).Booked [] [] where
  known := by simp
  newer := by simp
  behind := by simp
  ordered := .nil
  source := .slnil
  waiting := fun h => absurd rfl h.1
  count := rfl

/-- Waiters and the end of an actor do not matter to the record. -/
theorem Booked.of_eq (h : a.Booked accepted started) (phase : b.phase = a.phase)
    (desired : b.desired = a.desired) (compiled : b.compiled = a.compiled)
    (compilations : b.compilations = a.compilations) : b.Booked accepted started := by
  have waits : b.Waits ↔ a.Waits := by simp [Waits, phase, desired]
  constructor
  case known => exact desired ▸ h.known
  case newer => exact desired ▸ fun hw => h.newer (waits.1 hw)
  case behind =>
    intro time hp
    simpa [isUpToDate, desired, compiled] using h.behind time (phase ▸ hp)
  case ordered => exact h.ordered
  case source => exact h.source
  case waiting => exact desired ▸ fun hw => h.waiting (waits.1 hw)
  case count => simpa [isCompiling, phase, compilations] using h.count

/-- An order that is accepted is recorded; what it wants is newer than all before. -/
theorem Booked.want (h : a.Booked accepted started) {v : Int} (news : a.isNews v = true) :
    (a.want now window v).Booked (accepted ++ [v]) started := by
  obtain ⟨newer, ahead⟩ := versionLt_of_later news
  have newest : ∀ t ∈ started, versionLt t (some v) = true := fun t ht =>
    versionLt_of_not_lt_of_lt (h.known t ht) newer
  constructor
  case known => exact fun t ht => versionLt_asymm (newest t ht)
  case newer => exact fun _ => newest
  case behind => exact fun _ _ => by simp [isUpToDate, Actor.want, ahead]
  case ordered => exact h.ordered
  case source =>
    rw [List.map_append]
    exact h.source.trans (List.sublist_append_left _ _)
  case waiting =>
    intro _
    rw [List.map_append]
    exact h.source.append (List.Sublist.refl _)
  case count =>
    have same : (a.want now window v).isCompiling = a.isCompiling := by
      unfold isCompiling Actor.want
      cases a.phase <;> rfl
    rw [same]
    exact h.count

theorem Booked.receive (now window : Nat) (order : Order ω) (h : a.Booked accepted started)
    (live : a.stopped = false) :
    (a.receive now window order).1.Booked (accepted ++ (a.accepted? order).toList) started := by
  obtain ⟨rfl, he⟩ | ⟨v, w, rfl, news, he⟩ | ⟨v, w, rfl, known, idle, he⟩ |
    ⟨v, w, rfl, known, -, he⟩ := receive_cases now window order live <;> rw [he]
  · rw [accepted?, Option.toList_none, List.append_nil]
    exact h.of_eq rfl rfl rfl rfl
  · have held : (a.hold w).Booked accepted started := h.of_eq rfl rfl rfl rfl
    rw [accepted?, if_pos news]
    exact held.want news
  · simp only [accepted?, known, Bool.false_eq_true, if_false, Option.toList_none, List.append_nil]
    exact h.of_eq idle.symm rfl rfl rfl
  · simp only [accepted?, known, Bool.false_eq_true, if_false, Option.toList_none, List.append_nil]
    exact h.of_eq rfl rfl rfl rfl

/-- A window ends with the start of a compilation: what is compiled is behind what is wanted. -/
theorem Booked.started?_eq (h : a.Booked accepted started) {time : Nat}
    (window : a.phase = .settling time) : a.started? = some a.desired := by
  simp [started?, Actor.expire, h.behind time window]

theorem Booked.expire (h : a.Booked accepted started) {time : Nat}
    (window : a.phase = .settling time) :
    a.expire.1.Booked accepted (started ++ a.started?.toList) := by
  have waits : a.Waits := ⟨by simp [window], by simp [window]⟩
  have starts : a.expire.1 = { a with phase := .compiling a.desired } := by
    simp [Actor.expire, h.behind time window]
  rw [h.started?_eq window, starts, Option.toList_some]
  constructor
  case known =>
    intro t ht
    rcases List.mem_append.1 ht with ht | ht
    · exact h.known t ht
    · rw [List.mem_singleton.1 ht]
      exact versionLt_self _
  case newer => exact fun hw => absurd rfl hw.2
  case behind => exact fun _ hp => nomatch hp
  case ordered =>
    refine List.pairwise_append.2 ⟨h.ordered, List.pairwise_singleton _ _, fun t ht u hu => ?_⟩
    rw [List.mem_singleton.1 hu]
    exact h.newer waits t ht
  case source => exact h.waiting waits
  case waiting => exact fun hw => absurd rfl hw.2
  case count =>
    have := h.count
    simp only [isCompiling, window, Bool.toNat_false, Nat.add_zero] at this
    simp [isCompiling, this]

/-- The end of a compilation is no start. What is wanted by then waits if it is not what the
compilation was started for. -/
theorem Booked.finish (now window : Nat) (result : Option Int) (h : a.Booked accepted started)
    {target : Option Int} (compiling : a.phase = .compiling target) :
    (a.finish now window result).1.Booked accepted started := by
  have count : started.length = (a.ended result).compilations := by
    simpa [isCompiling, compiling, ended] using h.count
  obtain ⟨-, he⟩ | ⟨behind, he⟩ := finish_cases a now window result
  · rw [he]
    constructor
    case known => exact h.known
    case newer => exact fun hw => absurd rfl hw.1
    case behind =>
      intro time hp
      cases hp
    case ordered => exact h.ordered
    case source => exact h.source
    case waiting => exact fun hw => absurd rfl hw.1
    case count => exact count
  · -- another window opens only if something else is wanted than at the start
    have other : a.phase ≠ .compiling a.desired := by
      intro wanted
      rw [finish_of_wanted wanted] at he
      cases congrArg (·.1.phase) he
    have waits : a.Waits := ⟨by simp [compiling], other⟩
    rw [he]
    constructor
    case known => exact h.known
    case newer => exact fun _ => h.newer waits
    case behind => exact fun _ _ => behind
    case ordered => exact h.ordered
    case source => exact h.source
    case waiting => exact fun _ => h.waiting waits
    case count => exact count

end Actor

/-! ### All events -/

namespace Desk

variable {window : Nat} {d d' : Desk ω} {e : Event ω}

/-- Nothing that an actor shows goes back. -/
theorem ahead_step (hstep : d.step? window e = some d') : d'.actor.Ahead d.actor := by
  obtain ⟨order, rfl, -, rfl⟩ | ⟨order, rfl, -, rfl⟩ | ⟨now, queue, rfl, live, -, rfl⟩ |
    ⟨now, v, w, queue, rfl, live, -, rfl⟩ | ⟨rfl, -, rfl⟩ |
    ⟨now, result, target, rfl, -, -, rfl⟩ := step?_cases hstep
  · exact .refl _
  · exact .refl _
  · exact Actor.ahead_receive live
  · exact Actor.ahead_receive live
  · exact Actor.ahead_expire _
  · exact Actor.ahead_finish _

/-- Only a window ends. -/
theorem eq_act_of_expire (hstep : d.step? window .expire = some d') :
    d' = d.act d.actor.expire ∧ ∃ time, d.actor.phase = .settling time := by
  cases phase : d.actor.phase with
  | settling time =>
    simp only [step?, phase, Option.ite_none_left_eq_some, Option.some.injEq] at hstep
    exact ⟨hstep.2.symm, time, rfl⟩
  | idle => simp [step?, phase] at hstep
  | compiling target => simp [step?, phase] at hstep

end Desk

namespace Ledger

variable {window : Nat} {l l' : Ledger ω} {e : Desk.Event ω} {es : List (Desk.Event ω)}

theorem step?_eq_some (hstep : l.step? window e = some l') :
    l.desk.step? window e = some l'.desk ∧
      l'.accepted = l.accepted ++ (l.desk.accepted? e).toList ∧
      l'.started = l.started ++ (l.desk.started? e).toList := by
  obtain ⟨d', hd, rfl⟩ := Option.map_eq_some_iff.1 hstep
  exact ⟨hd, rfl, rfl⟩

theorem booked_step (h : l.desk.actor.Booked l.accepted l.started)
    (hstep : l.step? window e = some l') : l'.desk.actor.Booked l'.accepted l'.started := by
  obtain ⟨hd, accepted, started⟩ := step?_eq_some hstep
  rw [accepted, started]
  obtain ⟨order, rfl, -, he⟩ | ⟨order, rfl, -, he⟩ | ⟨now, queue, rfl, live, hq, he⟩ |
    ⟨now, v, w, queue, rfl, live, hq, he⟩ | ⟨rfl, -, he⟩ |
    ⟨now, result, target, rfl, -, phase, he⟩ := Desk.step?_cases hd <;> rw [he]
  · simpa [Desk.accepted?, Desk.started?] using h
  · simpa [Desk.accepted?, Desk.started?] using h
  · have := h.receive now window .stop live
    simpa [Desk.accepted?, Desk.started?, hq] using this
  · have := h.receive now window (.compile v w) live
    simpa [Desk.accepted?, Desk.started?, hq] using this
  · obtain ⟨-, time, phase⟩ := Desk.eq_act_of_expire hd
    simpa [Desk.accepted?, Desk.started?] using h.expire phase
  · simpa [Desk.accepted?, Desk.started?] using h.finish now window result phase

theorem booked_of_run (run : Run (step? window) (fun _ _ => True) {} es l) :
    l.desk.actor.Booked l.accepted l.started :=
  run.invariant (I := fun l => l.desk.actor.Booked l.accepted l.started)
    (fun _ _ _ h _ hstep => booked_step h hstep) Actor.booked_new

theorem ahead_of_run (run : Run (step? window) (fun _ _ => True) l es l') :
    l'.desk.actor.Ahead l.desk.actor :=
  run.invariant (I := fun k => k.desk.actor.Ahead l.desk.actor)
    (fun _ _ _ h _ hstep => (Desk.ahead_step (step?_eq_some hstep).1).trans h) (.refl _)

/-- **Every compilation wants more than all before it.** Let an actor get orders of any versions, in any
order and at any time, and let its compilations yield any version or none. The wanted and the compiled
version and the number of compilations never go back. What is wanted at the start of a compilation is
newer than at the start of every earlier one, and newer than what is compiled. Each compilation has an
accepted order of its own, so there are no more of them. No window ends with nothing to compile. -/
theorem every_start_wants_more (run : Run (step? window) (fun _ _ => True) {} es l) :
    (∀ fs l', Run (step? window) (fun _ _ => True) l fs l' →
      l'.desk.actor.Ahead l.desk.actor) ∧
    (∀ e l' target, l.step? window e = some l' → l.desk.started? e = some target →
      target = l.desk.actor.desired ∧ l'.desk.actor.phase = .compiling target ∧
      versionLt l.desk.actor.compiled target = true ∧
      ∀ earlier ∈ l.started, versionLt earlier target = true) ∧
    l.started.Pairwise (versionLt · · = true) ∧ l.started.Sublist (l.accepted.map some) ∧
    l.desk.actor.compilations ≤ l.started.length ∧ l.started.length ≤ l.accepted.length ∧
    ∀ time, l.desk.actor.phase = .settling time → l.desk.actor.isUpToDate = false := by
  have h := booked_of_run run
  refine ⟨fun _ _ later => ahead_of_run later, fun e l' target hstep starts => ?_, h.ordered, h.source,
    ?_, ?_, h.behind⟩
  · cases e <;> simp only [Desk.started?, reduceCtorEq] at starts
    obtain ⟨he, time, phase⟩ := Desk.eq_act_of_expire (step?_eq_some hstep).1
    have behind := h.behind time phase
    rw [h.started?_eq phase, Option.some.injEq] at starts
    subst starts
    refine ⟨rfl, ?_, ?_, ?_⟩
    · rw [he]
      simp [Actor.expire, behind]
    · simpa [Actor.isUpToDate] using behind
    · exact h.newer ⟨by simp [phase], by simp [phase]⟩
  · rw [h.count]
    exact Nat.le_add_right _ _
  · simpa using h.source.length_le

/-- The case of an order that arrives during a compilation that yields nothing, and of another one that
is too old to be accepted. -/
theorem starts_after_empty_compilation :
    ∃ es l, Run (step? 150) (fun _ _ => True) ({} : Ledger Nat) es l ∧
      l.accepted = [3, 4, 7] ∧ l.started = [some 4, some 7] ∧ l.desk.actor.compiled = some 2 ∧
      l.started.Pairwise (versionLt · · = true) ∧ l.started.Sublist (l.accepted.map some) ∧
      l.started.length ≤ l.accepted.length := by
  let es : List (Desk.Event Nat) :=
    [.send (.compile 3 none), .take 0, .send (.compile 4 none), .take 10, .expire,
      .send (.compile 7 (some 0)), .take 200, .finish 210 none, .expire, .finish 400 (some 2),
      .send (.compile 5 none), .take 500]
  let l : Ledger Nat := (es.foldlM (step? 150) {}).get (by decide)
  have run : Run (step? 150) (fun _ _ => True) {} es l :=
    .of_foldlM (fun _ _ _ => trivial) (Option.some_get _).symm
  obtain ⟨-, -, ordered, source, -, le, -⟩ := every_start_wants_more run
  exact ⟨es, l, run, by decide, by decide, by decide, ordered, source, le⟩

end Ledger

end LanguageServer
