import LanguageServer.Scheduling.Timeline
import LanguageServer.Proofs.Logbook

/-!
# A timeline keeps a logbook

A timeline decides by itself what happens while time passes, and in at most four steps. Whatever is
done to it, and for however long it is left alone, it goes through a run of a logbook: no window is
passed over, and no compilation ends too late.

* `Timeline.Input`, `Timeline.handle`: what can be done to a timeline;
* `Timeline.Keeps`: a timeline and a logbook that tell the same;
* `Timeline.pending`: how many things happen by themselves at most;
* `Timeline.keeps_handled`: every timeline keeps a logbook.
-/

namespace LanguageServer

/-- The start of a compilation, or its end with what it returned. -/
def Happening.compilation? : Happening → Option (Nat × Option (Option Int))
  | .started time _ => some (time, none)
  | .ended time version => some (time, some version)
  | .waited _ _ _ _ => none

/-- What someone who waited was told, and when. -/
def Happening.told? : Happening → Option (Nat × String × Verdict)
  | .waited time name (.ok ()) _ => some (time, name, .released)
  | .waited time name (.error .closed) _ => some (time, name, .closed)
  | .waited _ _ (.error .cancelled) _ | .started _ _ | .ended _ _ => none

/-- The start of a compilation, or its end with what it returned. -/
def Mark.compilation? : Mark → Option (Nat × Option (Option Int))
  | .started time _ => some (time, none)
  | .ended time result => some (time, some result)
  | .accepted _ _ => none

namespace Actor

variable {ω : Type} {a : Actor ω} {order : Order ω} {now window : Nat}

theorem Serves.distinct {more : List ω} {r : Actor ω × List (ω × Verdict)}
    (h : a.Serves more r) (all : (a.waiters ++ more).Nodup) : (r.2.map (·.1)).Nodup :=
  (List.nodup_append.1 (h.order.symm ▸ all)).1

theorem isCompiling_iff : a.isCompiling = true ↔ ∃ target, a.phase = .compiling target := by
  unfold isCompiling
  split
  · next target phase => simp [phase]
  · next other => simpa using other

/-- Those who are told something or held after an order are those who were held before, and the
waiter of the order. -/
theorem receive_perm (a : Actor ω) (now window : Nat) (order : Order ω) :
    ((a.receive now window order).2.map (·.1) ++ (a.receive now window order).1.waiters).Perm
      (a.waiters ++ order.waiter?.toList) := by
  cases live : a.stopped with
  | false => exact .of_eq (receive_serves live).order
  | true =>
    rw [receive_of_stopped live, List.map_map]
    exact (List.perm_append_comm).trans (.of_eq (by simp [Function.comp_def]))

/-- A window is as it was before an order, or was opened by it. -/
theorem receive_settling {until_ : Nat}
    (phase : (a.receive now window order).1.phase = .settling until_)
    (live : (a.receive now window order).1.stopped = false) :
    a.phase = .settling until_ ∧ a.stopped = false ∨ until_ = now + window := by
  cases stopped : a.stopped with
  | true =>
    rw [receive_of_stopped stopped] at live
    cases stopped.symm.trans live
  | false =>
    obtain ⟨rfl, he⟩ | ⟨v, w, rfl, -, he⟩ | ⟨v, w, rfl, -, -, he⟩ | ⟨v, w, rfl, -, -, he⟩ :=
      receive_cases now window order stopped <;> rw [he] at phase live
    · cases live
    · unfold want at phase
      cases hp : a.phase <;> simp_all
    · cases phase
    · exact .inl ⟨phase, rfl⟩

/-- A request leaves a compilation as it is. -/
theorem receive_isCompiling {version : Int} {waiter : Option ω} :
    ((a.receive now window (.compile version waiter)).1.isCompiling &&
      !(a.receive now window (.compile version waiter)).1.stopped) =
      (a.isCompiling && !a.stopped) := by
  cases live : a.stopped with
  | true => rw [receive_of_stopped live, live]
  | false =>
    have same : (a.receive now window (.compile version waiter)).1.isCompiling = a.isCompiling := by
      rw [Bool.eq_iff_iff, isCompiling_iff, isCompiling_iff]
      exact exists_congr fun target => receive_compiling live
    have goes : (a.receive now window (.compile version waiter)).1.stopped = false := by
      rw [← Bool.not_eq_true, receive_stopped live]
      exact nofun
    rw [same, goes]

end Actor

namespace Timeline

/-- What can be done to a timeline. -/
inductive Input
  | edit (version : Option Int)
  | request (version : Int)
  | wait (version : Int) (name : String)
  | abandon (name : String)
  | stop
  | elapse (time : Nat)

/-- A timeline after something was done to it. -/
def handle (t : Timeline) : Input → Timeline
  | .edit version => { t with version }
  | .request version => t.request version
  | .wait version name => t.wait version name
  | .abandon name => t.abandon name
  | .stop => t.stop
  | .elapse time => t.elapse time

variable {window time : Nat} {t t' : Timeline} {l l' : Logbook Nat}

/-! ### Waits that end -/

theorem endWait_of_mem {waiter : Nat} (waits : waiter ∈ t.waiting) (result : Except WaitError Unit) :
    t.endWait waiter result =
      { t with
        waiting := t.waiting.filter (· != waiter)
        happenings := t.happenings ++
          [.waited t.now (t.names.getD waiter "") result t.actor.compiled] } := by
  simp [endWait, waits, record]

theorem endWait_of_not_mem {waiter : Nat} (waits : waiter ∉ t.waiting)
    (result : Except WaitError Unit) : t.endWait waiter result = t := by
  simp [endWait, waits]

/-- What can be seen of verdicts: nobody is told twice, and those who no longer wait are told
nothing. -/
theorem foldl_endWait {verdicts : List (Nat × Verdict)} (distinct : (verdicts.map (·.1)).Nodup)
    (t : Timeline) :
    verdicts.foldl (fun t p => t.endWait p.1 p.2.toExcept) t =
      { t with
        waiting := t.waiting.filter (· ∉ verdicts.map (·.1))
        happenings := t.happenings ++ (verdicts.filter (·.1 ∈ t.waiting)).map fun p =>
          .waited t.now (t.names.getD p.1 "") p.2.toExcept t.actor.compiled } := by
  induction verdicts generalizing t with
  | nil => simp
  | cons p verdicts ih =>
    obtain ⟨fresh, distinct⟩ := List.nodup_cons.1 distinct
    rw [List.foldl_cons, ih distinct]
    by_cases waits : p.1 ∈ t.waiting
    · -- the waiter is gone for the verdicts that follow, which are for others
      have others : verdicts.filter (·.1 ∈ t.waiting.filter (· != p.1)) =
          verdicts.filter (·.1 ∈ t.waiting) := by
        refine List.filter_congr fun q hq => ?_
        have other : q.1 ≠ p.1 := fun he => fresh (List.mem_map.2 ⟨q, hq, he⟩)
        simp [other]
      have left : (t.waiting.filter (· != p.1)).filter (· ∉ verdicts.map (·.1)) =
          t.waiting.filter (· ∉ p.1 :: verdicts.map (·.1)) := by
        rw [List.filter_filter]
        refine List.filter_congr fun w _ => ?_
        simp [bne, Bool.and_comm]
      rw [endWait_of_mem waits, List.filter_cons_of_pos (by simpa using waits), List.map_cons,
        List.map_cons]
      simp only [others, left, List.append_assoc, List.singleton_append]
    · have left : t.waiting.filter (· ∉ p.1 :: verdicts.map (·.1)) =
          t.waiting.filter (· ∉ verdicts.map (·.1)) := by
        refine List.filter_congr fun w hw => ?_
        have other : w ≠ p.1 := fun he => waits (he ▸ hw)
        simp [other]
      rw [endWait_of_not_mem waits, List.map_cons, left,
        List.filter_cons_of_neg (by simpa using waits)]

/-- A timeline after a step of its actor in which nobody is told twice. -/
theorem act_eq {step : Actor Nat → Actor Nat × List (Nat × Verdict)}
    (distinct : ((step t.actor).2.map (·.1)).Nodup) :
    t.act step =
      { t with
        actor := (step t.actor).1
        waiting := t.waiting.filter (· ∉ (step t.actor).2.map (·.1))
        happenings := t.happenings ++ ((step t.actor).2.filter (·.1 ∈ t.waiting)).map fun p =>
          .waited t.now (t.names.getD p.1 "") p.2.toExcept (step t.actor).1.compiled } :=
  foldl_endWait distinct { t with actor := (step t.actor).1 }

theorem foldl_endWait_frame (verdicts : List (Nat × Verdict)) (t : Timeline) :
    (verdicts.foldl (fun t p => t.endWait p.1 p.2.toExcept) t).actor = t.actor ∧
      (verdicts.foldl (fun t p => t.endWait p.1 p.2.toExcept) t).now = t.now := by
  induction verdicts generalizing t with
  | nil => exact ⟨rfl, rfl⟩
  | cons p verdicts ih =>
    rw [List.foldl_cons, (ih _).1, (ih _).2]
    by_cases waits : p.1 ∈ t.waiting
    · rw [endWait_of_mem waits]
      exact ⟨rfl, rfl⟩
    · rw [endWait_of_not_mem waits]
      exact ⟨rfl, rfl⟩

@[simp] theorem act_actor (step : Actor Nat → Actor Nat × List (Nat × Verdict)) :
    (t.act step).actor = (step t.actor).1 :=
  (foldl_endWait_frame (step t.actor).2 { t with actor := (step t.actor).1 }).1

@[simp] theorem act_now (step : Actor Nat → Actor Nat × List (Nat × Verdict)) :
    (t.act step).now = t.now :=
  (foldl_endWait_frame (step t.actor).2 { t with actor := (step t.actor).1 }).2

theorem actor_expire : t.expire.actor = t.actor.expire.1 := by
  rw [Timeline.expire]
  split <;> exact act_actor _

theorem actor_finish (version : Option Int) :
    (t.finish version).actor = (t.actor.finish t.now t.window version).1 := act_actor _

theorem now_expire : t.expire.now = t.now := by
  rw [Timeline.expire]
  split <;> exact act_now _

theorem now_finish (version : Option Int) : (t.finish version).now = t.now := act_now _

theorem filterMap_compilation?_waited (ps : List (Nat × Verdict)) (compiled : Option Int) :
    (ps.map fun p => Happening.waited t.now (t.names.getD p.1 "") p.2.toExcept compiled).filterMap
      Happening.compilation? = [] := by
  simp [List.filterMap_map, Function.comp_def, Happening.compilation?]

theorem filterMap_told?_waited (ps : List (Nat × Verdict)) (compiled : Option Int) :
    (ps.map fun p => Happening.waited t.now (t.names.getD p.1 "") p.2.toExcept compiled).filterMap
      Happening.told? = ps.map fun p => (t.now, t.names.getD p.1 "", p.2) := by
  rw [List.filterMap_map, ← List.filterMap_eq_map]
  congr 1
  funext p
  obtain ⟨waiter, verdict⟩ := p
  cases verdict <;> rfl

/-! ### Timelines and logbooks -/

/-- Some waiters are known to a timeline, and the same ones of them wait no longer by its
logbook. -/
structure Attends (t : Timeline) (l : Logbook Nat) (held : List Nat) : Prop where
  distinct : held.Nodup
  known : ∀ w ∈ held, w < t.names.length
  waits : ∀ w ∈ held, w ∈ t.waiting ↔ w ∉ l.absent

/-- A timeline and a logbook that tell the same: the starts and ends of compilations, and what those
who waited were told. Nothing that happens by itself is overdue. -/
structure Keeps (window : Nat) (t : Timeline) (l : Logbook Nat) : Prop where
  window_eq : t.window = window
  now : l.now = t.now
  actor : l.actor = t.actor
  compilations : l.marks.filterMap Mark.compilation? =
    t.happenings.filterMap Happening.compilation?
  told : (l.waits.map fun x => (x.time, t.names.getD x.waiter "", x.verdict)) =
    t.happenings.filterMap Happening.told?
  held : t.Attends l t.actor.waiters
  absent : ∀ w ∈ l.absent, w < t.names.length
  named : ∀ x ∈ l.waits, x.waiter < t.names.length
  running : t.running.isSome = (t.actor.isCompiling && !t.actor.stopped)
  early : ∀ p ∈ t.running, t.now ≤ p.1
  open_ : ∀ until_, t.actor.phase = .settling until_ → t.actor.stopped = false → t.now ≤ until_

theorem keeps_empty (window duration : Nat) : Keeps window { window, duration } {} where
  window_eq := rfl
  now := rfl
  actor := rfl
  compilations := rfl
  told := rfl
  held := ⟨List.nodup_nil, by simp, by simp⟩
  absent := by simp
  named := by simp
  running := rfl
  early := by simp
  open_ := by simp

/-- The actor takes a step, which is recorded on both sides. -/
theorem Keeps.log (h : t.Keeps window l) {more : List Nat} {mark : Option Mark}
    {r : Actor Nat × List (Nat × Verdict)} {running : Option (Nat × Option Int)}
    {happenings : List Happening} (attends : t.Attends l (t.actor.waiters ++ more))
    (serves : (r.2.map (·.1) ++ r.1.waiters).Perm (t.actor.waiters ++ more))
    (compilations : happenings.filterMap Happening.compilation? =
      t.happenings.filterMap Happening.compilation? ++ (mark.bind Mark.compilation?).toList)
    (told : happenings.filterMap Happening.told? = t.happenings.filterMap Happening.told? ++
      (r.2.filter (·.1 ∈ t.waiting)).map fun p => (t.now, t.names.getD p.1 "", p.2))
    (busy : running.isSome = (r.1.isCompiling && !r.1.stopped)) (early : ∀ p ∈ running, t.now ≤ p.1)
    (open_ : ∀ until_, r.1.phase = .settling until_ → r.1.stopped = false → t.now ≤ until_) :
    Keeps window
      { t with
        actor := r.1
        waiting := t.waiting.filter (· ∉ r.2.map (·.1))
        running
        happenings }
      (l.log mark r) := by
  have distinct := List.nodup_append.1 (serves.nodup_iff.2 attends.distinct)
  have all : ∀ w, w ∈ r.2.map (·.1) ∨ w ∈ r.1.waiters → w ∈ t.actor.waiters ++ more := fun w hw =>
    serves.mem_iff.1 (List.mem_append.2 hw)
  have listens : ∀ p ∈ r.2, p.1 ∈ t.waiting ↔ p.1 ∉ l.absent := fun p hp =>
    attends.waits p.1 (all p.1 (.inl (List.mem_map_of_mem hp)))
  constructor
  case window_eq => exact h.window_eq
  case now => exact h.now
  case actor => rfl
  case compilations =>
    rw [compilations, ← h.compilations, Logbook.log, List.filterMap_append]
    cases mark with
    | none => rfl
    | some m => cases hm : m.compilation? <;> simp [hm]
  case told =>
    have same : r.2.filter (·.1 ∉ l.absent) = r.2.filter (·.1 ∈ t.waiting) :=
      List.filter_congr fun p hp => decide_eq_decide.2 (listens p hp).symm
    rw [told, ← h.told, Logbook.log, List.map_append, same, List.map_map, h.now]
    rfl
  case held =>
    constructor
    case distinct => exact distinct.2.1
    case known => exact fun w hw => attends.known w (all w (.inr hw))
    case waits =>
      intro w hw
      have others : w ∉ r.2.map (·.1) := fun told => distinct.2.2 w told w hw rfl
      rw [List.mem_filter, decide_eq_true others, and_iff_left rfl]
      exact attends.waits w (all w (.inr hw))
  case absent => exact h.absent
  case named =>
    intro x hx
    rcases List.mem_append.1 hx with hx | hx
    · exact h.named x hx
    · obtain ⟨p, hp, rfl⟩ := List.mem_map.1 hx
      have told := List.mem_map_of_mem (f := (·.1)) (List.mem_filter.1 hp).1
      exact attends.known p.1 (all p.1 (.inl told))
  case running => exact busy
  case early => exact early
  case open_ => exact open_

/-- An order arrives. -/
theorem Keeps.order (h : t.Keeps window l) {o : Order Nat} {running : Option (Nat × Option Int)}
    (attends : t.Attends l (t.actor.waiters ++ o.waiter?.toList))
    (busy : running.isSome = ((t.actor.receive t.now window o).1.isCompiling &&
      !(t.actor.receive t.now window o).1.stopped))
    (early : ∀ p ∈ running, t.now ≤ p.1) :
    ∃ l', l.step? window (.order o) = some l' ∧ ({ t with running }.order o).Keeps window l' := by
  obtain rfl := h.window_eq
  have serves := Actor.receive_perm t.actor t.now t.window o
  have distinct := (List.nodup_append.1 (serves.nodup_iff.2 attends.distinct)).1
  refine ⟨_, rfl, ?_⟩
  rw [h.now, h.actor]
  show Keeps t.window ({ t with running }.act (Actor.receive t.now t.window o)) _
  rw [act_eq (t := { t with running }) distinct]
  apply h.log attends serves
  case compilations =>
    rw [List.filterMap_append, filterMap_compilation?_waited]
    cases Actor.accepted? t.actor o <;> cases t.actor.stopped <;> rfl
  case told => rw [List.filterMap_append, filterMap_told?_waited]
  case busy => exact busy
  case early => exact early
  case open_ =>
    intro until_ phase live
    rcases Actor.receive_settling phase live with ⟨settling, live⟩ | rfl
    · exact h.open_ until_ settling live
    · exact Nat.le_add_right _ _

/-- The document of a timeline gets another version. -/
theorem Keeps.edit (h : t.Keeps window l) (version : Option Int) :
    { t with version }.Keeps window l :=
  ⟨h.window_eq, h.now, h.actor, h.compilations, h.told,
    ⟨h.held.distinct, h.held.known, h.held.waits⟩, h.absent, h.named, h.running, h.early, h.open_⟩

theorem Keeps.request (h : t.Keeps window l) (version : Int) :
    ∃ l', l.step? window (.order (.compile version none)) = some l' ∧
      (t.request version).Keeps window l' :=
  h.order (by simpa using h.held) (h.running.trans Actor.receive_isCompiling.symm) h.early

/-- A waiter comes who was not known before. -/
theorem Keeps.join (h : t.Keeps window l) (name : String) :
    Keeps window { t with names := t.names ++ [name], waiting := t.waiting ++ [t.names.length] } l ∧
      Attends { t with names := t.names ++ [name], waiting := t.waiting ++ [t.names.length] } l
        (t.actor.waiters ++ [t.names.length]) := by
  have listens : ∀ w ∈ t.actor.waiters, w ∈ t.waiting ++ [t.names.length] ↔ w ∉ l.absent := by
    intro w hw
    have other : w ≠ t.names.length := Nat.ne_of_lt (h.held.known w hw)
    simpa [other] using h.held.waits w hw
  have known : ∀ w, w < t.names.length → w < (t.names ++ [name]).length := fun w hw => by
    simpa using Nat.lt_succ_of_lt hw
  constructor
  · constructor
    case window_eq => exact h.window_eq
    case now => exact h.now
    case actor => exact h.actor
    case compilations => exact h.compilations
    case told =>
      rw [← h.told]
      refine List.map_congr_left fun x hx => ?_
      simp [List.getD_eq_getElem?_getD, List.getElem?_append_left (h.named x hx)]
    case held => exact ⟨h.held.distinct, fun w hw => known w (h.held.known w hw), listens⟩
    case absent => exact fun w hw => known w (h.absent w hw)
    case named => exact fun x hx => known _ (h.named x hx)
    case running => exact h.running
    case early => exact h.early
    case open_ => exact h.open_
  · constructor
    case distinct =>
      refine List.nodup_append.2 ⟨h.held.distinct, List.nodup_singleton _, fun w hw v hv => ?_⟩
      rw [List.mem_singleton.1 hv]
      exact Nat.ne_of_lt (h.held.known w hw)
    case known =>
      intro w hw
      rcases List.mem_append.1 hw with hw | hw
      · exact known w (h.held.known w hw)
      · simp [List.mem_singleton.1 hw]
    case waits =>
      intro w hw
      rcases List.mem_append.1 hw with hw | hw
      · exact listens w hw
      · rw [List.mem_singleton.1 hw]
        have present : t.names.length ∉ l.absent := fun gone =>
          Nat.lt_irrefl _ (h.absent _ gone)
        simp [present]

theorem Keeps.wait (h : t.Keeps window l) (version : Int) (name : String) :
    ∃ l', l.step? window (.order (.compile version (some t.names.length))) = some l' ∧
      (t.wait version name).Keeps window l' :=
  (h.join name).1.order (h.join name).2 (h.running.trans Actor.receive_isCompiling.symm) h.early

theorem waiter?_lt {name : String} {w : Nat} (found : t.waiter? name = some w) :
    w < t.names.length := by
  obtain ⟨p, hp, rfl⟩ := Option.map_eq_some_iff.1 found
  have mem := List.mem_reverse.1 (List.mem_of_find?_eq_some hp)
  simpa using List.snd_lt_of_mem_zipIdx mem

/-- Someone waits no longer. -/
theorem Keeps.abandon (h : t.Keeps window l) (name : String) :
    ∃ es l', Run (Logbook.step? window) Logbook.Goes l es l' ∧ (t.abandon name).Keeps window l' := by
  unfold Timeline.abandon
  split
  · exact ⟨[], l, .nil l, h⟩
  · next w found =>
    by_cases waits : w ∈ t.waiting
    · refine ⟨[.leave w], _, .single (by simp [Logbook.Goes]) rfl, ?_⟩
      rw [endWait_of_mem waits]
      constructor
      case window_eq => exact h.window_eq
      case now => exact h.now
      case actor => exact h.actor
      case compilations => simp [h.compilations, Happening.compilation?]
      case told =>
        rw [List.filterMap_append, ← h.told]
        exact (List.append_nil _).symm
      case held =>
        refine ⟨h.held.distinct, h.held.known, fun v hv => ?_⟩
        simp [h.held.waits v hv, and_comm]
      case absent =>
        intro v hv
        rcases List.mem_cons.1 hv with rfl | hv
        · exact waiter?_lt found
        · exact h.absent v hv
      case named => exact h.named
      case running => exact h.running
      case early => exact h.early
      case open_ => exact h.open_
    · rw [endWait_of_not_mem waits]
      exact ⟨[], l, .nil l, h⟩

theorem Keeps.stop (h : t.Keeps window l) :
    ∃ l', l.step? window (.order .stop) = some l' ∧ t.stop.Keeps window l' := by
  refine h.order (by simpa using h.held) ?_ (by simp)
  cases live : t.actor.stopped with
  | true => simp [Actor.receive_of_stopped live, live]
  | false => simp [(Actor.receive_stopped live).2 rfl]

/-! ### Time passes -/

/-- Time passes up to a moment at which nothing is overdue. -/
theorem Keeps.pass (h : t.Keeps window l) {until_ : Nat} (later : t.now ≤ until_)
    (early : ∀ p ∈ t.running, until_ ≤ p.1)
    (open_ : ∀ u, t.actor.phase = .settling u → t.actor.stopped = false → until_ ≤ u) :
    ∃ l', l.step? window (.pass (until_ - t.now)) = some l' ∧
      { t with now := until_ }.Keeps window l' := by
  have moment : l.now + (until_ - t.now) = until_ := by
    have := h.now
    omega
  have within : l.mayPass (until_ - t.now) = true := by
    rw [Logbook.mayPass, moment, Option.all_eq_true]
    intro u deadline
    obtain ⟨phase, live⟩ := Logbook.deadline?_eq_some deadline
    rw [h.actor] at phase live
    exact decide_eq_true (open_ u phase live)
  exact ⟨_, if_pos within, h.window_eq, moment, h.actor, h.compilations, h.told,
    ⟨h.held.distinct, h.held.known, h.held.waits⟩, h.absent, h.named, h.running, early, open_⟩

/-- Only those who are held already are told something when something happens by itself. -/
theorem Keeps.alone (h : t.Keeps window l) : t.Attends l (t.actor.waiters ++ []) := by
  simpa using h.held

/-- A window ends. -/
theorem Keeps.expire (h : t.Keeps window l) (phase : t.actor.phase = .settling t.now)
    (live : t.actor.stopped = false) :
    ∃ l', l.step? window .expire = some l' ∧ t.expire.Keeps window l' := by
  have deadline : l.deadline? = some l.now := by
    simp [Logbook.deadline?, h.actor, phase, live, h.now]
  have none : t.running = none := by
    have := h.running
    simpa [Actor.isCompiling, phase] using this
  have serves := Actor.expire_serves t.actor
  have acts := act_eq (serves.distinct h.alone.distinct)
  refine ⟨_, if_pos deadline, ?_⟩
  rw [h.now, h.actor, Timeline.expire, acts]
  obtain ⟨done, he⟩ | ⟨behind, he⟩ := Actor.expire_cases t.actor
  · have rests : t.actor.started? = Option.none := by rw [Actor.started?, he]; rfl
    have idle : t.actor.expire.1.phase = .idle := by rw [he]; rfl
    simp only [idle, rests]
    apply h.log h.alone (.of_eq serves.order)
    case compilations => rw [List.filterMap_append, filterMap_compilation?_waited]; rfl
    case told => rw [List.filterMap_append, filterMap_told?_waited]
    case busy => simp [none, Actor.isCompiling, idle]
    case early => exact h.early
    case open_ => exact fun u settling => by cases idle.symm.trans settling
  · have starts : t.actor.started? = some t.actor.desired := by rw [Actor.started?, he]
    have compiling : t.actor.expire.1.phase = .compiling t.actor.desired := by rw [he]
    simp only [compiling, starts]
    apply h.log h.alone (.of_eq serves.order)
    case compilations =>
      rw [List.filterMap_append, List.filterMap_append, filterMap_compilation?_waited,
        List.append_nil]
      rfl
    case told =>
      rw [List.filterMap_append, List.filterMap_append, filterMap_told?_waited]
      exact List.append_nil _
    case busy => simp [Actor.isCompiling, compiling, live]
    case early => simp
    case open_ => exact fun u settling => by cases compiling.symm.trans settling

/-- A compilation ends. -/
theorem Keeps.finish (h : t.Keeps window l) {version : Option Int}
    (running : t.running = some (t.now, version)) :
    ∃ l', l.step? window (.finish version) = some l' ∧ (t.finish version).Keeps window l' := by
  have busy : (l.actor.isCompiling && !l.actor.stopped) = true := by
    rw [h.actor, ← h.running, running]
    rfl
  obtain rfl := h.window_eq
  have serves := Actor.finish_serves t.now t.window version t.actor
  let t₁ := { t with running := none }.record (.ended t.now version)
  have distinct : ((Actor.finish t.now t.window version t₁.actor).2.map (·.1)).Nodup :=
    serves.distinct h.alone.distinct
  refine ⟨_, if_pos busy, ?_⟩
  rw [h.now, h.actor]
  show Keeps t.window (t₁.act (Actor.finish t.now t.window version)) _
  rw [act_eq distinct]
  apply h.log h.alone (.of_eq serves.order)
  case compilations =>
    rw [List.filterMap_append, filterMap_compilation?_waited, List.append_nil]
    exact List.filterMap_append
  case told =>
    rw [List.filterMap_append, filterMap_told?_waited]
    refine congrArg (· ++ _) ?_
    exact List.filterMap_append.trans (List.append_nil _)
  case busy =>
    cases compiling : (t.actor.finish t.now t.window version).1.isCompiling with
    | false => rfl
    | true =>
      obtain ⟨target, phase⟩ := Actor.isCompiling_iff.1 compiling
      exact absurd phase (Actor.finish_not_compiling _ _)
  case early => simp [t₁, record]
  case open_ =>
    intro until_ phase live
    obtain ⟨-, he⟩ | ⟨-, he⟩ := Actor.finish_cases t.actor t.now t.window version
    · rw [he] at phase
      cases phase
    · rw [he] at phase
      cases phase
      exact Nat.le_add_right _ _

/-- What happens next by itself: a compilation ends, or a window. -/
theorem next?_cases {step : Timeline → Timeline} (next : t.next? = some (time, step)) :
    (∃ version, t.running = some (time, version) ∧ step = (finish · version)) ∨
      t.running = none ∧ t.actor.phase = .settling time ∧ t.actor.stopped = false ∧
        step = expire := by
  unfold next? at next
  split at next
  · cases next
  · next live =>
    split at next <;> cases next
    · next version running => exact .inl ⟨version, running, rfl⟩
    · next running phase => exact .inr ⟨running, phase, by simpa using live, rfl⟩

theorem Keeps.of_next?_eq_none (h : t.Keeps window l) (next : t.next? = none) :
    t.running = none ∧ ∀ u, t.actor.phase = .settling u → t.actor.stopped = true := by
  have busy := h.running
  unfold next? at next
  split at next
  · next stopped => exact ⟨by simpa [stopped] using busy, fun _ _ => stopped⟩
  · split at next
    · cases next
    · cases next
    · next running idle => exact ⟨running, fun u phase => by cases idle.symm.trans phase⟩
    · next running compiling => exact ⟨running, fun u phase => by cases compiling.symm.trans phase⟩

theorem Keeps.not_settling (h : t.Keeps window l) {p : Nat × Option Int}
    (running : t.running = some p) (u : Nat) : t.actor.phase ≠ .settling u := by
  have busy := h.running
  intro phase
  simp [running, Actor.isCompiling, phase] at busy

theorem Keeps.le_of_next? (h : t.Keeps window l) {step : Timeline → Timeline}
    (next : t.next? = some (time, step)) : t.now ≤ time := by
  rcases next?_cases next with ⟨version, running, -⟩ | ⟨-, phase, live, -⟩
  · exact h.early _ running
  · exact h.open_ time phase live

/-- Time passes until something happens by itself, or less. -/
theorem Keeps.passTo (h : t.Keeps window l) {step : Timeline → Timeline}
    (next : t.next? = some (time, step)) {until_ : Nat} (later : t.now ≤ until_)
    (within : until_ ≤ time) :
    ∃ l', l.step? window (.pass (until_ - t.now)) = some l' ∧
      { t with now := until_ }.Keeps window l' := by
  rcases next?_cases next with ⟨version, running, -⟩ | ⟨running, phase, -⟩
  · refine h.pass later (fun p hp => ?_) fun u phase => absurd phase (h.not_settling running u)
    cases running.symm.trans hp
    exact within
  · refine h.pass later (by simp [running]) fun u settling _ => ?_
    cases phase.symm.trans settling
    exact within

/-- What happens next by itself is an event. -/
theorem Keeps.next (h : t.Keeps window l) {step : Timeline → Timeline}
    (next : t.next? = some (t.now, step)) :
    ∃ e l', Logbook.Goes l e ∧ l.step? window e = some l' ∧ (step t).Keeps window l' := by
  rcases next?_cases next with ⟨version, running, rfl⟩ | ⟨-, phase, live, rfl⟩
  · obtain ⟨l', ends, keeps⟩ := h.finish running
    exact ⟨_, l', by simp [Logbook.Goes], ends, keeps⟩
  · obtain ⟨l', ends, keeps⟩ := h.expire phase live
    exact ⟨_, l', by simp [Logbook.Goes], ends, keeps⟩

/-- How many things can still happen by themselves while no order arrives. -/
def pending (t : Timeline) : Nat :=
  match t.actor.phase with
  | .idle => 0
  | .settling _ => 2
  | .compiling target => if target = t.actor.desired then 1 else 3

theorem pending_le (t : Timeline) : t.pending ≤ 3 := by
  unfold pending
  split
  · omega
  · omega
  · split <;> omega

theorem pending_expire (phase : t.actor.phase = .settling time) : t.expire.pending < t.pending := by
  have before : t.pending = 2 := by simp [pending, phase]
  rw [before, pending, actor_expire]
  obtain ⟨-, he⟩ | ⟨-, he⟩ := Actor.expire_cases t.actor
  · simp [he, Actor.rest]
  · simp [he]

theorem pending_finish {target : Option Int} (phase : t.actor.phase = .compiling target)
    (version : Option Int) : (t.finish version).pending < t.pending := by
  rw [pending, actor_finish]
  by_cases wanted : target = t.actor.desired
  · -- a compilation of what is wanted leads to rest
    have before : t.pending = 1 := by simp [pending, phase, wanted]
    rw [Actor.finish_of_wanted (phase.trans (by rw [wanted])), before]
    simp [Actor.rest]
  · have before : t.pending = 3 := by simp [pending, phase, wanted]
    rw [before]
    obtain ⟨-, he⟩ | ⟨-, he⟩ := Actor.finish_cases t.actor t.now t.window version
    · simp [he, Actor.rest]
    · simp [he]

/-- With everything that happens by itself, fewer such things are left. -/
theorem Keeps.pending_next (h : t.Keeps window l) {step : Timeline → Timeline}
    (next : t.next? = some (time, step)) : (step t).pending < t.pending := by
  rcases next?_cases next with ⟨version, running, rfl⟩ | ⟨-, phase, -, rfl⟩
  · have busy := h.running
    rw [running, Option.isSome_some, eq_comm, Bool.and_eq_true] at busy
    obtain ⟨target, phase⟩ := Actor.isCompiling_iff.1 busy.1
    exact pending_finish phase version
  · exact pending_expire phase

theorem now_next {step : Timeline → Timeline} (next : t.next? = some (time, step)) :
    (step t).now = t.now := by
  rcases next?_cases next with ⟨version, -, rfl⟩ | ⟨-, -, -, rfl⟩
  · exact now_finish version
  · exact now_expire

/-- As time passes, a timeline goes through a run of its logbook, if as many things may happen by
themselves as can. -/
theorem Keeps.elapseTo (h : t.Keeps window l) {until_ n : Nat} (later : t.now ≤ until_)
    (enough : t.pending < n) :
    ∃ es l', Run (Logbook.step? window) Logbook.Goes l es l' ∧
      (elapseTo until_ n t).Keeps window l' := by
  induction n generalizing t l with
  | zero => omega
  | succ n ih =>
    rw [Timeline.elapseTo]
    split
    · next ended =>
      obtain ⟨none, settled⟩ := h.of_next?_eq_none ended
      obtain ⟨l', passes, keeps⟩ := h.pass later (by simp [none])
        (fun u phase live => by cases live.symm.trans (settled u phase))
      exact ⟨_, l', .single (by simp [Logbook.Goes]) passes, keeps⟩
    · next time step coming =>
      split
      · next within =>
        have due : t.now ≤ time := h.le_of_next? coming
        obtain ⟨l₁, passes, keeps₁⟩ := h.passTo coming due (Nat.le_refl time)
        have coming₁ : { t with now := time }.next? = some (time, step) := coming
        obtain ⟨e, l₂, goes, happens, keeps₂⟩ := keeps₁.next coming₁
        have fewer := keeps₁.pending_next coming₁
        have now : (step { t with now := time }).now = time := now_next coming₁
        have left : (step { t with now := time }).pending < n :=
          Nat.lt_of_lt_of_le fewer (Nat.le_of_lt_succ enough)
        obtain ⟨es, l', run, keeps⟩ := ih keeps₂ (now.symm ▸ within) left
        exact ⟨_, l', .cons (by simp [Logbook.Goes]) passes (.cons goes happens run), keeps⟩
      · next beyond =>
        obtain ⟨l', passes, keeps⟩ := h.passTo coming later (Nat.le_of_not_le beyond)
        exact ⟨_, l', .single (by simp [Logbook.Goes]) passes, keeps⟩

/-- Four things are enough for any time. -/
theorem Keeps.elapse (h : t.Keeps window l) (time : Nat) :
    ∃ es l', Run (Logbook.step? window) Logbook.Goes l es l' ∧ (t.elapse time).Keeps window l' :=
  h.elapseTo (Nat.le_add_right _ _) (Nat.lt_succ_of_le t.pending_le)

/-! ### All timelines -/

theorem Keeps.handle (h : t.Keeps window l) (i : Input) :
    ∃ es l', Run (Logbook.step? window) (fun _ e => e = .order .stop → i = .stop) l es l' ∧
      (t.handle i).Keeps window l' := by
  have goes : ∀ (m : Logbook Nat) (e : Logbook.Event Nat), m.Goes e →
      e = .order .stop → i = .stop := fun _ _ other same => absurd same other
  cases i with
  | edit version => exact ⟨[], l, .nil l, h.edit version⟩
  | request version =>
    obtain ⟨l', hstep, keeps⟩ := h.request version
    exact ⟨_, l', .single (by simp) hstep, keeps⟩
  | wait version name =>
    obtain ⟨l', hstep, keeps⟩ := h.wait version name
    exact ⟨_, l', .single (by simp) hstep, keeps⟩
  | abandon name =>
    obtain ⟨es, l', run, keeps⟩ := h.abandon name
    exact ⟨es, l', run.mono goes, keeps⟩
  | stop =>
    obtain ⟨l', hstep, keeps⟩ := h.stop
    exact ⟨_, l', .single (fun _ => rfl) hstep, keeps⟩
  | elapse time =>
    obtain ⟨es, l', run, keeps⟩ := h.elapse time
    exact ⟨es, l', run.mono goes, keeps⟩

/-- **Every timeline keeps a logbook.** Whatever is done to a timeline, it goes through a run of a
logbook with the same clock and the same actor: the same compilations start and end at the same
moments, and those who wait are told the same. The run has an order to stop only if the timeline was
stopped. -/
theorem keeps_handled (window duration : Nat) (inputs : List Input) :
    ∃ es l, Run (Logbook.step? window) (fun _ e => e = .order .stop → .stop ∈ inputs) {} es l ∧
      (inputs.foldl handle { window, duration }).Keeps window l := by
  suffices all : ∀ (t : Timeline) (l : Logbook Nat), t.Keeps window l → ∃ es l',
      Run (Logbook.step? window) (fun _ e => e = .order .stop → .stop ∈ inputs) l es l' ∧
        (inputs.foldl handle t).Keeps window l' from all _ _ (keeps_empty window duration)
  induction inputs with
  | nil => exact fun t l h => ⟨[], l, .nil l, h⟩
  | cons i inputs ih =>
    intro t l h
    obtain ⟨es, l₁, first, keeps₁⟩ := h.handle i
    obtain ⟨fs, l', rest, keeps⟩ := ih _ _ keeps₁
    refine ⟨es ++ fs, l', .trans (first.mono fun _ e he same => ?_)
      (rest.mono fun _ e he same => List.mem_cons_of_mem _ (he same)), keeps⟩
    exact he same ▸ List.mem_cons_self

/-- A timeline that is not stopped starts no compilation before a whole window has passed, since the
beginning and since the end of every compilation before. -/
theorem window_le_of_started {duration : Nat} {inputs : List Input} (goes : .stop ∉ inputs)
    {before after : List (Nat × Option (Option Int))}
    (whole : (inputs.foldl handle { window, duration }).happenings.filterMap
      Happening.compilation? = before ++ (time, none) :: after) :
    window ≤ time ∧ ∀ p ∈ before, p.2.isSome → p.1 + window ≤ time := by
  obtain ⟨es, l, run, keeps⟩ := keeps_handled window duration inputs
  have h := Logbook.punctual_of_run
    (run.mono fun _ e he (same : e = .order .stop) => goes (he same))
  rw [← keeps.compilations] at whole
  obtain ⟨marks₁, marks₂, split, rfl, rest⟩ := List.filterMap_eq_append_iff.1 whole
  obtain ⟨marks₃, m, marks₄, rfl, -, start, -⟩ := List.filterMap_eq_cons_iff.1 rest
  cases m with
  | accepted _ _ => cases start
  | ended _ _ => cases start
  | started time' target =>
    cases start
    rw [← List.append_assoc] at split
    constructor
    · obtain ⟨accepted, version, -, -, rfl⟩ := h.lawful _ _ _ split
      omega
    · intro p hp ends
      obtain ⟨n, hn, kind⟩ := List.mem_filterMap.1 hp
      cases n with
      | accepted _ _ => cases kind
      | started _ _ =>
        cases kind
        cases ends
      | ended e result =>
        cases kind
        exact h.window_le split (List.mem_append_left _ hn) rfl

/-- A request that arrives during a compilation opens a window of its own when that has ended. -/
example : ([.edit (some 1), .request 1, .elapse 120, .request 2, .elapse 200].foldl handle
    { window := 110, duration := 30 }).happenings.filterMap Happening.compilation? =
      [(110, none), (140, some (some 1)), (250, none), (280, some (some 1))] := by decide

end Timeline

end LanguageServer
