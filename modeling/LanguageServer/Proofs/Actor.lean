import LanguageServer.Proofs.Version

/-!
# What an actor does

* `Actor.receive_cases`: all that can follow from an order;
* `Actor.Serves`: a step tells waiters in the order in which they came, and all of them the same;
* `Actor.Knows`: a version that was asked for, which stays known;
* `Actor.Rested`: an actor at rest has compiled what is wanted, and holds nobody.
-/

namespace LanguageServer.Actor

variable {ω : Type} {a : Actor ω} {now window : Nat} {order : Order ω} {result : Option Int}

/-! ### Small steps -/

@[simp] theorem waiter?_compile (v : Int) (w : Option ω) : (Order.compile v w).waiter? = w := rfl
@[simp] theorem waiter?_stop : (Order.stop : Order ω).waiter? = none := rfl

@[simp] theorem hold_phase (a : Actor ω) (w : Option ω) : (a.hold w).phase = a.phase := rfl
@[simp] theorem hold_desired (a : Actor ω) (w : Option ω) : (a.hold w).desired = a.desired := rfl
@[simp] theorem hold_compiled (a : Actor ω) (w : Option ω) : (a.hold w).compiled = a.compiled := rfl
@[simp] theorem hold_stopped (a : Actor ω) (w : Option ω) : (a.hold w).stopped = a.stopped := rfl
@[simp] theorem hold_waiters (a : Actor ω) (w : Option ω) :
    (a.hold w).waiters = a.waiters ++ w.toList := rfl
@[simp] theorem hold_isNews (a : Actor ω) (w : Option ω) (v : Int) :
    (a.hold w).isNews v = a.isNews v := rfl

@[simp] theorem want_desired (a : Actor ω) (v : Int) :
    (a.want now window v).desired = some v := rfl
@[simp] theorem want_compiled (a : Actor ω) (v : Int) :
    (a.want now window v).compiled = a.compiled := rfl
@[simp] theorem want_stopped (a : Actor ω) (v : Int) :
    (a.want now window v).stopped = a.stopped := rfl
@[simp] theorem want_waiters (a : Actor ω) (v : Int) :
    (a.want now window v).waiters = a.waiters := rfl

theorem want_phase_ne_idle (a : Actor ω) (v : Int) : (a.want now window v).phase ≠ .idle := by
  unfold want
  cases a.phase <;> simp

/-- All that can follow from an order to an actor that has not stopped. -/
theorem receive_cases (now window : Nat) (order : Order ω) (h : a.stopped = false) :
    (order = .stop ∧ a.receive now window order = a.halt) ∨
    (∃ v w, order = .compile v w ∧ a.isNews v = true ∧
      a.receive now window order = ((a.hold w).want now window v, [])) ∨
    (∃ v w, order = .compile v w ∧ a.isNews v = false ∧ a.phase = .idle ∧
      a.receive now window order = (a.hold w).rest) ∨
    (∃ v w, order = .compile v w ∧ a.isNews v = false ∧ a.phase ≠ .idle ∧
      a.receive now window order = (a.hold w, [])) := by
  cases order with
  | stop => exact Or.inl ⟨rfl, by simp [receive, h]⟩
  | compile v w =>
    refine Or.inr ?_
    by_cases hn : a.isNews v = true
    · exact Or.inl ⟨v, w, rfl, hn, by simp [receive, h, hn]⟩
    · have hn : a.isNews v = false := by simpa using hn
      refine Or.inr ?_
      by_cases hp : a.phase = .idle
      · exact Or.inl ⟨v, w, rfl, hn, hp, by simp [receive, h, hn, hp]⟩
      · exact Or.inr ⟨v, w, rfl, hn, hp, by simp [receive, h, hn, hp]⟩

/-- All that can follow from the end of a window. -/
theorem expire_cases (a : Actor ω) :
    (a.isUpToDate = true ∧ a.expire = a.rest) ∨
    (a.isUpToDate = false ∧ a.expire = ({ a with phase := .compiling a.desired }, [])) := by
  unfold expire
  cases a.isUpToDate <;> simp

/-- The actor after its compilation ended, before it decides what to do next. -/
def ended (a : Actor ω) (result : Option Int) : Actor ω :=
  { a with compiled := laterVersion a.compiled result, compilations := a.compilations + 1 }

/-- A compilation of what is still wanted leads to rest. -/
theorem finish_of_wanted (h : a.phase = .compiling a.desired) :
    a.finish now window result = (a.ended result).rest := by
  simp [finish, ended, h]

/-- All that can follow from the end of a compilation. -/
theorem finish_cases (a : Actor ω) (now window : Nat) (result : Option Int) :
    ((a.phase = .compiling a.desired ∨ (a.ended result).isUpToDate = true) ∧
      a.finish now window result = (a.ended result).rest) ∨
    ((a.ended result).isUpToDate = false ∧
      a.finish now window result =
        ({ a.ended result with phase := .settling (now + window) }, [])) := by
  by_cases hp : a.phase = .compiling a.desired
  · exact Or.inl ⟨Or.inl hp, finish_of_wanted hp⟩
  · cases hu : (a.ended result).isUpToDate with
    | true =>
      refine Or.inl ⟨Or.inr rfl, ?_⟩
      simp only [ended] at hu
      simp [finish, ended, hu]
    | false =>
      refine Or.inr ⟨rfl, ?_⟩
      simp only [ended] at hu
      simp [finish, ended, hp, hu]

/-! ### Waiters -/

/-- A step that leads to `r` while the waiters `more` arrive: those who are told and those who are
held afterwards are all who were held before, in order, and all who are told are released if the actor
is at rest now, or learn that it stopped. -/
structure Serves (a : Actor ω) (more : List ω) (r : Actor ω × List (ω × Verdict)) : Prop where
  order : r.2.map (·.1) ++ r.1.waiters = a.waiters ++ more
  verdict : ∀ p ∈ r.2, (p.2 = .released ∧ r.1.phase = .idle ∧ r.1.stopped = a.stopped) ∨
    (p.2 = .closed ∧ r.1.stopped = true)

/-- What is true of those who were held and of those who arrive is true of those who are told and of
those who are held afterwards. -/
theorem Serves.forall_waiters {more : List ω} {r : Actor ω × List (ω × Verdict)}
    (h : a.Serves more r) {P : ω → Prop} (all : ∀ w ∈ a.waiters ++ more, P w) :
    (∀ p ∈ r.2, P p.1) ∧ ∀ w ∈ r.1.waiters, P w := by
  rw [← h.order] at all
  exact ⟨fun p hp => all p.1 (List.mem_append_left _ (List.mem_map_of_mem hp)),
    fun w hw => all w (List.mem_append_right _ hw)⟩

/-- Those who were held and those who arrive are told something, or are held afterwards. -/
theorem Serves.told_or_held {more : List ω} {r : Actor ω × List (ω × Verdict)}
    (h : a.Serves more r) : ∀ w ∈ a.waiters ++ more, (∃ p ∈ r.2, p.1 = w) ∨ w ∈ r.1.waiters := by
  intro w hw
  rw [← h.order] at hw
  exact (List.mem_append.1 hw).imp_left List.mem_map.1

theorem rest_serves (a : Actor ω) : a.Serves [] a.rest where
  order := by simp [rest, Function.comp_def]
  verdict := by simp [rest]

theorem halt_serves (a : Actor ω) : a.Serves [] a.halt where
  order := by simp [halt, Function.comp_def]
  verdict := by simp [halt]

theorem receive_serves (h : a.stopped = false) :
    a.Serves order.waiter?.toList (a.receive now window order) := by
  obtain ⟨rfl, he⟩ | ⟨v, w, rfl, -, he⟩ | ⟨v, w, rfl, -, hp, he⟩ | ⟨v, w, rfl, -, -, he⟩ :=
    receive_cases now window order h
  · rw [he]; exact halt_serves a
  · rw [he]; exact ⟨by simp [Order.waiter?], by simp⟩
  · rw [he]
    have hs := rest_serves (a.hold w)
    exact ⟨by simpa [Order.waiter?] using hs.order, hs.verdict⟩
  · rw [he]; exact ⟨by simp [Order.waiter?], by simp⟩

theorem start_serves (a : Actor ω) :
    a.Serves [] ({ a with phase := .compiling a.desired }, []) := ⟨by simp, by simp⟩

theorem expire_serves (a : Actor ω) : a.Serves [] a.expire := by
  obtain ⟨-, he⟩ | ⟨-, he⟩ := expire_cases a <;> rw [he]
  · exact rest_serves a
  · exact start_serves a

theorem finish_serves (now window : Nat) (result : Option Int) (a : Actor ω) :
    a.Serves [] (a.finish now window result) := by
  obtain ⟨-, he⟩ | ⟨-, he⟩ := finish_cases a now window result
  · rw [he]
    have hs := rest_serves (a.ended result)
    exact ⟨hs.order, hs.verdict⟩
  · rw [he]; exact ⟨by simp [ended], by simp⟩

/-! ### Compilations -/

/-- No order starts or ends a compilation. -/
theorem receive_compiling (h : a.stopped = false) {target : Option Int} :
    (a.receive now window order).1.phase = .compiling target ↔ a.phase = .compiling target := by
  obtain ⟨rfl, he⟩ | ⟨v, w, rfl, -, he⟩ | ⟨v, w, rfl, -, hp, he⟩ | ⟨v, w, rfl, -, -, he⟩ :=
    receive_cases now window order h <;> rw [he]
  · rfl
  · cases hp : a.phase <;> simp [want, hp]
  · simp [rest, hp]
  · rfl

/-- No compilation is under way after one ended. -/
theorem finish_not_compiling (a : Actor ω) (target : Option Int) :
    (a.finish now window result).1.phase ≠ .compiling target := by
  obtain ⟨-, he⟩ | ⟨-, he⟩ := finish_cases a now window result <;> rw [he] <;> simp [rest]

/-! ### Versions -/

/-- A version that was asked for: it is wanted or compiled, or a newer one is. -/
def Knows (a : Actor ω) (v : Int) : Prop := HasReached (laterVersion a.desired a.compiled) v

theorem knows_iff {v : Int} : a.Knows v ↔ a.isNews v = false := hasReached_iff

/-- An actor whose wanted and compiled versions are no older knows no less. -/
theorem Knows.mono {b : Actor ω} {v : Int} (h : a.Knows v)
    (desired : versionLt b.desired a.desired = false)
    (compiled : versionLt b.compiled a.compiled = false) : b.Knows v := by
  rcases laterVersion_eq a.desired a.compiled with he | he
  · exact (HasReached.of_le (he ▸ h) desired).later_left _
  · exact (HasReached.of_le (he ▸ h) compiled).later_right _

theorem receive_compiled (h : a.stopped = false) :
    (a.receive now window order).1.compiled = a.compiled := by
  obtain ⟨rfl, he⟩ | ⟨v, w, rfl, -, he⟩ | ⟨v, w, rfl, -, -, he⟩ | ⟨v, w, rfl, -, -, he⟩ :=
    receive_cases now window order h <;> rw [he] <;> rfl

/-- The wanted version never goes back. -/
theorem receive_desired (h : a.stopped = false) :
    versionLt (a.receive now window order).1.desired a.desired = false := by
  obtain ⟨rfl, he⟩ | ⟨v, w, rfl, hn, he⟩ | ⟨v, w, rfl, -, -, he⟩ | ⟨v, w, rfl, -, -, he⟩ :=
    receive_cases now window order h <;> rw [he]
  · exact versionLt_self _
  · exact versionLt_trans_false (versionLt_asymm hn) (laterVersion_not_lt_left _ _)
  · exact versionLt_self _
  · exact versionLt_self _

/-- The wanted version is as before, or the one that was asked for. -/
theorem receive_desired_eq (now window : Nat) (order : Order ω) (h : a.stopped = false) :
    (a.receive now window order).1.desired = a.desired ∨
      ∃ v w, order = .compile v w ∧ (a.receive now window order).1.desired = some v := by
  obtain ⟨rfl, he⟩ | ⟨v, w, rfl, -, he⟩ | ⟨v, w, rfl, -, -, he⟩ | ⟨v, w, rfl, -, -, he⟩ :=
    receive_cases now window order h <;> rw [he]
  · exact Or.inl rfl
  · exact Or.inr ⟨v, w, rfl, rfl⟩
  · exact Or.inl rfl
  · exact Or.inl rfl

/-- An order that brings no news changes neither what is wanted nor what is being done. -/
theorem receive_of_known {v : Int} (now window : Nat) (w : Option ω) (h : a.stopped = false)
    (known : a.isNews v = false) :
    (a.receive now window (.compile v w)).1.desired = a.desired ∧
      (a.receive now window (.compile v w)).1.phase = a.phase := by
  obtain ⟨ho, -⟩ | ⟨v, w, ho, news, -⟩ | ⟨v, w, ho, -, idle, he⟩ | ⟨v, w, ho, -, -, he⟩ :=
    receive_cases now window (.compile v w) h <;> cases ho
  · cases known.symm.trans news
  · rw [he]
    exact ⟨rfl, idle.symm⟩
  · rw [he]
    exact ⟨rfl, rfl⟩

@[simp] theorem expire_compiled (a : Actor ω) : a.expire.1.compiled = a.compiled := by
  obtain ⟨-, he⟩ | ⟨-, he⟩ := expire_cases a <;> rw [he] <;> rfl

@[simp] theorem expire_desired (a : Actor ω) : a.expire.1.desired = a.desired := by
  obtain ⟨-, he⟩ | ⟨-, he⟩ := expire_cases a <;> rw [he] <;> rfl

@[simp] theorem expire_stopped (a : Actor ω) : a.expire.1.stopped = a.stopped := by
  obtain ⟨-, he⟩ | ⟨-, he⟩ := expire_cases a <;> rw [he] <;> rfl

@[simp] theorem finish_compiled (a : Actor ω) :
    (a.finish now window result).1.compiled = laterVersion a.compiled result := by
  obtain ⟨-, he⟩ | ⟨-, he⟩ := finish_cases a now window result <;> rw [he] <;> rfl

@[simp] theorem finish_desired (a : Actor ω) :
    (a.finish now window result).1.desired = a.desired := by
  obtain ⟨-, he⟩ | ⟨-, he⟩ := finish_cases a now window result <;> rw [he] <;> rfl

@[simp] theorem finish_stopped (a : Actor ω) :
    (a.finish now window result).1.stopped = a.stopped := by
  obtain ⟨-, he⟩ | ⟨-, he⟩ := finish_cases a now window result <;> rw [he] <;> rfl

/-- An order stops an actor only if it is the one to stop. -/
theorem receive_stopped (h : a.stopped = false) :
    (a.receive now window order).1.stopped = true ↔ order = .stop := by
  obtain ⟨rfl, he⟩ | ⟨v, w, rfl, -, he⟩ | ⟨v, w, rfl, -, -, he⟩ | ⟨v, w, rfl, -, -, he⟩ :=
    receive_cases now window order h <;> rw [he] <;>
    simp [halt, rest, h]

theorem Knows.receive {v : Int} (hk : a.Knows v) (h : a.stopped = false) :
    (a.receive now window order).1.Knows v :=
  hk.mono (receive_desired h) (by rw [receive_compiled h]; exact versionLt_self _)

theorem Knows.expire {v : Int} (hk : a.Knows v) : a.expire.1.Knows v :=
  hk.mono (by simp) (by simp)

theorem Knows.finish {v : Int} (hk : a.Knows v) : (a.finish now window result).1.Knows v :=
  hk.mono (by simp) (by rw [finish_compiled]; exact laterVersion_not_lt_left _ _)

/-- Once an order was taken its version is known. -/
theorem knows_receive {v : Int} {w : Option ω} (h : a.stopped = false) :
    (a.receive now window (.compile v w)).1.Knows v := by
  obtain ⟨ho, -⟩ | ⟨v, w, ho, -, he⟩ | ⟨v, w, ho, hn, -, he⟩ | ⟨v, w, ho, hn, -, he⟩ :=
    receive_cases now window (.compile v w) h <;> cases ho
  · rw [he]
    exact HasReached.later_left ⟨v, rfl, Int.le_refl v⟩ _
  · rw [he]
    exact knows_iff.2 hn
  · rw [he]
    exact knows_iff.2 hn

/-- An order to an actor that stopped changes nothing. -/
theorem receive_of_stopped (h : a.stopped = true) :
    a.receive now window order = (a, order.waiter?.toList.map (·, .closed)) := by
  simp [receive, h]

theorem receive_told_or_held (now window : Nat) (a : Actor ω) :
    ∀ w ∈ a.waiters ++ order.waiter?.toList,
      (∃ p ∈ (a.receive now window order).2, p.1 = w) ∨
        w ∈ (a.receive now window order).1.waiters := by
  cases h : a.stopped with
  | false => exact (receive_serves h).told_or_held
  | true =>
    rw [receive_of_stopped h]
    intro w hw
    refine (List.mem_append.1 hw).symm.imp_left fun hw => ?_
    exact ⟨(w, .closed), List.mem_map_of_mem hw, rfl⟩

/-! ### Rest -/

/-- An actor at rest has compiled what is wanted, and holds nobody. -/
def Rested (a : Actor ω) : Prop := a.phase = .idle → a.waiters = [] ∧ a.isUpToDate = true

/-- What an actor that has compiled what is wanted knows is compiled. -/
theorem Knows.compiled {v : Int} (hk : a.Knows v) (hu : a.isUpToDate = true) :
    HasReached a.compiled v :=
  HasReached.of_later hk (by simpa [isUpToDate] using hu)

theorem rested_rest (h : a.isUpToDate = true) : a.rest.1.Rested := fun _ => ⟨rfl, h⟩

theorem Rested.receive (hr : a.Rested) (h : a.stopped = false)
    (hs : (a.receive now window order).1.stopped = false) :
    (a.receive now window order).1.Rested := by
  obtain ⟨rfl, he⟩ | ⟨v, w, rfl, -, he⟩ | ⟨v, w, rfl, -, hp, he⟩ | ⟨v, w, rfl, -, hp, he⟩ :=
    receive_cases now window order h
  · simp [he, halt] at hs
  · rw [he]
    exact fun hi => absurd hi (want_phase_ne_idle _ _)
  · rw [he]
    exact rested_rest (hr hp).2
  · rw [he]
    exact fun hi => absurd hi hp

theorem Rested.expire (a : Actor ω) : a.expire.1.Rested := by
  obtain ⟨hu, he⟩ | ⟨-, he⟩ := expire_cases a <;> rw [he]
  · exact rested_rest hu
  · exact fun hi => by simp at hi

/-- A compilation that has reached what was wanted at its start leads to rest only if nothing newer is
wanted. -/
theorem Rested.finish {target : Option Int} {c : Int} (hp : a.phase = .compiling target)
    (hc : ∀ wanted, target = some wanted → wanted ≤ c) :
    (a.finish now window (some c)).1.Rested := by
  obtain ⟨hd, he⟩ | ⟨-, he⟩ := finish_cases a now window (some c) <;> rw [he]
  · apply rested_rest
    rcases hd with hd | hd
    · rw [hp, Phase.compiling.injEq] at hd
      have hw : versionLt (some c) a.desired = false := by
        rw [← hd]
        cases target with
        | none => rfl
        | some wanted => simpa [versionLt] using hc wanted rfl
      have := versionLt_trans_false (laterVersion_not_lt_right a.compiled (some c)) hw
      simpa [isUpToDate, ended] using this
    · exact hd
  · exact fun hi => by simp at hi

end LanguageServer.Actor
