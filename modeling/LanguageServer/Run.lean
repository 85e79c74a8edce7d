/-!
# Runs

A system of states and events: `step? s e` is the state after the event `e`, if that can happen in the
state `s`.

* `Run`: events that happen one after the other, each of them allowed where it happens;
* `Run.invariant`: what every allowed event preserves holds all along a run.
-/

namespace LanguageServer

/-- A run from a state to another with the events that happened on the way, in order. -/
inductive Run {α ε : Type} (step? : α → ε → Option α) (allowed : α → ε → Prop) :
    α → List ε → α → Prop
  | nil (s : α) : Run step? allowed s [] s
  | snoc {s t u : α} {es : List ε} {e : ε} (run : Run step? allowed s es t) (ok : allowed t e)
      (last : step? t e = some u) : Run step? allowed s (es ++ [e]) u

namespace Run

variable {α ε : Type} {step? : α → ε → Option α} {allowed : α → ε → Prop}

theorem single {s t : α} {e : ε} (ok : allowed s e) (last : step? s e = some t) :
    Run step? allowed s [e] t := snoc (nil s) ok last

theorem trans {s t u : α} {es fs : List ε} (first : Run step? allowed s es t)
    (second : Run step? allowed t fs u) : Run step? allowed s (es ++ fs) u := by
  induction second with
  | nil => simpa using first
  | snoc _ ok last ih =>
    rw [← List.append_assoc]
    exact snoc ih ok last

theorem cons {s t u : α} {e : ε} {es : List ε} (ok : allowed s e) (first : step? s e = some t)
    (rest : Run step? allowed t es u) : Run step? allowed s (e :: es) u :=
  (single ok first).trans rest

/-- A run without events leads nowhere. -/
theorem eq_of_nil {s t : α} (run : Run step? allowed s [] t) : t = s := by
  generalize none : ([] : List ε) = fs at run
  cases run with
  | nil => rfl
  | snoc => simp at none

/-- A run begins with its first event. -/
theorem uncons {s t : α} {e : ε} {es : List ε} (run : Run step? allowed s (e :: es) t) :
    ∃ u, allowed s e ∧ step? s e = some u ∧ Run step? allowed u es t := by
  generalize whole : e :: es = fs at run
  induction run generalizing es with
  | nil => cases whole
  | @snoc t' v fs f before ok last ih =>
    rcases fs with _ | ⟨g, fs⟩
    · obtain ⟨rfl, rfl⟩ : e = f ∧ es = [] := by simpa using whole
      rw [before.eq_of_nil] at ok last
      exact ⟨v, ok, last, nil v⟩
    · obtain ⟨rfl, rfl⟩ : e = g ∧ es = fs ++ [f] := by simpa using whole
      obtain ⟨u, first, step, rest⟩ := ih rfl
      exact ⟨u, first, step, snoc rest ok last⟩

theorem mono {other : α → ε → Prop} (h : ∀ s e, allowed s e → other s e) {s t : α} {es : List ε}
    (run : Run step? allowed s es t) : Run step? other s es t := by
  induction run with
  | nil => exact nil _
  | snoc _ ok last ih => exact snoc ih (h _ _ ok) last

/-- What is true of every allowed event is true of all events of a run. -/
theorem forall_mem {p : ε → Prop} (ok : ∀ s e, allowed s e → p e) {s t : α} {es : List ε}
    (run : Run step? allowed s es t) : ∀ e ∈ es, p e := by
  induction run with
  | nil => exact fun _ he => nomatch he
  | snoc _ last _ ih =>
    intro e he
    rcases List.mem_append.1 he with he | he
    · exact ih e he
    · exact List.mem_singleton.1 he ▸ ok _ _ last

/-- What every allowed event preserves holds at the end of a run if it holds at its start. -/
theorem invariant {I : α → Prop}
    (preserved : ∀ s e t, I s → allowed s e → step? s e = some t → I t) {s t : α} {es : List ε}
    (run : Run step? allowed s es t) (start : I s) : I t := by
  induction run with
  | nil => exact start
  | snoc _ ok last ih => exact preserved _ _ _ ih ok last

/-- Events that can happen one after the other, and are allowed wherever they happen, make a run. -/
theorem of_foldlM {s t : α} {es : List ε} (ok : ∀ s, ∀ e ∈ es, allowed s e)
    (steps : es.foldlM step? s = some t) : Run step? allowed s es t := by
  induction es generalizing s with
  | nil =>
    cases steps
    exact nil _
  | cons e es ih =>
    simp only [List.foldlM_cons, Option.bind_eq_bind, Option.bind_eq_some_iff] at steps
    obtain ⟨u, first, steps⟩ := steps
    exact cons (ok s e List.mem_cons_self) first
      (ih (fun s f hf => ok s f (List.mem_cons_of_mem _ hf)) steps)

end Run

end LanguageServer
