import LanguageServer.Query.Lookup

/-!
# Narrowing a written type to a position

A written type and the type that it means are gone down together: from one part of the written type to the
next, and from the part of the meaning in the same place to the next, where aliases are seen through.

* `Component`, `Counterpart`: the places of parts, and the part of a meaning in the place of a written one;
* `Descends`: the way down to a position along such parts;
* `counterparts`, `narrow_eq`: `narrow` looks for the first part with a counterpart that contains the
  position, and goes on there;
* `narrow_induction`: how a written type is narrowed, step by step;
* `narrow_maximal`: the parts that are reached.
-/

namespace LanguageServer

variable {p : Position} {s s' part : TypeSyntax} {t t' meaning : Ty} {c : Component} {path : List Component}

/-! ### Parts in the same place -/

/-- The place of a part in a type. -/
inductive Component
  | argument (i : Nat)
  | target
  | element
  | result
  | parameter (i : Nat)

/-- A part of a written type, and the part of a type in the same place behind its aliases. Arguments are
paired by position. Function types have counterparts only if there are as many parameters on both sides. -/
inductive Counterpart : TypeSyntax → Ty → Component → TypeSyntax → Ty → Prop
  | argument {name : Token} {arguments : List TypeSyntax} {r : Range} {t : Ty} {index : Nat}
      {struct : String} {own : List (String × Ty)} {i : Nat} {part : TypeSyntax} {meaning : Ty} :
      t.resolve = .struct index struct own → arguments[i]? = some part →
      (own.map (·.2))[i]? = some meaning →
      Counterpart (.applied name arguments r) t (.argument i) part meaning
  | target {part : TypeSyntax} {operator : Token} {r : Range} {t meaning : Ty} :
      t.resolve = .pointer meaning → Counterpart (.pointer part operator r) t .target part meaning
  | element {part : TypeSyntax} {size : Option Expr} {brackets : Brackets} {inferred : Option Nat}
      {r : Range} {t meaning : Ty} {length : Option Nat} :
      t.resolve = .array meaning length →
      Counterpart (.array part size brackets inferred r) t .element part meaning
  | result {part : TypeSyntax} {parameters : List TypeSyntax} {brackets : Brackets} {r : Range}
      {t meaning : Ty} {types : List Ty} :
      t.resolve = .function meaning types → parameters.length = types.length →
      Counterpart (.function part parameters brackets r) t .result part meaning
  | parameter {result : TypeSyntax} {parameters : List TypeSyntax} {brackets : Brackets} {r : Range}
      {t meant : Ty} {types : List Ty} {i : Nat} {part : TypeSyntax} {meaning : Ty} :
      t.resolve = .function meant types → parameters.length = types.length →
      parameters[i]? = some part → types[i]? = some meaning →
      Counterpart (.function result parameters brackets r) t (.parameter i) part meaning

/-- The way from a written type and its meaning down to parts of them along a path, always to a part that
contains a position. -/
inductive Descends (p : Position) : List Component → TypeSyntax → Ty → TypeSyntax → Ty → Prop
  | here {s : TypeSyntax} {t : Ty} : Descends p [] s t s t
  | step {c : Component} {path : List Component} {s part s' : TypeSyntax} {t meaning t' : Ty} :
      Counterpart s t c part meaning → part.range.contains p = true →
      Descends p path part meaning s' t' → Descends p (c :: path) s t s' t'

/-- Whoever goes down arrives at a part that contains the position, or stays. -/
theorem Descends.contains (way : Descends p path s t s' t') (here : s.range.contains p = true) :
    s'.range.contains p = true := by
  induction way with
  | here => exact here
  | step _ inside _ ih => exact ih inside

/-! ### The search for a part -/

/-- The parts of a written type with their counterparts, in the order of the search: the result of a
function comes before its parameters. -/
def counterparts (s : TypeSyntax) (t : Ty) : List (TypeSyntax × Ty) :=
  match s, t.resolve with
  | .applied _ arguments _, .struct _ _ own => arguments.zip (own.map (·.2))
  | .pointer target _ _, .pointer meant => [(target, meant)]
  | .array element _ _ _ _, .array of _ => [(element, of)]
  | .function result parameters _ _, .function meant types =>
    if parameters.length = types.length then (result, meant) :: parameters.zip types else []
  | _, _ => []

theorem mem_zip_iff {α β : Type} {as : List α} {bs : List β} {a : α} {b : β} :
    (a, b) ∈ as.zip bs ↔ ∃ i : Nat, as[i]? = some a ∧ bs[i]? = some b := by
  simp only [List.mem_iff_getElem?, List.getElem?_zip_eq_some]

theorem mem_counterparts : (part, meaning) ∈ counterparts s t ↔ ∃ c, Counterpart s t c part meaning := by
  constructor
  · intro h
    unfold counterparts at h
    split at h
    case h_1 resolved =>
      obtain ⟨i, written, meant⟩ := mem_zip_iff.1 h
      exact ⟨.argument i, .argument resolved written meant⟩
    case h_2 resolved =>
      obtain ⟨rfl, rfl⟩ := Prod.mk.inj (List.mem_singleton.1 h)
      exact ⟨.target, .target resolved⟩
    case h_3 resolved =>
      obtain ⟨rfl, rfl⟩ := Prod.mk.inj (List.mem_singleton.1 h)
      exact ⟨.element, .element resolved⟩
    case h_4 resolved =>
      split at h
      case isTrue count =>
        rcases List.mem_cons.1 h with same | h
        · obtain ⟨rfl, rfl⟩ := Prod.mk.inj same
          exact ⟨.result, .result resolved count⟩
        · obtain ⟨i, written, meant⟩ := mem_zip_iff.1 h
          exact ⟨.parameter i, .parameter resolved count written meant⟩
      case isFalse => cases h
    case h_5 => cases h
  · rintro ⟨c, h⟩
    cases h with
    | argument resolved written meant =>
      simp only [counterparts, resolved]
      exact mem_zip_iff.2 ⟨_, written, meant⟩
    | target resolved | element resolved => simp only [counterparts, resolved, List.mem_singleton]
    | result resolved count => simp only [counterparts, resolved, if_pos count, List.mem_cons_self]
    | parameter resolved count written meant =>
      simp only [counterparts, resolved, if_pos count]
      exact List.mem_cons_of_mem _ (mem_zip_iff.2 ⟨_, written, meant⟩)

theorem narrowFirst_eq (p : Position) (ss : List TypeSyntax) (ts : List Ty) :
    narrowFirst p ss ts =
      ((ss.zip ts).find? (·.1.range.contains p)).map fun (s, t) => narrow p s t := by
  induction ss generalizing ts with
  | nil => simp [narrowFirst]
  | cons s ss ih =>
    cases ts with
    | nil => simp [narrowFirst]
    | cons t ts =>
      rw [narrowFirst, ih, List.zip_cons_cons, List.find?_cons]
      cases s.range.contains p <;> rfl

/-- A written type is narrowed to the first part with a counterpart that contains the position. -/
theorem narrow_eq (p : Position) (s : TypeSyntax) (t : Ty) :
    narrow p s t =
      (((counterparts s t).find? (·.1.range.contains p)).map fun (s, t) => narrow p s t).getD (s, t) := by
  cases s with
  | named _ _ | missing _ => rfl
  | applied _ _ _ =>
    cases resolved : t.resolve with
    | struct _ _ _ => simp only [narrow, counterparts, resolved, narrowFirst_eq]
    | _ => simp [narrow, counterparts, resolved]
  | pointer target _ _ =>
    cases resolved : t.resolve with
    | pointer _ =>
      simp only [narrow, counterparts, resolved, List.find?_singleton]
      cases target.range.contains p <;> rfl
    | _ => simp [narrow, counterparts, resolved]
  | array element _ _ _ _ =>
    cases resolved : t.resolve with
    | array _ _ =>
      simp only [narrow, counterparts, resolved, List.find?_singleton]
      cases element.range.contains p <;> rfl
    | _ => simp [narrow, counterparts, resolved]
  | function result parameters _ _ =>
    cases resolved : t.resolve with
    | function _ types =>
      by_cases count : parameters.length = types.length
      · simp only [narrow, counterparts, resolved, if_pos count, narrowFirst_eq, List.find?_cons]
        cases result.range.contains p <;> rfl
      · simp [narrow, counterparts, resolved, count]
    | _ => simp [narrow, counterparts, resolved]

/-! ### The part that is reached -/

theorem Counterpart.sizeOf_lt (h : Counterpart s t c part meaning) : sizeOf part < sizeOf s := by
  cases h with
  | argument _ written _ =>
    have := List.sizeOf_lt_of_mem (List.mem_of_getElem? written)
    simp only [TypeSyntax.applied.sizeOf_spec]
    omega
  | target => simp only [TypeSyntax.pointer.sizeOf_spec]; omega
  | element => simp only [TypeSyntax.array.sizeOf_spec]; omega
  | result => simp only [TypeSyntax.function.sizeOf_spec]; omega
  | parameter _ _ written _ =>
    have := List.sizeOf_lt_of_mem (List.mem_of_getElem? written)
    simp only [TypeSyntax.function.sizeOf_spec]
    omega

/-- A written type is narrowed step by step. No part with a counterpart contains the position where it stops;
where it goes on, such a part does. -/
theorem narrow_induction {motive : TypeSyntax → Ty → TypeSyntax × Ty → Prop}
    (stop : ∀ s t, (∀ c part meaning, Counterpart s t c part meaning → part.range.contains p = false) →
      motive s t (s, t))
    (step : ∀ s t c part meaning, Counterpart s t c part meaning → part.range.contains p = true →
      motive part meaning (narrow p part meaning) → motive s t (narrow p part meaning))
    (s : TypeSyntax) (t : Ty) : motive s t (narrow p s t) := by
  rw [narrow_eq]
  cases found : (counterparts s t).find? (·.1.range.contains p) with
  | none =>
    apply stop
    intro c part meaning pair
    have listed := mem_counterparts.2 ⟨c, pair⟩
    exact Bool.eq_false_iff.2 (List.find?_eq_none.1 found _ listed)
  | some known =>
    obtain ⟨part, meaning⟩ := known
    have inside := List.find?_some (p := fun pair : TypeSyntax × Ty => pair.1.range.contains p) found
    obtain ⟨c, pair⟩ := mem_counterparts.1 (List.mem_of_find?_eq_some found)
    exact step s t c part meaning pair inside (narrow_induction stop step part meaning)
termination_by sizeOf s
decreasing_by exact pair.sizeOf_lt

/-- What is reached lies on a way down. -/
theorem exists_descends (p : Position) (s : TypeSyntax) (t : Ty) :
    ∃ path, Descends p path s t (narrow p s t).1 (narrow p s t).2 := by
  apply narrow_induction (motive := fun s t reached => ∃ path, Descends p path s t reached.1 reached.2)
  · exact fun s t _ => ⟨[], .here⟩
  · rintro s t c part meaning pair inside ⟨path, way⟩
    exact ⟨c :: path, .step pair inside way⟩

/-- **How far a written type is narrowed.** What is reached is reached from the written type and from its
meaning along the same path, over parts that all contain the position. It contains the position if the
whole does, and no part of it that has a counterpart does. -/
theorem narrow_maximal (p : Position) (s : TypeSyntax) (t : Ty) :
    (∃ path, Descends p path s t (narrow p s t).1 (narrow p s t).2) ∧
    (s.range.contains p = true → (narrow p s t).1.range.contains p = true) ∧
    ∀ c part meaning, Counterpart (narrow p s t).1 (narrow p s t).2 c part meaning →
      part.range.contains p = false := by
  obtain ⟨path, way⟩ := exists_descends p s t
  refine ⟨⟨path, way⟩, way.contains, ?_⟩
  apply narrow_induction (motive := fun _ _ reached => ∀ c part meaning,
    Counterpart reached.1 reached.2 c part meaning → part.range.contains p = false)
  · exact fun s t nothing => nothing
  · exact fun s t c part meaning _ _ below => below

/-- The alias of a pointer is seen through if the pointer is written out. -/
example :
    narrow ⟨0, 2⟩ (.pointer (.named default ⟨⟨0, 0⟩, ⟨0, 3⟩⟩) default ⟨⟨0, 0⟩, ⟨0, 4⟩⟩)
        (.alias none "Link" (.pointer (.builtin .int)) none) =
      (.named default ⟨⟨0, 0⟩, ⟨0, 3⟩⟩, .builtin .int) := rfl

end LanguageServer
