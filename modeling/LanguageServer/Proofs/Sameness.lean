import LanguageServer.Ty

/-!
# Equality of types

Two types are the same if nothing is left to tell them apart once every alias is replaced by its value, at
every depth, and names that do not count are taken away.

* `Ty.bare`: the type that is left then;
* `Ty.bare_resolve`, `Ty.structIndex?_bare`: aliases on top do not matter to it, and it has the same struct;
* `Ty.sameAs_iff`, `Ty.sameness_is_equality_when_bare`: types are the same if they are equal when bare;
* `Ty.not_sameAs_pointer`: a type and the pointer to it are never the same.
-/

namespace LanguageServer

namespace Ty

mutual

/-- A type with every alias in it replaced by its value. The names of structs and of their parameters are
taken away, and the places of template parameters. -/
def bare : Ty → Ty
  | .alias _ _ value _ => value.bare
  | .builtin b => .builtin b
  | .struct index _ arguments => .struct index "" (bareArguments arguments)
  | .pointer target => .pointer target.bare
  | .array element length => .array element.bare length
  | .function result parameters => .function result.bare (bareTypes parameters)
  | .generic name _ => .generic name none

/-- `bare` on template arguments. -/
def bareArguments : List (String × Ty) → List (String × Ty)
  | [] => []
  | (_, t) :: rest => ("", t.bare) :: bareArguments rest

/-- `bare` on a list of types. -/
def bareTypes : List Ty → List Ty
  | [] => []
  | t :: rest => t.bare :: bareTypes rest

end

theorem bareArguments_eq (arguments : List (String × Ty)) :
    bareArguments arguments = (bareTypes (arguments.map (·.2))).map (("", ·)) := by
  induction arguments with
  | nil => rfl
  | cons a rest ih => simp [bareArguments, bareTypes, ih]

/-- The names of parameters do not tell template arguments apart. -/
theorem bareArguments_inj {as bs : List (String × Ty)} :
    bareArguments as = bareArguments bs ↔ bareTypes (as.map (·.2)) = bareTypes (bs.map (·.2)) := by
  rw [bareArguments_eq, bareArguments_eq]
  exact List.map_inj_right fun _ _ same => (Prod.mk.inj same).2

theorem bareTypes_eq (types : List Ty) : bareTypes types = types.map bare := by
  induction types with
  | nil => rfl
  | cons t rest ih => simp [bareTypes, ih]

/-- Lists that are equal when bare have types in the same places that are. -/
theorem exists_of_bareTypes_eq {ts us : List Ty} {i : Nat} {t : Ty} (same : bareTypes ts = bareTypes us)
    (found : ts[i]? = some t) : ∃ u, us[i]? = some u ∧ t.bare = u.bare := by
  rw [bareTypes_eq, bareTypes_eq] at same
  have there : (us.map bare)[i]? = some t.bare := by rw [← same, List.getElem?_map, found]; rfl
  rw [List.getElem?_map] at there
  obtain ⟨u, hu, same⟩ := Option.map_eq_some_iff.1 there
  exact ⟨u, hu, same.symm⟩

/-! ### Aliases on top -/

/-- What is behind aliases is no alias. -/
theorem resolve_ne_alias : ∀ (t : Ty) {index : Option Nat} {name : String} {value : Ty}
    {place : Option Location}, t.resolve ≠ .alias index name value place
  | .alias _ _ inner _ => inner.resolve_ne_alias
  | .builtin _ | .struct _ _ _ | .pointer _ | .array _ _ | .function _ _ | .generic _ _ => by
    simp [resolve]

theorem bare_resolve : ∀ t : Ty, t.resolve.bare = t.bare
  | .alias _ _ value _ => value.bare_resolve
  | .builtin _ | .struct _ _ _ | .pointer _ | .array _ _ | .function _ _ | .generic _ _ => rfl

/-- The place of the struct behind aliases. -/
def structIndex? (t : Ty) : Option Nat := t.struct?.map (·.1)

theorem structIndex?_bare (t : Ty) : t.bare.structIndex? = t.structIndex? := by
  rw [← t.bare_resolve, structIndex?, structIndex?, struct?, struct?]
  cases resolved : t.resolve with
  | «alias» => exact absurd resolved t.resolve_ne_alias
  | _ => rfl

/-! ### Sameness -/

mutual

/-- Types are the same exactly if they are equal when bare. -/
theorem sameAs_iff : ∀ a b : Ty, a.sameAs b = true ↔ a.bare = b.bare
  | .alias _ _ value _, b => value.sameAs_iff b
  | .builtin _, b => by
    -- here and below, both sides only look at what is behind the aliases of `b`
    rw [sameAs, ← b.bare_resolve]
    cases resolved : b.resolve with
    | «alias» => exact absurd resolved b.resolve_ne_alias
    | _ => simp [bare]
  | .struct i _ as, b => by
    rw [sameAs, ← b.bare_resolve]
    cases resolved : b.resolve with
    | «alias» => exact absurd resolved b.resolve_ne_alias
    | struct j _ bs => simp [bare, sameArguments_iff as bs]
    | _ => simp [bare]
  | .pointer a, b => by
    rw [sameAs, ← b.bare_resolve]
    cases resolved : b.resolve with
    | «alias» => exact absurd resolved b.resolve_ne_alias
    | pointer b => simp [bare, a.sameAs_iff b]
    | _ => simp [bare]
  | .array a _, b => by
    rw [sameAs, ← b.bare_resolve]
    cases resolved : b.resolve with
    | «alias» => exact absurd resolved b.resolve_ne_alias
    | array b _ => simp [bare, a.sameAs_iff b, and_comm]
    | _ => simp [bare]
  | .function r ps, b => by
    rw [sameAs, ← b.bare_resolve]
    cases resolved : b.resolve with
    | «alias» => exact absurd resolved b.resolve_ne_alias
    | function s qs => simp [bare, r.sameAs_iff s, sameTypes_iff ps qs]
    | _ => simp [bare]
  | .generic _ _, b => by
    rw [sameAs, ← b.bare_resolve]
    cases resolved : b.resolve with
    | «alias» => exact absurd resolved b.resolve_ne_alias
    | _ => simp [bare]

theorem sameArguments_iff : ∀ as bs : List (String × Ty),
    sameArguments as bs = true ↔ bareArguments as = bareArguments bs
  | [], [] => by simp [sameArguments]
  | [], _ :: _ | _ :: _, [] => by simp [sameArguments, bareArguments]
  | (_, a) :: as, (_, b) :: bs => by
    simp [sameArguments, bareArguments, a.sameAs_iff b, sameArguments_iff as bs]

theorem sameTypes_iff : ∀ as bs : List Ty, sameTypes as bs = true ↔ bareTypes as = bareTypes bs
  | [], [] => by simp [sameTypes]
  | [], _ :: _ | _ :: _, [] => by simp [sameTypes, bareTypes]
  | a :: as, b :: bs => by simp [sameTypes, bareTypes, a.sameAs_iff b, sameTypes_iff as bs]

end

/-- **Sameness of types.** It is an equivalence: types are the same exactly if they are equal when bare, which
is when every alias at every depth is replaced by its value and the names that do not count are gone. -/
theorem sameness_is_equality_when_bare :
    Equivalence (fun a b : Ty => a.sameAs b = true) ∧
      ∀ a b : Ty, a.sameAs b = true ↔ a.bare = b.bare := by
  refine ⟨⟨fun a => ?_, fun {a b} same => ?_, fun {a b c} same same' => ?_⟩, sameAs_iff⟩
  · exact (sameAs_iff a a).2 rfl
  · exact (sameAs_iff b a).2 ((sameAs_iff a b).1 same).symm
  · exact (sameAs_iff a c).2 (((sameAs_iff a b).1 same).trans ((sameAs_iff b c).1 same'))

/-- A chain of aliases inside of arguments, and other names. -/
example :
    let number : Ty := .alias (some 1) "Number" (.alias none "Word" (.builtin .int) none) none
    (Ty.struct 0 "List" [("T", .pointer number)]).sameAs
      (.struct 0 "Liste" [("U", .pointer (.builtin .int))]) = true := by
  decide

/-- What is the same as a type is not the same as the pointer to it. -/
theorem not_sameAs_pointer {t u : Ty} (same : t.sameAs u = true) : t.sameAs (.pointer u) = false := by
  rw [Bool.eq_false_iff]
  intro pointed
  rw [sameAs_iff] at same pointed
  -- a bare type would be as large as the pointer to it
  have size := congrArg sizeOf (same.symm.trans pointed)
  simp only [bare, pointer.sizeOf_spec] at size
  omega

end Ty

end LanguageServer
