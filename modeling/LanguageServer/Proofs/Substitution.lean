import LanguageServer.Feature.Completion
import LanguageServer.Proofs.Sameness
import LanguageServer.Proofs.Tables
import Mathlib.Data.List.Forall2

/-!
# Substitution

Template arguments replace template parameters all at once, by name, and the first argument of a name
counts. They do not reach into the values of aliases, while sameness of types looks through aliases. So a
type and the same type written through an alias may part when arguments are put in.

* `Ty.induct`: induction on types;
* `Ty.mentions`: the parameters in a type, each with whether it stands behind an alias;
* `Ty.substitute_congr`: arguments count for the parameters outside aliases alone;
* `Ty.substitute_substitute`, `Ty.mentions_substitute`, `Ty.substitutions_compose`: one substitution after the
  other, and which parameters are left;
* `Ty.settled`, `Ty.settled_iff`: what is left of two types that are the same, place by place;
* `Ty.expand`, `Ty.expand_substitute`: types with their aliases written out;
* `Ty.substitution_keeps_sameness_iff`: when arguments leave the same types the same.
-/

namespace LanguageServer

namespace Ty

variable {arguments arguments' : List (String × Ty)} {name : String} {t : Ty}

/-! ### Induction on types -/

/-- What holds of a type if it holds of its parts holds of every type. -/
@[elab_as_elim, induction_eliminator]
theorem induct {motive : Ty → Prop}
    (builtin : ∀ b, motive (.builtin b))
    (struct : ∀ index name arguments, (∀ a ∈ arguments, motive a.2) →
      motive (.struct index name arguments))
    (pointer : ∀ target, motive target → motive (.pointer target))
    (array : ∀ element length, motive element → motive (.array element length))
    (function : ∀ result parameters, motive result → (∀ p ∈ parameters, motive p) →
      motive (.function result parameters))
    (generic : ∀ name place, motive (.generic name place))
    («alias» : ∀ index name value place, motive value → motive (.alias index name value place))
    (t : Ty) : motive t :=
  @Ty.rec motive (fun arguments => ∀ a ∈ arguments, motive a.2) (fun types => ∀ p ∈ types, motive p)
    (fun a => motive a.2) builtin struct pointer array function generic «alias»
    (List.forall_mem_nil _) (fun _ _ first rest => List.forall_mem_cons.2 ⟨first, rest⟩)
    (List.forall_mem_nil _) (fun _ _ first rest => List.forall_mem_cons.2 ⟨first, rest⟩)
    (fun _ _ h => h) t

/-! ### Arguments by name -/

/-- The first of two lists of arguments that has one for a name decides. -/
theorem lookup_append (arguments arguments' : List (String × Ty)) (name : String) :
    lookup (arguments ++ arguments') name = (lookup arguments name).or (lookup arguments' name) := by
  simp [lookup, List.find?_append, Option.map_or]

theorem lookup_map (f : Ty → Ty) (arguments : List (String × Ty)) (name : String) :
    lookup (arguments.map fun a => (a.1, f a.2)) name = (lookup arguments name).map f := by
  simp only [lookup, List.find?_map, Option.map_map]
  rfl

theorem lookup_eq_none_iff : lookup arguments name = none ↔ name ∉ arguments.map (·.1) := by
  simp only [lookup, Option.map_eq_none_iff, List.find?_eq_none, beq_iff_eq, List.mem_map, not_exists,
    not_and]

theorem substituteArguments_eq (arguments own : List (String × Ty)) :
    substituteArguments arguments own = own.map fun a => (a.1, a.2.substitute arguments) := by
  induction own with
  | nil => rfl
  | cons a rest ih => rw [substituteArguments, ih, List.map_cons]

theorem substituteTypes_eq (arguments : List (String × Ty)) (types : List Ty) :
    substituteTypes arguments types = types.map (substitute arguments) := by
  induction types with
  | nil => rfl
  | cons t rest ih => rw [substituteTypes, ih, List.map_cons]

theorem substitute_struct (arguments own : List (String × Ty)) (index : Nat) (name : String) :
    (Ty.struct index name own).substitute arguments =
      .struct index name (own.map fun a => (a.1, a.2.substitute arguments)) := by
  rw [substitute, substituteArguments_eq]

theorem substitute_function (arguments : List (String × Ty)) (result : Ty) (parameters : List Ty) :
    (Ty.function result parameters).substitute arguments =
      .function (result.substitute arguments) (parameters.map (substitute arguments)) := by
  rw [substitute, substituteTypes_eq]

/-! ### The parameters in a type -/

mutual

/-- The template parameters in a type, in the order in which they are written, each with whether it stands
behind an alias. All of them do if the type itself is behind one. -/
def mentions (behind : Bool) : Ty → List (String × Bool)
  | .builtin _ => []
  | .struct _ _ arguments => mentionsOfArguments behind arguments
  | .pointer target => target.mentions behind
  | .array element _ => element.mentions behind
  | .function result parameters => result.mentions behind ++ mentionsOfTypes behind parameters
  | .generic name _ => [(name, behind)]
  | .alias _ _ value _ => value.mentions true

/-- `mentions` of template arguments. -/
def mentionsOfArguments (behind : Bool) : List (String × Ty) → List (String × Bool)
  | [] => []
  | (_, t) :: rest => t.mentions behind ++ mentionsOfArguments behind rest

/-- `mentions` of a list of types. -/
def mentionsOfTypes (behind : Bool) : List Ty → List (String × Bool)
  | [] => []
  | t :: rest => t.mentions behind ++ mentionsOfTypes behind rest

end

theorem mentionsOfArguments_eq (behind : Bool) (arguments : List (String × Ty)) :
    mentionsOfArguments behind arguments = (arguments.map (·.2)).flatMap (mentions behind) := by
  induction arguments with
  | nil => rfl
  | cons a rest ih => rw [mentionsOfArguments, ih, List.map_cons, List.flatMap_cons]

theorem mentionsOfTypes_eq (behind : Bool) (types : List Ty) :
    mentionsOfTypes behind types = types.flatMap (mentions behind) := by
  induction types with
  | nil => rfl
  | cons t rest ih => rw [mentionsOfTypes, ih, List.flatMap_cons]

theorem mentions_struct (behind : Bool) (index : Nat) (name : String) (own : List (String × Ty)) :
    (Ty.struct index name own).mentions behind = (own.map (·.2)).flatMap (mentions behind) := by
  rw [mentions, mentionsOfArguments_eq]

theorem mentions_function (behind : Bool) (result : Ty) (parameters : List Ty) :
    (Ty.function result parameters).mentions behind =
      result.mentions behind ++ parameters.flatMap (mentions behind) := by
  rw [mentions, mentionsOfTypes_eq]

/-- Arguments count for the parameters outside aliases, and for nothing else. -/
theorem substitute_congr
    (same : ∀ n, (n, false) ∈ t.mentions false → lookup arguments n = lookup arguments' n) :
    t.substitute arguments = t.substitute arguments' := by
  induction t with
  | builtin | «alias» => rfl
  | generic name place => rw [substitute, substitute, same name (by simp [mentions])]
  | pointer target ih => rw [substitute, substitute, ih same]
  | array element _ ih => rw [substitute, substitute, ih same]
  | struct index name own ih =>
    rw [mentions_struct] at same
    rw [substitute_struct, substitute_struct]
    congr 1
    refine List.map_congr_left fun a mem => ?_
    rw [ih a mem fun n here => same n (List.mem_flatMap.2 ⟨a.2, List.mem_map_of_mem mem, here⟩)]
  | function result parameters first rest =>
    rw [mentions_function] at same
    rw [substitute_function, substitute_function, first fun n here => same n (List.mem_append_left _ here)]
    congr 1
    refine List.map_congr_left fun p mem => rest p mem fun n here => ?_
    exact same n (List.mem_append_right _ (List.mem_flatMap.2 ⟨p, mem, here⟩))

theorem substitute_nil (t : Ty) : t.substitute [] = t := by
  induction t with
  | builtin | generic | «alias» => rfl
  | pointer _ ih | array _ _ ih => rw [substitute, ih]
  | struct index name own ih =>
    rw [substitute_struct]
    congr 1
    calc own.map (fun a => (a.1, a.2.substitute [])) = own.map id :=
        List.map_congr_left fun a mem => Prod.ext rfl (ih a mem)
      _ = own := List.map_id own
  | function result parameters first rest =>
    rw [substitute_function, first]
    congr 1
    exact (List.map_congr_left rest).trans (List.map_id parameters)

/-- A type stays as it is if nothing is given for the parameters outside its aliases. -/
theorem substitute_eq_self (unnamed : ∀ n, (n, false) ∈ t.mentions false → n ∉ arguments.map (·.1)) :
    t.substitute arguments = t := by
  have nothing : t.substitute arguments = t.substitute [] :=
    substitute_congr fun n here => lookup_eq_none_iff.2 (unnamed n here)
  rw [nothing, substitute_nil]

/-! ### One substitution after the other -/

theorem substitute_substitute (t : Ty) (arguments arguments' : List (String × Ty)) :
    (t.substitute arguments).substitute arguments' =
      t.substitute ((arguments.map fun a => (a.1, a.2.substitute arguments')) ++ arguments') := by
  induction t with
  | builtin | «alias» => rfl
  | generic name place =>
    -- what is put in first is replaced in turn; what is left over is looked for in the second list
    rw [substitute, substitute, lookup_append, lookup_map]
    cases lookup arguments name <;> rfl
  | pointer _ ih | array _ _ ih => rw [substitute, substitute, substitute, ih]
  | struct index name own ih =>
    rw [substitute_struct, substitute_struct, substitute_struct, List.map_map]
    congr 1
    exact List.map_congr_left fun a mem => Prod.ext rfl (ih a mem)
  | function result parameters first rest =>
    rw [substitute_function, substitute_function, substitute_function, List.map_map, first]
    congr 1
    exact List.map_congr_left rest

theorem behind_of_mem_mentions {p : String × Bool} (mem : p ∈ t.mentions true) : p.2 = true := by
  induction t with
  | builtin => cases mem
  | generic name place => rw [List.mem_singleton.1 mem]
  | pointer _ ih | array _ _ ih | «alias» _ _ _ _ ih => exact ih mem
  | struct index name own ih =>
    rw [mentions_struct, List.mem_flatMap] at mem
    obtain ⟨u, inside, mem⟩ := mem
    obtain ⟨a, own, rfl⟩ := List.mem_map.1 inside
    exact ih a own mem
  | function result parameters first rest =>
    rw [mentions_function, List.mem_append, List.mem_flatMap] at mem
    rcases mem with mem | ⟨u, inside, mem⟩
    · exact first mem
    · exact rest u inside mem

/-- Each parameter outside aliases gives way to those of its argument, in which nothing is replaced again. -/
theorem mentions_substitute (t : Ty) (arguments : List (String × Ty)) :
    (t.substitute arguments).mentions false = (t.mentions false).flatMap fun p =>
      if p.2 then [p] else (lookup arguments p.1).elim [p] (mentions false) := by
  induction t with
  | builtin => rfl
  | generic name place =>
    rw [substitute]
    cases found : lookup arguments name <;> simp [mentions, found]
  | pointer _ ih | array _ _ ih => exact ih
  | «alias» index name value place =>
    refine (List.flatMap_singleton' _).symm.trans (List.flatMap_congr fun p mem => ?_)
    rw [if_pos (behind_of_mem_mentions mem)]
  | struct index name own ih =>
    rw [substitute_struct, mentions_struct, mentions_struct, List.flatMap_assoc, List.map_map,
      List.flatMap_map, List.flatMap_map]
    exact List.flatMap_congr ih
  | function result parameters first rest =>
    rw [substitute_function, mentions_function, mentions_function, List.flatMap_append, first,
      List.flatMap_assoc, List.flatMap_map]
    exact congrArg _ (List.flatMap_congr rest)

/-- **Substitution is simultaneous.** Two substitutions are one, by the arguments of the first with those of
the second put into them, and then by the second ones. A type that has none of the named parameters outside
its aliases stays as it is. And of the parameters outside aliases, each named one gives way to those of its
first argument, which are left as they are. -/
theorem substitutions_compose (t : Ty) (arguments arguments' : List (String × Ty)) :
    (t.substitute arguments).substitute arguments' =
        t.substitute ((arguments.map fun a => (a.1, a.2.substitute arguments')) ++ arguments') ∧
      ((∀ n, (n, false) ∈ t.mentions false → n ∉ arguments.map (·.1)) → t.substitute arguments = t) ∧
      (t.substitute arguments).mentions false = (t.mentions false).flatMap fun p =>
        if p.2 then [p] else (lookup arguments p.1).elim [p] (mentions false) :=
  ⟨substitute_substitute t arguments arguments', substitute_eq_self, mentions_substitute t arguments⟩

/-- Two parameters change places, and the second argument of a name does not count; behind the alias, the
named parameter stays. -/
theorem substitutions_compose_in_function :
    let t : Ty := .function (.generic "U" none) [.alias none "Item" (.generic "T" none) none]
    let swap : List (String × Ty) :=
      [("T", .generic "U" none), ("U", .generic "T" none), ("T", .builtin .int)]
    let unused : List (String × Ty) := [("T", .builtin .int)]
    (t.substitute swap).substitute swap =
        t.substitute ((swap.map fun a => (a.1, a.2.substitute swap)) ++ swap) ∧
      (t.substitute swap).mentions false = [("T", false), ("T", true)] ∧
      (t.substitute swap).substitute swap = t ∧
      (∀ n, (n, false) ∈ t.mentions false → n ∉ unused.map (·.1)) ∧ t.substitute unused = t :=
  ⟨(substitutions_compose _ _ _).1, (substitutions_compose _ _ []).2.2, rfl,
    by simp [mentions, mentionsOfTypes], (substitutions_compose _ _ []).2.1 (by simp [mentions, mentionsOfTypes])⟩

/-! ### What is left of a type -/

/-- A type when arguments have been put in, bare. Behind an alias nothing is replaced. -/
def settled (arguments : List (String × Ty)) (behind : Bool) (t : Ty) : Ty :=
  if behind then t.bare else (t.substitute arguments).bare

/-- The arguments have nothing else for a parameter: no argument, or one that is the same as the parameter. -/
def Idle (arguments : List (String × Ty)) (name : String) : Prop :=
  ∀ u, lookup arguments name = some u → u.sameAs (.generic name none) = true

/-- Arguments do the same to a parameter in two types: it stands behind an alias in both or in neither, or
they do nothing to it. -/
def Agrees (arguments : List (String × Ty)) (p q : String × Bool) : Prop :=
  p.2 = q.2 ∨ Idle arguments p.1

theorem settled_alias (arguments : List (String × Ty)) (behind : Bool) (index : Option Nat) (name : String)
    (value : Ty) (place : Option Location) :
    (Ty.alias index name value place).settled arguments behind = value.settled arguments true := by
  cases behind <;> rfl

theorem settled_pointer (arguments : List (String × Ty)) (behind : Bool) (t : Ty) :
    (Ty.pointer t).settled arguments behind = .pointer (t.settled arguments behind) := by
  cases behind <;> rfl

theorem settled_array (arguments : List (String × Ty)) (behind : Bool) (t : Ty) (length : Option Nat) :
    (Ty.array t length).settled arguments behind = .array (t.settled arguments behind) length := by
  cases behind <;> rfl

theorem settled_struct (arguments : List (String × Ty)) (behind : Bool) (index : Nat) (name : String)
    (own : List (String × Ty)) :
    (Ty.struct index name own).settled arguments behind =
      .struct index "" (((own.map (·.2)).map (settled arguments behind)).map (("", ·))) := by
  cases behind <;>
    simp [settled, substitute_struct, bare, bareArguments_eq, bareTypes_eq]

theorem settled_function (arguments : List (String × Ty)) (behind : Bool) (result : Ty)
    (parameters : List Ty) :
    (Ty.function result parameters).settled arguments behind =
      .function (result.settled arguments behind) (parameters.map (settled arguments behind)) := by
  cases behind <;> simp [settled, substitute_function, bare, bareTypes_eq]

theorem bare_getD_lookup_iff (place : Option Location) :
    ((lookup arguments name).getD (.generic name place)).bare = .generic name none ↔
      Idle arguments name := by
  rw [Idle]
  cases lookup arguments name with
  | none => simp [bare]
  | some u => simp [sameAs_iff, bare]

theorem settled_generic_iff (arguments : List (String × Ty)) (name : String) (place place' : Option Location)
    (behind behind' : Bool) :
    (Ty.generic name place).settled arguments behind = (Ty.generic name place').settled arguments behind' ↔
      List.Forall₂ (Agrees arguments) [(name, behind)] [(name, behind')] := by
  rw [List.forall₂_cons, and_iff_left .nil, Agrees]
  cases behind <;> cases behind'
  case false.false =>
    refine iff_of_true ?_ (.inl rfl)
    cases found : lookup arguments name <;> simp [settled, substitute, bare, found]
  case true.true => exact iff_of_true rfl (.inl rfl)
  case false.true => simpa [settled, substitute, bare] using bare_getD_lookup_iff place
  case true.false => simpa [settled, substitute, bare, eq_comm] using bare_getD_lookup_iff place'

/-! ### Types that are the same, place by place -/

/-- A bare type has the parameters of the type, in the same order. -/
theorem map_fst_mentions (behind : Bool) (t : Ty) :
    (t.mentions behind).map (·.1) = (t.bare.mentions false).map (·.1) := by
  induction t generalizing behind with
  | builtin | generic => rfl
  | «alias» _ _ _ _ ih => exact ih true
  | pointer _ ih | array _ _ ih => exact ih behind
  | struct index name own ih =>
    simp only [bare, mentions_struct, bareArguments_eq, bareTypes_eq, List.map_flatMap, List.flatMap_map,
      List.map_map]
    exact List.flatMap_congr fun a mem => ih a mem behind
  | function result parameters first rest =>
    simp only [bare, mentions_function, bareTypes_eq, List.map_append, List.map_flatMap, List.flatMap_map,
      first]
    congr 1
    exact List.flatMap_congr fun p mem => rest p mem behind

theorem map_fst_mentions_eq {a b : Ty} (same : a.bare = b.bare) (behind behind' : Bool) :
    (a.mentions behind).map (·.1) = (b.mentions behind').map (·.1) := by
  rw [map_fst_mentions, same, ← map_fst_mentions]

theorem length_mentions {a b : Ty} (same : a.bare = b.bare) (behind behind' : Bool) :
    (a.mentions behind).length = (b.mentions behind').length := by
  simpa using congrArg List.length (map_fst_mentions_eq same behind behind')

theorem forall₂_append_iff {α β : Type} {R : α → β → Prop} {as as' : List α} {bs bs' : List β}
    (same : as.length = bs.length) :
    List.Forall₂ R (as ++ as') (bs ++ bs') ↔ List.Forall₂ R as bs ∧ List.Forall₂ R as' bs' := by
  induction as generalizing bs with
  | nil =>
    obtain rfl := List.eq_nil_of_length_eq_zero same.symm
    simp
  | cons a as ih =>
    cases bs with
    | nil => simp at same
    | cons b bs => simp [ih (Nat.succ.inj same), and_assoc]

/-- Parts that are the same settle to equal ones if the arguments do the same to every parameter in them. -/
theorem settled_all_iff {behind behind' : Bool} {ts us : List Ty} (same : ts.map bare = us.map bare)
    (each : ∀ t ∈ ts, ∀ u : Ty, t.bare = u.bare →
      (t.settled arguments behind = u.settled arguments behind' ↔
        List.Forall₂ (Agrees arguments) (t.mentions behind) (u.mentions behind'))) :
    ts.map (settled arguments behind) = us.map (settled arguments behind') ↔
      List.Forall₂ (Agrees arguments) (ts.flatMap (mentions behind)) (us.flatMap (mentions behind')) := by
  induction ts generalizing us with
  | nil =>
    obtain rfl := List.map_eq_nil_iff.1 same.symm
    simp
  | cons t ts ih =>
    cases us with
    | nil => simp at same
    | cons u us =>
      obtain ⟨head, tail⟩ := List.cons.inj same
      rw [List.flatMap_cons, List.flatMap_cons, forall₂_append_iff (length_mentions head _ _),
        List.map_cons, List.map_cons, List.cons.injEq, each t List.mem_cons_self u head,
        ih tail fun v mem => each v (List.mem_cons_of_mem _ mem)]

/-- Aliases on top of the second type do not matter. -/
theorem settled_iff_of_plain {a : Ty} {behind : Bool}
    (plainly : ∀ (c : Ty) (behind' : Bool), c.resolve = c → a.bare = c.bare →
      (a.settled arguments behind = c.settled arguments behind' ↔
        List.Forall₂ (Agrees arguments) (a.mentions behind) (c.mentions behind')))
    (b : Ty) (same : a.bare = b.bare) (behind' : Bool) :
    a.settled arguments behind = b.settled arguments behind' ↔
      List.Forall₂ (Agrees arguments) (a.mentions behind) (b.mentions behind') := by
  induction b generalizing behind' with
  | «alias» _ _ value _ ih =>
    rw [settled_alias]
    exact ih same true
  | _ => exact plainly _ behind' rfl same

/-- Types that are the same settle to equal ones exactly if the arguments do the same to every parameter in
them. -/
theorem settled_iff (arguments : List (String × Ty)) {a b : Ty} (same : a.bare = b.bare)
    (behind behind' : Bool) :
    a.settled arguments behind = b.settled arguments behind' ↔
      List.Forall₂ (Agrees arguments) (a.mentions behind) (b.mentions behind') := by
  induction a generalizing b behind behind' with
  | «alias» _ _ value _ ih =>
    rw [settled_alias]
    exact ih same true behind'
  | builtin k =>
    refine settled_iff_of_plain (fun c behind' plain same => ?_) b same behind'
    cases c with
    | «alias» => exact absurd plain (resolve_ne_alias _)
    | builtin l =>
      obtain rfl := builtin.inj same
      cases behind <;> cases behind' <;> simp [settled, substitute, bare, mentions]
    | _ => simp [bare] at same
  | generic name place =>
    refine settled_iff_of_plain (fun c behind' plain same => ?_) b same behind'
    cases c with
    | «alias» => exact absurd plain (resolve_ne_alias _)
    | generic name' place' =>
      obtain ⟨rfl, -⟩ := generic.inj same
      exact settled_generic_iff ..
    | _ => simp [bare] at same
  | pointer t ih =>
    refine settled_iff_of_plain (fun c behind' plain same => ?_) b same behind'
    cases c with
    | «alias» => exact absurd plain (resolve_ne_alias _)
    | pointer u =>
      rw [settled_pointer, settled_pointer, pointer.injEq]
      exact ih (pointer.inj same) behind behind'
    | _ => simp [bare] at same
  | array t length ih =>
    refine settled_iff_of_plain (fun c behind' plain same => ?_) b same behind'
    cases c with
    | «alias» => exact absurd plain (resolve_ne_alias _)
    | array u length' =>
      obtain ⟨inner, rfl⟩ := array.inj same
      rw [settled_array, settled_array, array.injEq, and_iff_left rfl]
      exact ih inner behind behind'
    | _ => simp [bare] at same
  | struct index name own ih =>
    refine settled_iff_of_plain (fun c behind' plain same => ?_) b same behind'
    cases c with
    | «alias» => exact absurd plain (resolve_ne_alias _)
    | struct index' name' own' =>
      obtain ⟨rfl, -, inner⟩ := struct.inj same
      rw [bareArguments_inj, bareTypes_eq, bareTypes_eq] at inner
      have each : ∀ t ∈ own.map (·.2), ∀ u : Ty, t.bare = u.bare →
          (t.settled arguments behind = u.settled arguments behind' ↔
            List.Forall₂ (Agrees arguments) (t.mentions behind) (u.mentions behind')) := by
        simpa only [List.forall_mem_map] using fun a mem u same => ih a mem same behind behind'
      rw [settled_struct, settled_struct, struct.injEq, and_iff_right rfl, and_iff_right rfl,
        mentions_struct, mentions_struct, ← settled_all_iff inner each]
      exact List.map_inj_right fun _ _ same => (Prod.mk.inj same).2
    | _ => simp [bare] at same
  | function result parameters first rest =>
    refine settled_iff_of_plain (fun c behind' plain same => ?_) b same behind'
    cases c with
    | «alias» => exact absurd plain (resolve_ne_alias _)
    | function result' parameters' =>
      obtain ⟨results, others⟩ := function.inj same
      rw [bareTypes_eq, bareTypes_eq] at others
      rw [settled_function, settled_function, function.injEq, mentions_function, mentions_function,
        forall₂_append_iff (length_mentions results ..), first results,
        settled_all_iff others fun p mem u same => rest p mem same behind behind']
    | _ => simp [bare] at same

/-! ### Aliases written out -/

mutual

/-- A type with every alias in it replaced by its value. -/
def expand : Ty → Ty
  | .alias _ _ value _ => value.expand
  | .builtin b => .builtin b
  | .struct index name arguments => .struct index name (expandArguments arguments)
  | .pointer target => .pointer target.expand
  | .array element length => .array element.expand length
  | .function result parameters => .function result.expand (expandTypes parameters)
  | .generic name place => .generic name place

/-- `expand` on template arguments. -/
def expandArguments : List (String × Ty) → List (String × Ty)
  | [] => []
  | (name, t) :: rest => (name, t.expand) :: expandArguments rest

/-- `expand` on a list of types. -/
def expandTypes : List Ty → List Ty
  | [] => []
  | t :: rest => t.expand :: expandTypes rest

end

theorem expandArguments_eq (arguments : List (String × Ty)) :
    expandArguments arguments = arguments.map fun a => (a.1, a.2.expand) := by
  induction arguments with
  | nil => rfl
  | cons a rest ih => rw [expandArguments, ih, List.map_cons]

theorem expandTypes_eq (types : List Ty) : expandTypes types = types.map expand := by
  induction types with
  | nil => rfl
  | cons t rest ih => rw [expandTypes, ih, List.map_cons]

/-- Aliases may be written out before arguments are put in if nothing is given for what stands behind them. -/
theorem expand_substitute {behind : Bool}
    (unnamed : ∀ n, (n, true) ∈ t.mentions behind → lookup arguments n = none) :
    (if behind then t.expand else (t.substitute arguments).expand) =
      t.expand.substitute (arguments.map fun a => (a.1, a.2.expand)) := by
  induction t generalizing behind with
  | builtin => cases behind <;> rfl
  | «alias» _ _ value _ ih =>
    have inside := @ih true unnamed
    cases behind <;> exact inside
  | generic name place =>
    rw [expand, substitute, substitute, lookup_map]
    cases behind with
    | true => rw [unnamed name List.mem_cons_self]; rfl
    | false => cases lookup arguments name <;> rfl
  | pointer target ih =>
    have inside := @ih behind unnamed
    cases behind <;> exact congrArg pointer inside
  | array element length ih =>
    have inside := @ih behind unnamed
    cases behind <;> exact congrArg (array · length) inside
  | struct index name own ih =>
    rw [mentions_struct] at unnamed
    have inside (a : String × Ty) (mem : a ∈ own) := @ih a mem behind fun n here =>
      unnamed n (List.mem_flatMap.2 ⟨a.2, List.mem_map_of_mem mem, here⟩)
    cases behind <;>
      simp only [substitute_struct, expand, expandArguments_eq, List.map_map] <;>
      exact congrArg (struct index name) (List.map_congr_left fun a mem => Prod.ext rfl (inside a mem))
  | function result parameters first rest =>
    rw [mentions_function] at unnamed
    have head := @first behind fun n here => unnamed n (List.mem_append_left _ here)
    have inside (p : Ty) (mem : p ∈ parameters) := @rest p mem behind fun n here =>
      unnamed n (List.mem_append_right _ (List.mem_flatMap.2 ⟨p, mem, here⟩))
    cases behind <;>
      simp only [substitute_function, expand, expandTypes_eq, List.map_map] <;>
      exact congrArg₂ function head (List.map_congr_left inside)

/-! ### Sameness after substitution -/

/-- Arguments do the same to two types if none has the name of a parameter behind an alias. -/
theorem forall₂_agrees {a b : Ty} (same : a.bare = b.bare)
    (unnamed : ∀ n ∈ arguments.map (·.1), (n, true) ∉ a.mentions false ∧ (n, true) ∉ b.mentions false) :
    List.Forall₂ (Agrees arguments) (a.mentions false) (b.mentions false) := by
  have names := map_fst_mentions_eq same false false
  rw [← List.forall₂_eq_eq_eq, List.forall₂_map_left_iff, List.forall₂_map_right_iff] at names
  refine List.forall₂_iff_zip.2 ⟨names.length_eq, fun {p q} together => ?_⟩
  obtain ⟨n, x⟩ := p
  obtain ⟨m, y⟩ := q
  obtain rfl : n = m := List.forall₂_zip names together
  obtain ⟨left, right⟩ := List.of_mem_zip together
  by_cases named : n ∈ arguments.map (·.1)
  · have outside : x = false := Bool.eq_false_iff.2 fun behind => (unnamed n named).1 (behind ▸ left)
    have outside' : y = false := Bool.eq_false_iff.2 fun behind => (unnamed n named).2 (behind ▸ right)
    exact .inl (outside.trans outside'.symm)
  · refine .inr fun u found => ?_
    rw [lookup_eq_none_iff.2 named] at found
    cases found

/-- **Substitution and sameness.** Types that are the same stay so under template arguments exactly if the
arguments do the same to every parameter in them: it stands behind an alias in both types or in neither, or
the arguments have nothing else for it. So they stay the same whenever no argument has the name of a
parameter behind an alias; and then, if they differed in aliases alone, they are shown by the same text once
aliases are written out. -/
theorem substitution_keeps_sameness_iff (a b : Ty) (arguments : List (String × Ty))
    (same : a.sameAs b = true) :
    ((a.substitute arguments).sameAs (b.substitute arguments) = true ↔
      List.Forall₂ (Agrees arguments) (a.mentions false) (b.mentions false)) ∧
    ((∀ n ∈ arguments.map (·.1), (n, true) ∉ a.mentions false ∧ (n, true) ∉ b.mentions false) →
      (a.substitute arguments).sameAs (b.substitute arguments) = true ∧
      (a.expand = b.expand →
        (a.substitute arguments).expand.display = (b.substitute arguments).expand.display)) := by
  rw [sameAs_iff] at same ⊢
  have exactly := settled_iff arguments same false false
  refine ⟨exactly, fun unnamed => ⟨exactly.2 (forall₂_agrees same unnamed), fun written => ?_⟩⟩
  have left := @expand_substitute arguments a false fun n here =>
    lookup_eq_none_iff.2 fun named => (unnamed n named).1 here
  have right := @expand_substitute arguments b false fun n here =>
    lookup_eq_none_iff.2 fun named => (unnamed n named).2 here
  exact congrArg display (left.trans ((congrArg _ written).trans right.symm))

/-- A number is written through an alias in one of two pairs; the other component is replaced in both. -/
theorem substitution_keeps_sameness_of_pairs :
    let a : Ty := .struct 0 "Pair" [("A", .alias (some 0) "Number" (.builtin .int) none),
      ("B", .generic "T" none)]
    let b : Ty := .struct 0 "Pair" [("A", .builtin .int), ("B", .generic "T" none)]
    let arguments : List (String × Ty) := [("T", .pointer (.builtin .char))]
    a.sameAs b = true ∧
      List.Forall₂ (Agrees arguments) (a.mentions false) (b.mentions false) ∧
      (∀ n ∈ arguments.map (·.1), (n, true) ∉ a.mentions false ∧ (n, true) ∉ b.mentions false) ∧
      (a.substitute arguments).sameAs (b.substitute arguments) = true ∧ a.expand = b.expand ∧
      (a.substitute arguments).expand.display = (b.substitute arguments).expand.display := by
  intro a b arguments
  have same : a.sameAs b = true := by decide
  have unnamed : ∀ n ∈ arguments.map (·.1), (n, true) ∉ a.mentions false ∧ (n, true) ∉ b.mentions false := by
    decide
  obtain ⟨exactly, kept⟩ := substitution_keeps_sameness_iff a b arguments same
  exact ⟨same, exactly.1 (kept unnamed).1, unnamed, (kept unnamed).1, rfl, (kept unnamed).2 rfl⟩

end Ty

namespace Sample

/-- A struct with a field whose type is a parameter, and one whose type is an alias of that parameter. -/
def boxes : Program :=
  let field (name : String) (type : Ty) : CompiledField :=
    ⟨⟨[], .named (word "T") default, word name, default⟩, type⟩
  { structs :=
      [{ definition :=
          { file := some mainFile, attributes := [], modifiers := [], keyword := word "struct"
            name := word "Box", template := some [word "T"], fields := [], range := default }
         fields :=
          [field "direct" (.generic "T" none),
            field "aliased" (.alias (some 0) "Item" (.generic "T" none) none)]
         sites := [] }] }

end Sample

/-- A parameter and an alias of it are the same, and no longer so once an argument is put in. The editor
shows the argument for the one field of a box, and the name of the alias for the other. -/
theorem parameter_behind_alias_stays :
    let item : Ty := .alias (some 0) "Item" (.generic "T" none) none
    let arguments : List (String × Ty) := [("T", .builtin .int)]
    item.sameAs (.generic "T" none) = true ∧
      (item.substitute arguments).sameAs ((Ty.generic "T" none).substitute arguments) = false ∧
      fieldItems Sample.boxes (.struct 0 "Box" arguments) =
        [⟨"direct", .field, some ⟨none, some "int"⟩⟩, ⟨"aliased", .field, some ⟨none, some "Item"⟩⟩] := by
  decide

end LanguageServer
