import LanguageServer.Feature.Completion
import LanguageServer.Proofs.Sameness
import LanguageServer.Proofs.Tables
import Mathlib.Data.List.Basic
import Mathlib.Data.List.Induction
import Mathlib.Logic.Relation

/-!
# Methods among the members of an object

The methods of an object are looked for type by type: on the pointer to it, on its own type, and on what
that points to, one after the other. Bare types get smaller on the way down, so that no two of these types
are the same, and no method is found twice.

* `Ty.Dereferences`, `mem_memberTypes`: the types that are looked at;
* `apart_memberTypes`: no type is the same as two of them;
* `CompiledFunction.IsMethod`, `perm_contributions`: each method is found once;
* `Overloads.Groups`: functions grouped by name, and what one more of them changes;
* `methods_counted_once`: what the editor offers.
-/

namespace LanguageServer

variable {s : Snapshot} {object t u : Ty} {f : CompiledFunction}

/-! ### The types that are looked at -/

namespace Ty

/-- A type is another one, or that points to it, directly or in several steps. -/
def Dereferences : Ty → Ty → Prop := Relation.ReflTransGen fun t u => t.target? = some u

theorem mem_targets : u ∈ t.targets ↔ Relation.TransGen (fun t u => Ty.target? t = some u) t u := by
  fun_induction Ty.targets t with
  | case1 index name value definition ih =>
    rw [ih, Relation.TransGen.head'_iff, Relation.TransGen.head'_iff]
    rfl
  | case2 target ih =>
    rw [Relation.TransGen.head'_iff, List.mem_cons, ih, ← Relation.reflTransGen_iff_eq_or_transGen]
    simp [target?, resolve]
  | case3 t noAlias noPointer =>
    rw [Relation.TransGen.head'_iff]
    cases t with
    | «alias» => exact (noAlias _ _ _ _ rfl).elim
    | pointer => exact (noPointer _ rfl).elim
    | _ => simp [target?, resolve]

/-- What a type points to is smaller. -/
theorem sizeOf_bare_of_mem_targets (h : u ∈ t.targets) : sizeOf u.bare < sizeOf t.bare := by
  fun_induction Ty.targets t with
  | case1 index name value definition ih => exact ih h
  | case2 target ih =>
    rw [bare, pointer.sizeOf_spec]
    rcases List.mem_cons.1 h with rfl | further
    · omega
    · have := ih further
      omega
  | case3 => cases h

theorem pairwise_targets (t : Ty) : t.targets.Pairwise fun t u => sizeOf u.bare < sizeOf t.bare := by
  fun_induction Ty.targets t with
  | case1 _ _ _ _ ih => exact ih
  | case2 target ih => exact List.pairwise_cons.2 ⟨fun u h => sizeOf_bare_of_mem_targets h, ih⟩
  | case3 => exact .nil

end Ty

theorem mem_memberTypes : t ∈ memberTypes object ↔ t = .pointer object ∨ object.Dereferences t := by
  rw [memberTypes, List.mem_cons, List.mem_cons, Ty.mem_targets, Ty.Dereferences,
    Relation.reflTransGen_iff_eq_or_transGen]

/-- No type is the same as two of those that are looked at. -/
theorem apart_memberTypes (object : Ty) :
    (memberTypes object).Pairwise fun t u => ∀ a : Ty, a.sameAs t = true → a.sameAs u = false := by
  have smaller : (memberTypes object).Pairwise fun t u => sizeOf u.bare < sizeOf t.bare := by
    -- the first ones are those that the pointer to the pointer points to
    exact Ty.pairwise_targets (.pointer (.pointer object))
  refine smaller.imp fun {t u} less a same => ?_
  rw [Bool.eq_false_iff]
  intro same'
  rw [Ty.sameAs_iff] at same same'
  rw [← same, ← same'] at less
  exact Nat.lt_irrefl _ less

/-! ### Each method is found once -/

/-- A function is a method of an object: the document may use it, and its first parameter is a receiver
whose type is the same as the pointer to that of the object, or as one that can be dereferenced from it. -/
def CompiledFunction.IsMethod (s : Snapshot) (object : Ty) (f : CompiledFunction) : Prop :=
  f.kind = .function ∧ f.isUsableFrom s.uri = true ∧
    ∃ this, f.parameters.head? = some this ∧ this.definition.isReceiver = true ∧
      ∃ t, (t = .pointer object ∨ object.Dereferences t) ∧ this.type.sameAs t = true

theorem CompiledFunction.extends_iff : f.extends t = true ↔
    ∃ this, f.parameters.head? = some this ∧ this.definition.isReceiver = true ∧
      this.type.sameAs t = true := by
  rw [CompiledFunction.extends]
  cases f.parameters.head? <;> simp

theorem CompiledFunction.isMethod_iff : f.IsMethod s object ↔
    (f.kind == .function && f.isUsableFrom s.uri && (memberTypes object).any f.extends) = true := by
  simp only [IsMethod, Bool.and_eq_true, beq_iff_eq, List.any_eq_true, extends_iff, mem_memberTypes,
    and_assoc]
  refine and_congr_right fun _ => and_congr_right fun _ => ?_
  constructor
  · rintro ⟨this, first, receiver, t, looked, same⟩
    exact ⟨t, looked, this, first, receiver, same⟩
  · rintro ⟨t, looked, this, first, receiver, same⟩
    exact ⟨this, first, receiver, t, looked, same⟩

instance (s : Snapshot) (object : Ty) (f : CompiledFunction) : Decidable (f.IsMethod s object) :=
  decidable_of_iff _ CompiledFunction.isMethod_iff.symm

/-- The methods of an object, in the order of the table. -/
def methodsOf (s : Snapshot) (object : Ty) : List CompiledFunction :=
  s.program.functions.filter (·.IsMethod s object)

/-- What meets one of several conditions is found once if no two of them can be met. -/
theorem flatMap_filter_perm {α β : Type} (as : List α) {conditions : List β} {meets : β → α → Bool}
    (apart : conditions.Pairwise fun b c => ∀ a, meets b a = true → meets c a = false) :
    (conditions.flatMap fun b => as.filter (meets b)).Perm
      (as.filter fun a => conditions.any (meets · a)) := by
  induction conditions with
  | nil => simp
  | cons b bs ih =>
    obtain ⟨first, rest⟩ := List.pairwise_cons.1 apart
    have parts := List.filter_append_perm (meets b) (as.filter fun a => (b :: bs).any (meets · a))
    rw [List.filter_filter, List.filter_filter] at parts
    have here : (as.filter fun a => meets b a && (b :: bs).any (meets · a)) = as.filter (meets b) := by
      refine List.filter_congr fun a _ => ?_
      cases h : meets b a <;> simp [h]
    have there : (as.filter fun a => !meets b a && (b :: bs).any (meets · a)) =
        as.filter fun a => bs.any (meets · a) := by
      refine List.filter_congr fun a _ => ?_
      cases h : meets b a with
      | true =>
        have unmet : bs.any (meets · a) = false :=
          List.any_eq_false.2 fun c hc => Bool.eq_false_iff.1 (first c hc a h)
        simp [unmet]
      | false => simp [h]
    rw [here, there] at parts
    rw [List.flatMap_cons]
    exact ((ih rest).append_left _).trans parts

/-- The methods that are found, with the template arguments under which they are. -/
def contributions (s : Snapshot) (object : Ty) :
    List (String × CompiledFunction × Option (List (String × Ty))) :=
  (memberTypes object).flatMap (extensionsOf s)

/-- The functions among which methods are looked for. -/
def usableFunctions (s : Snapshot) : List CompiledFunction :=
  s.program.functions.filter fun f => f.kind == .function && f.isUsableFrom s.uri

theorem map_extensionsOf (s : Snapshot) (t : Ty) :
    (extensionsOf s t).map (·.2.1) = (usableFunctions s).filter (·.extends t) := by
  rw [extensionsOf, List.map_map, usableFunctions, List.filter_filter]
  exact (List.map_id _).trans (List.filter_congr fun f _ => Bool.and_comm ..)

theorem methodsOf_eq (s : Snapshot) (object : Ty) :
    methodsOf s object = (usableFunctions s).filter fun f => (memberTypes object).any f.extends := by
  rw [methodsOf, usableFunctions, List.filter_filter]
  refine List.filter_congr fun f _ => ?_
  rw [Bool.eq_iff_iff, decide_eq_true_iff, CompiledFunction.isMethod_iff, Bool.and_comm]

/-- No function is found on two types. -/
theorem extends_apart (object : Ty) :
    (memberTypes object).Pairwise fun t u =>
      ∀ f : CompiledFunction, f.extends t = true → f.extends u = false := by
  refine (apart_memberTypes object).imp fun {t u} apart f found => ?_
  rw [Bool.eq_false_iff]
  intro again
  obtain ⟨this, first, -, same⟩ := CompiledFunction.extends_iff.1 found
  obtain ⟨this', first', -, same'⟩ := CompiledFunction.extends_iff.1 again
  obtain rfl := Option.some.inj (first.symm.trans first')
  exact Bool.eq_false_iff.1 (apart _ same) same'

/-- Each method is found once. -/
theorem perm_contributions (s : Snapshot) (object : Ty) :
    ((contributions s object).map (·.2.1)).Perm (methodsOf s object) := by
  rw [contributions, List.map_flatMap, List.flatMap_congr fun t _ => map_extensionsOf s t, methodsOf_eq]
  exact flatMap_filter_perm (usableFunctions s) (extends_apart object)

/-! ### Functions grouped by name -/

namespace Overloads

variable {α : Type} {groups : Overloads α} {items : List (String × α)} {name n : String}

/-- The items of a name. -/
def named (items : List (String × α)) (n : String) : List α := (items.filter (·.1 = n)).map (·.2)

/-- The group of a name, if anything belongs to it. -/
def groupOf (n : String) : List α → Overloads α
  | [] => []
  | a :: as => [(n, a :: as)]

/-- Items are grouped by name: names are in order, and each has one group, of all its items. -/
structure Groups (groups : Overloads α) (items : List (String × α)) : Prop where
  ordered : groups.Pairwise (·.1 < ·.1)
  grouped : ∀ n, groups.filter (·.1 = n) = groupOf n (named items n)

theorem named_concat (items : List (String × α)) (name n : String) (a : α) :
    named (items ++ [(name, a)]) n = named items n ++ if name = n then [a] else [] := by
  by_cases same : name = n <;> simp [named, same]

theorem mem_insert {a : α} {g : String × List α} (h : g ∈ insert name a groups) :
    g.1 = name ∨ ∃ g' ∈ groups, g'.1 = g.1 := by
  fun_induction insert name a groups with
  | case1 => exact .inl (congrArg (·.1) (List.mem_singleton.1 h))
  | case2 as rest =>
    rcases List.mem_cons.1 h with rfl | later
    · exact .inl rfl
    · exact .inr ⟨g, List.mem_cons_of_mem _ later, rfl⟩
  | case3 m as rest =>
    rcases List.mem_cons.1 h with rfl | later
    · exact .inl rfl
    · exact .inr ⟨g, later, rfl⟩
  | case4 m as rest _ _ ih =>
    rcases List.mem_cons.1 h with rfl | later
    · exact .inr ⟨_, List.mem_cons_self, rfl⟩
    · rcases ih later with here | ⟨g', mem, same⟩
      · exact .inl here
      · exact .inr ⟨g', List.mem_cons_of_mem _ mem, same⟩

/-- A name before the first one is before all. -/
theorem forall_lt_of_lt {m : String} {as : List α} (ordered : List.Pairwise (·.1 < ·.1) ((m, as) :: groups))
    (before : name < m) : ∀ g ∈ (m, as) :: groups, name < g.1 := by
  intro g mem
  rcases List.mem_cons.1 mem with rfl | later
  · exact before
  · exact String.lt_trans before ((List.pairwise_cons.1 ordered).1 g later)

/-- A new item leaves the names in order. -/
theorem ordered_insert (ordered : groups.Pairwise (·.1 < ·.1)) (name : String) (a : α) :
    (insert name a groups).Pairwise (·.1 < ·.1) := by
  fun_induction insert name a groups with
  | case1 => exact List.pairwise_singleton ..
  | case2 as rest => exact List.pairwise_cons.2 (List.pairwise_cons.1 ordered)
  | case3 m as rest _ before => exact List.pairwise_cons.2 ⟨forall_lt_of_lt ordered before, ordered⟩
  | case4 m as rest other behind ih =>
    obtain ⟨first, rest_ordered⟩ := List.pairwise_cons.1 ordered
    refine List.pairwise_cons.2 ⟨fun g mem => ?_, ih rest_ordered⟩
    rcases mem_insert mem with here | ⟨g', old, same⟩
    · rw [here]
      exact Std.lt_of_le_of_ne behind (Ne.symm other)
    · exact same ▸ first g' old

theorem filter_insert_of_ne (other : name ≠ n) (a : α) (groups : Overloads α) :
    (insert name a groups).filter (·.1 = n) = groups.filter (·.1 = n) := by
  fun_induction insert name a groups with
  | case1 => simp [other]
  | case2 as rest => simp [other]
  | case3 => simp [other]
  | case4 m as rest _ _ ih => simp [List.filter_cons, ih]

/-- A name that comes before all groups has none. -/
theorem filter_eq_nil_of_lt (before : ∀ g ∈ groups, name < g.1) : groups.filter (·.1 = name) = [] := by
  refine List.filter_eq_nil_iff.2 fun g mem same => ?_
  have here := before g mem
  rw [of_decide_eq_true same] at here
  exact String.lt_irrefl _ here

theorem filter_insert_self (ordered : groups.Pairwise (·.1 < ·.1)) (a : α) :
    (insert name a groups).filter (·.1 = name) =
      [(name, (groups.filter (·.1 = name)).flatMap (·.2) ++ [a])] := by
  fun_induction insert name a groups with
  | case1 => simp
  | case2 as rest =>
    have none := filter_eq_nil_of_lt (List.pairwise_cons.1 ordered).1
    simp [none]
  | case3 m as rest other before =>
    have none := filter_eq_nil_of_lt (forall_lt_of_lt ordered before)
    rw [List.filter_cons_of_pos (by simp), none]
    rfl
  | case4 m as rest other _ ih =>
    have skipped : ¬ m = name := Ne.symm other
    simp [skipped, ih (List.pairwise_cons.1 ordered).2]

/-- One more item goes to the end of its group. -/
theorem Groups.insert (h : Groups groups items) (name : String) (a : α) :
    Groups (insert name a groups) (items ++ [(name, a)]) where
  ordered := ordered_insert h.ordered name a
  grouped := fun n => by
    rw [named_concat]
    by_cases same : name = n
    · subst same
      rw [filter_insert_self h.ordered, h.grouped, if_pos rfl]
      cases named items name <;> simp [groupOf]
    · rw [filter_insert_of_ne same, h.grouped, if_neg same, List.append_nil]

theorem groups_ofList (items : List (String × α)) : Groups (ofList items) items := by
  induction items using List.reverseRecOn with
  | nil => exact ⟨.nil, fun n => rfl⟩
  | append_singleton items last ih =>
    rw [ofList, List.foldl_append]
    exact ih.insert last.1 last.2

end Overloads

/-! ### What the editor offers -/

/-- The result of a function as a completion shows it, with the template arguments of an object. -/
def CompiledFunction.resultOn (f : CompiledFunction) (arguments : Option (List (String × Ty))) : String :=
  match arguments with
  | some arguments => (f.result.substitute arguments).display
  | none => f.result.display

/-- The completions of a name that are functions. -/
def functionItems (name : String) (items : List CompletionItem) : List CompletionItem :=
  items.filter fun item => item.kind = .function ∧ item.label = name

/-- A completion of a name that is a function. -/
def functionItem (name description : String) : CompletionItem :=
  ⟨name, .function, some ⟨none, some description⟩⟩

/-- Fields are no functions. -/
theorem functionItems_fieldItems (name : String) (program : Program) (ty : Ty) :
    functionItems name (fieldItems program ty) = [] := by
  rw [functionItems, List.filter_eq_nil_iff, fieldItems]
  split <;> simp

/-- A group has the name of its completion. -/
theorem functionItems_items {α : Type} (result : α → String) (groups : Overloads α) (name : String) :
    functionItems name (groups.items result) = Overloads.items result (groups.filter (·.1 = name)) := by
  rw [functionItems, Overloads.items, List.filter_map, Overloads.items]
  refine congrArg (List.map _) (List.filter_congr fun g _ => ?_)
  simp

theorem functionItems_memberItems (s : Snapshot) (object : Ty) (name : String) :
    functionItems name (memberItems s object) =
      (Overloads.groupOf name (Overloads.named (contributions s object) name)).items
        fun (f, arguments) => f.resultOn arguments := by
  have fields : functionItems name ((memberTypes object).flatMap (fieldItems s.program)) = [] := by
    rw [functionItems, List.filter_flatMap]
    exact List.flatMap_eq_nil_iff.2 fun t _ => functionItems_fieldItems ..
  rw [memberItems, functionItems, List.filter_append, ← functionItems, ← functionItems, fields,
    List.nil_append, functionItems_items, ← (Overloads.groups_ofList _).grouped]
  rfl

/-- A function is found on a type that is looked at, under its name. -/
theorem exists_of_mem_contributions {c : String × CompiledFunction × Option (List (String × Ty))}
    (h : c ∈ contributions s object) :
    c.1 = c.2.1.name ∧
      ∃ t ∈ memberTypes object, c.2.1.extends t = true ∧ c.2.2 = receiverArguments c.2.1 t := by
  obtain ⟨t, looked, found⟩ := List.mem_flatMap.1 h
  obtain ⟨f, mem, rfl⟩ := List.mem_map.1 found
  have meets := (List.mem_filter.1 mem).2
  rw [Bool.and_eq_true] at meets
  exact ⟨rfl, t, looked, meets.2, rfl⟩

/-- The template arguments are those of the type that a function is found on. -/
theorem exists_of_mem_named {name : String} {c : CompiledFunction × Option (List (String × Ty))}
    (h : c ∈ Overloads.named (contributions s object) name) :
    ∃ t ∈ memberTypes object, c.1.extends t = true ∧ c.2 = receiverArguments c.1 t := by
  obtain ⟨d, mem, rfl⟩ := List.mem_map.1 h
  exact (exists_of_mem_contributions (List.mem_filter.1 mem).1).2

/-- What is found under a name are the methods of that name. -/
theorem perm_named_contributions (s : Snapshot) (object : Ty) (name : String) :
    ((Overloads.named (contributions s object) name).map (·.1)).Perm
      ((methodsOf s object).filter (·.name = name)) := by
  have same : (Overloads.named (contributions s object) name).map (·.1) =
      ((contributions s object).map (·.2.1)).filter (·.name = name) := by
    rw [Overloads.named, List.map_map, List.filter_map]
    refine congrArg (List.map _) (List.filter_congr fun c hc => ?_)
    rw [(exists_of_mem_contributions hc).1]
    rfl
  rw [same]
  exact (perm_contributions s object).filter _

/-- **Methods among the members of an object.** Each method is found once, though it is looked for on many
types. A name has no completion that is a function if no method has the name, and one otherwise: with the
result of the method if there is one, for the template arguments of the type it is found on, and else with
the number of the methods of that name. -/
theorem methods_counted_once (s : Snapshot) (object : Ty) :
    ((contributions s object).map (·.2.1)).Perm (methodsOf s object) ∧
    ∀ name, let methods := (methodsOf s object).filter (·.name = name)
      (methods = [] → functionItems name (memberItems s object) = []) ∧
      (∀ f, methods = [f] → ∃ t, (t = .pointer object ∨ object.Dereferences t) ∧ f.extends t = true ∧
        functionItems name (memberItems s object) =
          [functionItem name (f.resultOn (receiverArguments f t))]) ∧
      (2 ≤ methods.length → functionItems name (memberItems s object) =
        [functionItem name (toString methods.length ++ " overloads")]) := by
  refine ⟨perm_contributions s object, fun name => ?_⟩
  have perm := perm_named_contributions s object name
  dsimp only
  rw [functionItems_memberItems]
  generalize (methodsOf s object).filter (·.name = name) = methods at perm ⊢
  cases found : Overloads.named (contributions s object) name with
  | nil =>
    rw [found, List.map_nil] at perm
    obtain rfl := perm.nil_eq
    exact ⟨fun _ => rfl, by simp, by simp⟩
  | cons c cs =>
    rw [found] at perm
    cases cs with
    | nil =>
      obtain rfl := List.singleton_perm.1 perm
      refine ⟨by simp, fun f only => ?_, by simp⟩
      obtain rfl := (List.cons.inj only).1
      obtain ⟨t, looked, extended, arguments⟩ := exists_of_mem_named (found ▸ List.mem_singleton_self c)
      exact ⟨t, mem_memberTypes.1 looked, extended, by rw [← arguments]; rfl⟩
    | cons d ds =>
      have count : methods.length = ds.length + 2 := perm.length_eq.symm.trans (by simp)
      refine ⟨fun none => ?_, fun f only => ?_, fun _ => ?_⟩
      · simp [none] at count
      · simp [only] at count
      · rw [count]
        rfl

/-- Methods of a pointer, seen through an alias, count together with those of what it points to. -/
example :
    let pointed : Ty := .pointer (.builtin .char)
    let method (type : Ty) : CompiledFunction :=
      { Sample.declared Sample.mainFile "size" with
        parameters := [⟨⟨[Sample.word "this"], .missing default, Sample.word "self", default⟩, type⟩] }
    memberItems
        (.single Sample.mainFile none
          { program := { functions := [method (.builtin .char), method pointed, method (.builtin .int)] } })
        (.alias none "Name" pointed none) =
      [⟨"size", .function, some ⟨none, some "2 overloads"⟩⟩] := by
  decide +kernel

end LanguageServer
