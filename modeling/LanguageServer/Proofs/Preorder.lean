import Mathlib.Data.List.Lex
import Mathlib.Data.List.Sort
import Mathlib.Logic.Relation

/-!
# Lists in pre-order

A forest is given by its roots and by what the parts of a node are. A node is found at its address: the
places, among the parts of one node after the other, of the one to go to next. Equal nodes may stand at
several addresses.

* `Listing`: a list that goes through a forest, each node before its parts;
* `nodeAt?`, `treeAt?`: what stands at an address;
* `InOrder`: a list of what stands at all addresses, in the order of these;
* `Listing.inOrder`, `InOrder.unique`: every listing is such a list, and there is only one;
* `Within`, `Below`, `Innermost`: standing somewhere inside;
* `Listing.mem_iff`, `Listing.last`: what is listed, and what is innermost in it.
-/

namespace LanguageServer

variable {α : Type} {parts others : α → List α} {a b : α} {roots trees nodes list : List α}

/-- A list that goes through a forest: every node comes before its parts, and these before the next tree. -/
inductive Listing (parts : α → List α) : List α → List α → Prop
  | nil : Listing parts [] []
  | cons {a : α} {roots inner outer : List α} : Listing parts (parts a) inner →
      Listing parts roots outer → Listing parts (a :: roots) (a :: (inner ++ outer))

/-- What stands at an address in a tree. -/
def nodeAt? (parts : α → List α) (a : α) : List Nat → Option α
  | [] => some a
  | i :: address => (parts a)[i]?.bind fun b => nodeAt? parts b address

/-- What stands at an address in a forest. -/
def treeAt? (parts : α → List α) (roots : List α) : List Nat → Option α
  | [] => none
  | i :: address => roots[i]?.bind fun a => nodeAt? parts a address

/-- A list holds what stands at all addresses, each of them once and in their order: first that of a node,
then those of its parts, and the parts one after the other. -/
def InOrder (find : List Nat → Option α) (nodes : List α) : Prop :=
  ∃ addresses : List (List Nat), addresses.Pairwise (· < ·) ∧
    (∀ address, address ∈ addresses ↔ (find address).isSome = true) ∧
    addresses.map find = nodes.map some

/-! ### Listings -/

namespace Listing

/-- The listing of a single tree. -/
theorem tree (inner : Listing parts (parts a) nodes) : Listing parts [a] (a :: nodes) := by
  have whole := inner.cons .nil
  rwa [List.append_nil] at whole

/-- Two forests side by side. -/
theorem append (first : Listing parts roots nodes) (second : Listing parts trees list) :
    Listing parts (roots ++ trees) (nodes ++ list) := by
  induction first with
  | nil => exact second
  | @cons a roots inner outer below _ _ ih =>
    show Listing parts (a :: (roots ++ trees)) (a :: (inner ++ outer ++ list))
    rw [List.append_assoc]
    exact below.cons ih

/-- Only the parts of the nodes that are listed matter. -/
theorem congr (listing : Listing parts roots nodes) (same : ∀ a ∈ nodes, parts a = others a) :
    Listing others roots nodes := by
  induction listing with
  | nil => exact .nil
  | @cons a roots inner outer _ _ ihInner ihOuter =>
    refine .cons ?_ (ihOuter fun b hb => same b (by simp [hb]))
    rw [← same a (by simp)]
    exact ihInner fun b hb => same b (by simp [hb])

/-- A forest of trees that can be listed can be listed. -/
theorem exists_of_trees (each : ∀ a ∈ roots, ∃ nodes, Listing parts [a] nodes) :
    ∃ nodes, Listing parts roots nodes := by
  induction roots with
  | nil => exact ⟨[], .nil⟩
  | cons a roots ih =>
    obtain ⟨first, hfirst⟩ := each a (by simp)
    obtain ⟨rest, hrest⟩ := ih fun b hb => each b (by simp [hb])
    exact ⟨first ++ rest, hfirst.append hrest⟩

/-- A tree whose parts are smaller than the whole, and so on, can be listed. -/
theorem exists_of_measure (measure : α → Nat) (smaller : ∀ a, ∀ b ∈ parts a, measure b < measure a)
    (a : α) : ∃ nodes, Listing parts [a] nodes := by
  induction size : measure a using Nat.strong_induction_on generalizing a with
  | _ n ih =>
    have each : ∀ b ∈ parts a, ∃ nodes, Listing parts [b] nodes := fun b hb =>
      ih (measure b) (size ▸ smaller a b hb) b rfl
    obtain ⟨inner, hinner⟩ := exists_of_trees each
    exact ⟨a :: inner, hinner.tree⟩

/-- A listing of some of the roots and of some of the parts leaves nodes out. -/
theorem sublist (less : ∀ a, (parts a).Sublist (others a)) (some : Listing parts roots nodes) :
    ∀ {trees list : List α}, roots.Sublist trees → Listing others trees list → nodes.Sublist list := by
  induction some with
  | nil => exact fun _ _ => List.nil_sublist _
  | @cons a roots inner outer _ _ ihInner ihOuter =>
    intro trees list fewer all
    induction all with
    | nil => cases fewer
    | @cons b trees inside outside below _ _ ih =>
      cases fewer with
      | cons _ fewer =>
        exact (ih fewer).trans <|
          (List.sublist_append_right inside outside).trans (List.sublist_cons_self b _)
      | cons_cons _ fewer =>
        exact ((ihInner (less a) below).append (ihOuter fewer ‹_›)).cons_cons a

/-- If nothing is left out, the nodes that are listed have all their parts. -/
theorem parts_eq (less : ∀ a, (parts a).Sublist (others a)) (some : Listing parts roots nodes) :
    ∀ {trees : List α}, roots.Sublist trees → Listing others trees nodes →
      roots = trees ∧ ∀ a ∈ nodes, parts a = others a := by
  induction some with
  | nil =>
    intro trees _ all
    cases all
    exact ⟨rfl, fun a ha => absurd ha List.not_mem_nil⟩
  | @cons a roots inner outer hinner houter ihInner ihOuter =>
    intro trees fewer all
    generalize whole : a :: (inner ++ outer) = list at all
    cases all with
    | nil => cases whole
    | @cons b trees inside outside below after =>
      obtain ⟨rfl, split⟩ := List.cons.inj whole
      have rest : roots.Sublist trees := List.cons_sublist_cons.1 fewer
      have inner_le := (hinner.sublist less (less a) below).length_le
      have outer_le := (houter.sublist less rest after).length_le
      have total := congrArg List.length split
      rw [List.length_append, List.length_append] at total
      obtain ⟨rfl, rfl⟩ := List.append_inj split (by omega)
      obtain ⟨sameParts, hinner'⟩ := ihInner (less a) below
      obtain ⟨sameRoots, houter'⟩ := ihOuter rest after
      refine ⟨by rw [sameRoots], fun c hc => ?_⟩
      rcases List.mem_cons.1 hc with rfl | hc
      · exact sameParts
      · exact (List.mem_append.1 hc).elim (hinner' c) (houter' c)

end Listing

/-! ### Addresses -/

namespace InOrder

/-- Addresses are listed in one way only. -/
theorem unique {find : List Nat → Option α} (h : InOrder find nodes) (h' : InOrder find list) :
    nodes = list := by
  obtain ⟨addresses, sorted, mem, found⟩ := h
  obtain ⟨addresses', sorted', mem', found'⟩ := h'
  have same : addresses = addresses' :=
    sorted.eq_of_mem_iff sorted' fun address => (mem address).trans (mem' address).symm
  subst same
  exact List.map_injective_iff.2 (Option.some_injective α) (found.symm.trans found')

/-- The empty address comes before those in the parts. -/
theorem node (inner : InOrder (treeAt? parts (parts a)) nodes) :
    InOrder (nodeAt? parts a) (a :: nodes) := by
  obtain ⟨addresses, sorted, mem, found⟩ := inner
  have same : ∀ address ∈ addresses, nodeAt? parts a address = treeAt? parts (parts a) address := by
    intro address h
    cases address with
    | nil => exact absurd ((mem []).1 h) Bool.false_ne_true
    | cons i address => rfl
  refine ⟨[] :: addresses, List.pairwise_cons.2 ⟨fun address h => ?_, sorted⟩, fun address => ?_, ?_⟩
  · cases address with
    | nil => exact absurd ((mem []).1 h) Bool.false_ne_true
    | cons i address => exact List.nil_lt_cons i address
  · cases address with
    | nil => simp [nodeAt?]
    | cons i address => rw [List.mem_cons, or_iff_right (List.cons_ne_nil i address), mem]; rfl
  · rw [List.map_cons, List.map_cons, List.map_congr_left same, found]
    rfl

/-- The address of a node if one more tree stands before the others. -/
def later : List Nat → List Nat
  | [] => []
  | i :: address => (i + 1) :: address

theorem treeAt?_later (address : List Nat) :
    treeAt? parts (a :: roots) (later address) = treeAt? parts roots address := by
  cases address <;> rfl

theorem later_lt_later {address address' : List Nat} (h : address < address') :
    later address < later address' := by
  cases address <;> cases address' <;> simp_all [later, List.cons_lt_cons_iff]

/-- The addresses in the first tree come before those in the others. -/
theorem cons (first : InOrder (nodeAt? parts a) nodes) (rest : InOrder (treeAt? parts roots) list) :
    InOrder (treeAt? parts (a :: roots)) (nodes ++ list) := by
  obtain ⟨addresses, sorted, mem, found⟩ := first
  obtain ⟨addresses', sorted', mem', found'⟩ := rest
  have nonempty : [] ∉ addresses' := fun h => absurd ((mem' []).1 h) Bool.false_ne_true
  refine ⟨addresses.map (0 :: ·) ++ addresses'.map later, ?_, fun address => ?_, ?_⟩
  · refine List.pairwise_append.2 ⟨?_, ?_, ?_⟩
    · exact List.pairwise_map.2 <| sorted.imp fun h => List.cons_lt_cons_iff.2 (Or.inr ⟨rfl, h⟩)
    · exact List.pairwise_map.2 (sorted'.imp later_lt_later)
    · intro x hx y hy
      obtain ⟨address, -, rfl⟩ := List.mem_map.1 hx
      obtain ⟨address', h', rfl⟩ := List.mem_map.1 hy
      cases address' with
      | nil => exact absurd h' nonempty
      | cons i address' => exact List.cons_lt_cons_iff.2 (Or.inl (Nat.succ_pos i))
  · rw [List.mem_append, List.mem_map, List.mem_map]
    constructor
    · rintro (⟨address, h, rfl⟩ | ⟨address, h, rfl⟩)
      · exact (mem address).1 h
      · rw [treeAt?_later]
        exact (mem' address).1 h
    · intro h
      match address, h with
      | 0 :: address, h => exact Or.inl ⟨address, (mem address).2 h, rfl⟩
      | (i + 1) :: address, h => exact Or.inr ⟨i :: address, (mem' (i :: address)).2 h, rfl⟩
  · rw [List.map_append, List.map_append, List.map_map, List.map_map, ← found, ← found']
    congr 1
    exact List.map_congr_left fun address _ => treeAt?_later address

end InOrder

/-- A listing of a forest holds what stands at its addresses. -/
theorem Listing.inOrder (listing : Listing parts roots nodes) : InOrder (treeAt? parts roots) nodes := by
  induction listing with
  | nil => exact ⟨[], .nil, fun address => by cases address <;> simp [treeAt?], rfl⟩
  | cons _ _ ihInner ihOuter => exact ihInner.node.cons ihOuter

/-- A listing of a tree holds what stands at its addresses. -/
theorem Listing.inOrder_tree (listing : Listing parts [a] nodes) : InOrder (nodeAt? parts a) nodes := by
  cases listing with
  | cons inner outer =>
    cases outer
    rw [List.append_nil]
    exact inner.inOrder.node

/-! ### Standing inside -/

/-- A node is another one or stands somewhere inside it. -/
def Within (parts : α → List α) (outer inner : α) : Prop :=
  Relation.ReflTransGen (fun a b => b ∈ parts a) outer inner

/-- A node stands somewhere inside another one. -/
def Below (parts : α → List α) (outer inner : α) : Prop :=
  Relation.TransGen (fun a b => b ∈ parts a) outer inner

/-- A node has a property, and nothing inside it does. -/
structure Innermost (parts : α → List α) (p : α → Bool) (a : α) : Prop where
  here : p a = true
  nowhere_below : ∀ b, Below parts a b → p b = false

namespace Listing

variable {before after : List α}

/-- Right after a node come its parts, with everything inside them. -/
theorem split (listing : Listing parts roots nodes) (h : nodes = before ++ a :: after) :
    ∃ inner, Listing parts (parts a) inner ∧ inner <+: after := by
  induction listing generalizing before after with
  | nil => simp at h
  | @cons b roots inner outer hinner _ ihInner ihOuter =>
    cases before with
    | nil =>
      obtain ⟨rfl, rfl⟩ := List.cons.inj h
      exact ⟨inner, hinner, List.prefix_append inner outer⟩
    | cons _ before =>
      obtain ⟨-, h⟩ := List.cons.inj h
      rcases List.append_eq_append_iff.1 h with ⟨gap, -, inOuter⟩ | ⟨gap, inInner, rest⟩
      · exact ihOuter inOuter
      · cases gap with
        | nil => exact ihOuter (show outer = [] ++ a :: after from rest.symm)
        | cons c gap =>
          obtain ⟨rfl, rfl⟩ := List.cons.inj rest
          obtain ⟨found, hfound, first⟩ := ihInner inInner
          exact ⟨found, hfound, first.trans (List.prefix_append gap outer)⟩

theorem subset (listing : Listing parts roots nodes) : roots ⊆ nodes := by
  induction listing with
  | nil => exact List.nil_subset _
  | cons _ _ _ ih => exact List.cons_subset_cons _ fun _ hb => List.mem_append_right _ (ih hb)

theorem mem_of_within (listing : Listing parts roots nodes) (ha : a ∈ nodes)
    (within : Within parts a b) : b ∈ nodes := by
  induction within with
  | refl => exact ha
  | tail _ part ih =>
    obtain ⟨before, after, split⟩ := List.append_of_mem ih
    obtain ⟨inner, hinner, first⟩ := listing.split split
    rw [split]
    exact List.mem_append_right _ (List.mem_cons_of_mem _ (first.subset (hinner.subset part)))

/-- What is listed is what stands in the trees. -/
theorem mem_iff (listing : Listing parts roots nodes) :
    b ∈ nodes ↔ ∃ a ∈ roots, Within parts a b := by
  constructor
  · intro hb
    induction listing with
    | nil => cases hb
    | @cons a roots inner outer _ _ ihInner ihOuter =>
      rcases List.mem_cons.1 hb with rfl | hb
      · exact ⟨b, by simp, .refl⟩
      · rcases List.mem_append.1 hb with hb | hb
        · obtain ⟨c, part, within⟩ := ihInner hb
          exact ⟨a, by simp, .head part within⟩
        · obtain ⟨c, hc, within⟩ := ihOuter hb
          exact ⟨c, by simp [hc], within⟩
  · rintro ⟨a, ha, within⟩
    exact listing.mem_of_within (listing.subset ha) within

/-- What stands inside a node comes after it. -/
theorem mem_after (listing : Listing parts roots nodes) (h : nodes = before ++ a :: after)
    (below : Below parts a b) : b ∈ after := by
  obtain ⟨inner, hinner, first⟩ := listing.split h
  obtain ⟨c, part, within⟩ := Relation.TransGen.head'_iff.1 below
  exact first.subset (hinner.mem_iff.2 ⟨c, part, within⟩)

/-- The last node with a property is an innermost one. -/
theorem last (listing : Listing parts roots nodes) {p : α → Bool}
    (found : nodes.reverse.find? p = some a) : a ∈ nodes ∧ Innermost parts p a := by
  obtain ⟨here, further, around, split, silent⟩ := List.find?_eq_some_iff_append.1 found
  have listed : nodes = around.reverse ++ a :: further.reverse := by
    rw [← List.reverse_reverse nodes, split, List.reverse_append, List.reverse_cons,
      List.append_assoc, List.singleton_append]
  refine ⟨listed ▸ by simp, here, fun b below => ?_⟩
  have behind := List.mem_reverse.1 (listing.mem_after listed below)
  simpa using silent b behind

end Listing

end LanguageServer
