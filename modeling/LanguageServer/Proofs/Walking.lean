import LanguageServer.Proofs.Preorder
import LanguageServer.Syntax.Parts

/-!
# What a walk lists

* `Expr.listing`, `Statement.listing`: a walk lists its nodes in pre-order;
* `Node.children_eq_parts_iff`: nothing stands aside in a node;
* `walk_complete_iff`: when a walk lists everything that stands in a statement.
-/

namespace LanguageServer

/-! ### Parts -/

namespace Piece

theorem filterMap_main?_sublist (pieces : List Piece) :
    (pieces.filterMap main?).Sublist (pieces.map node) := by
  induction pieces with
  | nil => exact .refl _
  | cons piece pieces ih =>
    cases piece with
    | main n => exact ih.cons_cons n
    | aside e => exact ih.cons (.expr e)

/-- Every part is a node of the walk or stands aside. -/
theorem length_filterMap (pieces : List Piece) :
    (pieces.filterMap main?).length + (pieces.filterMap aside?).length = (pieces.map node).length := by
  induction pieces with
  | nil => rfl
  | cons piece pieces ih =>
    simp only [List.length_map] at ih
    cases piece with
    | main n =>
      show (n :: pieces.filterMap main?).length + (pieces.filterMap aside?).length = _
      simp only [List.map_cons, List.length_cons, List.length_map]
      omega
    | aside e =>
      show (pieces.filterMap main?).length + (e :: pieces.filterMap aside?).length = _
      simp only [List.map_cons, List.length_cons, List.length_map]
      omega

end Piece

namespace Node

variable {n : Node}

theorem children_expr (e : Expr) : (Node.expr e).children = e.operands.map .expr := by
  show e.pieces.filterMap (·.main?) = _
  unfold Expr.pieces
  split <;> simp [Piece.main?]

theorem children_statement (s : Statement) :
    (Node.statement s).children = s.operands.map .expr ++ s.inner.map Statement.node := by
  simp [children, pieces, Statement.pieces, Piece.main?]

theorem children_sublist (n : Node) : n.children.Sublist n.parts :=
  Piece.filterMap_main?_sublist n.pieces

/-- Everything that stands in a node is a node of the walk exactly if nothing stands aside. -/
theorem children_eq_parts_iff : n.children = n.parts ↔ n.asides = [] := by
  have count : n.children.length + n.asides.length = n.parts.length := Piece.length_filterMap n.pieces
  constructor
  · intro same
    rw [same] at count
    exact List.length_eq_zero_iff.1 (by omega)
  · intro none
    rw [none, List.length_nil] at count
    exact n.children_sublist.eq_of_length count

end Node

/-! ### Everything is finite -/

theorem Expr.sizeOf_lt_of_mem_operands {a : Expr} :
    ∀ e : Expr, a ∈ e.operands → sizeOf a < sizeOf e
  | .int _ _, h | .float _ _, h | .character _ _, h | .text _ _, h | .name _ _ _, h | .new _ _ _, h
  | .missing _, h => by cases h
  | .field _ object _ _, h | .unary _ _ object _, h | .cast _ object _ _, h
  | .reinterpret _ object _ _, h => by
    obtain rfl := List.mem_singleton.1 h
    simp
    omega
  | .binary _ left _ right _, h | .index _ left right _ _, h => by
    simp only [operands, List.mem_cons, List.not_mem_nil, or_false] at h
    rcases h with rfl | rfl <;> simp <;> omega
  | .call _ callee arguments _ _ _, h => by
    simp only [call.sizeOf_spec]
    rcases List.mem_cons.1 h with rfl | h
    · omega
    · have := List.sizeOf_lt_of_mem h
      omega
  | .construct _ _ _ arguments _ _ _, h => by
    have : sizeOf a < sizeOf arguments := List.sizeOf_lt_of_mem h
    simp only [construct.sizeOf_spec]
    omega

mutual

theorem TypeSyntax.sizeOf_lt_of_mem_sizes {e : Expr} :
    ∀ t : TypeSyntax, e ∈ t.sizes → sizeOf e < sizeOf t
  | .named _ _, h | .missing _, h => by cases h
  | .applied _ arguments _, h => by
    have := sizeOf_lt_of_mem_sizesOf arguments h
    simp only [applied.sizeOf_spec]
    omega
  | .pointer target _ _, h => by
    have := sizeOf_lt_of_mem_sizes target h
    simp only [pointer.sizeOf_spec]
    omega
  | .array element size _ _ _, h => by
    simp only [array.sizeOf_spec]
    rcases List.mem_append.1 h with h | h
    · have := sizeOf_lt_of_mem_sizes element h
      omega
    · obtain rfl := Option.mem_toList.1 h
      simp only [Option.some.sizeOf_spec]
      omega
  | .function result parameters _ _, h => by
    simp only [function.sizeOf_spec]
    rcases List.mem_append.1 h with h | h
    · have := sizeOf_lt_of_mem_sizes result h
      omega
    · have := sizeOf_lt_of_mem_sizesOf parameters h
      omega

theorem TypeSyntax.sizeOf_lt_of_mem_sizesOf {e : Expr} :
    ∀ ts : List TypeSyntax, e ∈ TypeSyntax.sizesOf ts → sizeOf e < sizeOf ts
  | t :: ts, h => by
    simp only [List.cons.sizeOf_spec]
    rcases List.mem_append.1 h with h | h
    · have := sizeOf_lt_of_mem_sizes t h
      omega
    · have := sizeOf_lt_of_mem_sizesOf ts h
      omega

end

theorem Expr.sizeOf_lt_of_mem_asides {e a : Expr} (h : a ∈ e.asides) : sizeOf a < sizeOf e := by
  have inType {t : TypeSyntax} (written : e.typeSyntax? = some t) : sizeOf a < sizeOf t := by
    rw [asides, written] at h
    exact t.sizeOf_lt_of_mem_sizes h
  cases e with
  | new _ _ type | construct _ _ type _ _ _ _ | cast _ _ type _ | reinterpret _ _ _ type =>
    have := inType rfl
    simp
    omega
  | _ => cases h

namespace Statement

variable {s t : Statement} {e : Expr}

theorem sizeOf_lt_of_mem_operands (h : e ∈ s.operands) : sizeOf e < sizeOf s := by
  cases s with
  | expr e' =>
    obtain rfl := List.mem_singleton.1 h
    simp
  | «variable» d =>
    have initial : d.initial = some e := Option.mem_toList.1 h
    cases d
    simp only at initial
    simp [initial]
    omega
  | keyword _ arguments _ =>
    have : sizeOf e < sizeOf arguments := List.sizeOf_lt_of_mem h
    simp
    omega
  | block _ _ _ => cases h
  | branch _ condition _ _ _ =>
    obtain rfl : condition = some e := Option.mem_toList.1 h
    simp
    omega

theorem sizeOf_lt_of_mem_asides (h : e ∈ s.asides) : sizeOf e < sizeOf s := by
  cases s with
  | «variable» d =>
    obtain ⟨_, attributes, _, type, _, _, _, _⟩ := d
    simp only [variable.sizeOf_spec, VariableDefinition.mk.sizeOf_spec]
    rcases List.mem_append.1 h with h | h
    · obtain ⟨use, huse, he⟩ := List.mem_flatMap.1 h
      have inAttributes : sizeOf use < sizeOf attributes := List.sizeOf_lt_of_mem huse
      have inUse := List.sizeOf_lt_of_mem he
      cases use
      simp only [AttributeUse.mk.sizeOf_spec] at inAttributes
      simp only at inUse
      omega
    · have := type.sizeOf_lt_of_mem_sizes h
      omega
  | _ => cases h

theorem sizeOf_lt_of_mem_inner (h : t ∈ s.inner) : sizeOf t < sizeOf s := by
  cases s with
  | block _ body _ =>
    have : sizeOf t < sizeOf body := List.sizeOf_lt_of_mem h
    simp
    omega
  | branch _ _ body otherwise _ =>
    simp only [branch.sizeOf_spec]
    rcases List.mem_cons.1 h with rfl | h
    · omega
    · obtain rfl := Option.mem_toList.1 h
      simp
      omega
  | _ => cases h

end Statement

theorem Statement.sizeOf_node_le (s : Statement) : sizeOf s.node ≤ sizeOf s + 1 := by
  cases s <;> simp [node] <;> omega

theorem Expr.mem_pieces {e : Expr} {piece : Piece} (h : piece ∈ e.pieces) :
    ∃ a, piece.node = .expr a ∧ (a ∈ e.operands ∨ a ∈ e.asides) := by
  have kinds : piece ∈ e.operands.map (fun a => .main (.expr a)) ∨ piece ∈ e.asides.map .aside := by
    unfold pieces at h
    split at h
    · exact List.mem_append.1 h
    · exact (List.mem_append.1 h).symm
  obtain h | h := kinds <;> obtain ⟨a, ha, rfl⟩ := List.mem_map.1 h
  · exact ⟨a, rfl, Or.inl ha⟩
  · exact ⟨a, rfl, Or.inr ha⟩

/-- A part of a node is smaller than the node. -/
theorem Node.sizeOf_lt_of_mem_parts (n m : Node) (h : m ∈ n.parts) : sizeOf m < sizeOf n := by
  obtain ⟨piece, hpiece, rfl⟩ := List.mem_map.1 h
  cases n with
  | expr e =>
    obtain ⟨a, same, ha⟩ := Expr.mem_pieces hpiece
    have smaller := ha.elim (Expr.sizeOf_lt_of_mem_operands e) Expr.sizeOf_lt_of_mem_asides
    rw [same]
    simpa using smaller
  | statement s =>
    simp only [pieces, Statement.pieces, List.mem_append, List.mem_map] at hpiece
    simp only [statement.sizeOf_spec]
    obtain (⟨a, ha, rfl⟩ | ⟨a, ha, rfl⟩) | ⟨t, ht, rfl⟩ := hpiece
    · have := Statement.sizeOf_lt_of_mem_asides ha
      simp [Piece.node]
      omega
    · have := Statement.sizeOf_lt_of_mem_operands ha
      simp [Piece.node]
      omega
    · have := Statement.sizeOf_lt_of_mem_inner ht
      have := t.sizeOf_node_le
      simp only [Piece.node]
      omega

/-! ### Walks -/

/-- A walk through an expression comes to it first, and then walks through its operands. -/
theorem Expr.descendants_eq (e : Expr) : e.descendants = e :: Expr.descendantsOf e.operands := by
  cases e <;> simp [descendants, operands, descendantsOf]

/-- A walk through a list of expressions lists their nodes if a walk through each of them does. -/
theorem listing_exprNodes {es : List Expr}
    (each : ∀ e ∈ es, Listing Node.children [.expr e] (e.descendants.map .expr)) :
    Listing Node.children (es.map .expr) (exprNodes es) := by
  induction es with
  | nil => exact .nil
  | cons e es ih =>
    show Listing Node.children _ ((e.descendants ++ Expr.descendantsOf es).map .expr)
    rw [List.map_append]
    exact (each e (by simp)).append (ih fun a ha => each a (by simp [ha]))

/-- A walk through an expression lists it and everything that stands in it. -/
theorem Expr.listing (e : Expr) : Listing Node.children [.expr e] (e.descendants.map .expr) := by
  rw [e.descendants_eq, List.map_cons]
  refine .tree ?_
  rw [Node.children_expr]
  exact listing_exprNodes fun a ha => a.listing
termination_by sizeOf e
decreasing_by exact Expr.sizeOf_lt_of_mem_operands e ha

/-- A walk through a statement other than an expression comes to it first, and then walks through the
expressions and the statements in it. -/
theorem Statement.descendants_eq {s : Statement} (h : s.node = .statement s) :
    s.descendants = .statement s :: (exprNodes s.operands ++ Statement.descendantsOf s.inner) := by
  cases s with
  | expr e => cases h
  | «variable» d => simp [descendants, operands, inner, descendantsOf]
  | keyword _ arguments _ => simp [descendants, operands, inner, descendantsOf]
  | block _ body _ => simp [descendants, operands, inner, exprNodes, Expr.descendantsOf]
  | branch _ condition body otherwise _ =>
    cases otherwise <;> simp [descendants, operands, inner, descendantsOf, descendantsIf]

theorem Statement.listing_of_each {ss : List Statement}
    (each : ∀ s ∈ ss, Listing Node.children [s.node] s.descendants) :
    Listing Node.children (ss.map node) (descendantsOf ss) := by
  induction ss with
  | nil => exact .nil
  | cons s ss ih => exact (each s (by simp)).append (ih fun t ht => each t (by simp [ht]))

/-- A walk through a statement lists it and everything that stands in it. -/
theorem Statement.listing (s : Statement) : Listing Node.children [s.node] s.descendants := by
  by_cases bare : s.node = .statement s
  · rw [s.descendants_eq bare, bare]
    refine .tree ?_
    rw [Node.children_statement]
    exact (listing_exprNodes fun e _ => e.listing).append (listing_of_each fun t ht => t.listing)
  · cases s with
    | expr e => exact listing_exprNodes (List.forall_mem_singleton.2 e.listing)
    | _ => exact absurd rfl bare
termination_by sizeOf s
decreasing_by exact sizeOf_lt_of_mem_inner ht

/-! ### Complete walks -/

/-- **When a walk is complete.** A walk through a statement lists the nodes that are reached through
children, each once and in pre-order. It lists everything that stands in the statement exactly if nothing
stands aside in any of them: no size in a written type, and no parameter in an attribute. -/
theorem walk_complete_iff (s : Statement) :
    InOrder (nodeAt? Node.children s.node) s.descendants ∧
      (InOrder (nodeAt? Node.parts s.node) s.descendants ↔ ∀ n ∈ s.descendants, n.asides = []) := by
  have walk := s.listing
  refine ⟨walk.inOrder_tree, ?_, ?_⟩
  · intro complete n hn
    obtain ⟨nodes, whole⟩ := Listing.exists_of_measure sizeOf Node.sizeOf_lt_of_mem_parts s.node
    obtain rfl := complete.unique whole.inOrder_tree
    have same := (walk.parts_eq Node.children_sublist (.refl _) whole).2 n hn
    exact Node.children_eq_parts_iff.1 same
  · intro none
    have whole := walk.congr fun n hn => Node.children_eq_parts_iff.2 (none n hn)
    exact whole.inOrder_tree

namespace Sample

/-- The size of an array. -/
def four : Expr := .int ⟨⟨⟨0, 4⟩, ⟨0, 5⟩⟩, none⟩ 4

/-- The declaration `int[4] x`. -/
def sized : Statement :=
  .variable
    { file := none, attributes := [], modifiers := []
      typeSyntax := .array (.named default ⟨⟨0, 0⟩, ⟨0, 3⟩⟩) (some four) ⟨default, default⟩ none
        ⟨⟨0, 0⟩, ⟨0, 6⟩⟩
      name := default, initial := none, type := none, range := ⟨⟨0, 0⟩, ⟨0, 9⟩⟩ }

end Sample

open Sample in
/-- The size in a declaration stands in it and is not listed. -/
theorem size_not_listed :
    nodeAt? Node.parts sized.node [0] = some (.expr four) ∧ sized.descendants = [sized.node] ∧
      ¬ InOrder (nodeAt? Node.parts sized.node) sized.descendants := by
  refine ⟨rfl, rfl, ?_⟩
  rintro ⟨addresses, -, mem, found⟩
  have count : addresses.length = sized.descendants.length := by
    simpa using congrArg List.length found
  obtain ⟨address, rfl⟩ := List.length_eq_one_iff.1 count
  have whole : [] = address := List.mem_singleton.1 ((mem []).2 rfl)
  have size : [0] = address := List.mem_singleton.1 ((mem [0]).2 rfl)
  exact absurd (whole.trans size.symm) (by decide)

end LanguageServer
