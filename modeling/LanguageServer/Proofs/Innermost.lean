import LanguageServer.Proofs.Describing
import LanguageServer.Proofs.Walking

/-!
# What is innermost under a position

Statements are searched through a list of all of them, and nodes through a walk of one statement. Both lists
are in pre-order, and the last of those that qualify is taken, so that nothing inside it does. Spans need not
be nested for that.

* `SourceFile.Has`, `Statement.Has`: what stands in a file and in a statement;
* `Statement.listing_nested`: the list of the statements is in pre-order;
* `Node.refersAt`, `referenceAt?_eq`: the search for a reference as one search through the walk;
* `lookups_innermost`: what both searches find, and when they find nothing.
-/

namespace LanguageServer

variable {file : SourceFile} {p : Position} {st : Statement} {node : Node}

/-! ### Statements -/

/-- A statement stands in a file: at its top or in the body of a function, or inside another one. -/
def SourceFile.Has (file : SourceFile) (st : Statement) : Prop :=
  ∃ root ∈ file.roots, Within Statement.inner root st

namespace Statement

theorem nested_eq (s : Statement) : s.nested = s :: nestedOf s.inner := by
  cases s with
  | branch _ _ _ otherwise _ => cases otherwise <;> simp [nested, inner, nestedOf, nestedIf]
  | _ => simp [nested, inner, nestedOf]

theorem listing_nestedOf {ss : List Statement} (each : ∀ s ∈ ss, Listing inner [s] s.nested) :
    Listing inner ss (nestedOf ss) := by
  induction ss with
  | nil => exact .nil
  | cons s ss ih => exact (each s (by simp)).append (ih fun t ht => each t (by simp [ht]))

/-- The list of the statements in a statement is in pre-order. -/
theorem listing_nested (s : Statement) : Listing inner [s] s.nested := by
  rw [s.nested_eq]
  exact .tree (listing_nestedOf fun t ht => t.listing_nested)
termination_by sizeOf s
decreasing_by exact sizeOf_lt_of_mem_inner ht

end Statement

/-- The list of the statements of a file is in pre-order. -/
theorem SourceFile.listing (file : SourceFile) : Listing Statement.inner file.roots file.allStatements :=
  Statement.listing_nestedOf fun s _ => s.listing_nested

theorem SourceFile.mem_allStatements : st ∈ file.allStatements ↔ file.Has st :=
  file.listing.mem_iff

theorem statementAt?_eq_none :
    statementAt? file p = none ↔ ∀ st, file.Has st → st.range.contains p = false := by
  simp only [statementAt?, List.find?_eq_none, List.mem_reverse, SourceFile.mem_allStatements,
    Bool.not_eq_true]

theorem innermost_of_statementAt? (found : statementAt? file p = some st) :
    file.Has st ∧ Innermost Statement.inner (·.range.contains p) st := by
  obtain ⟨listed, innermost⟩ := file.listing.last found
  exact ⟨SourceFile.mem_allStatements.1 listed, innermost⟩

/-! ### Nodes -/

/-- A node stands in a statement: it is that statement itself, or it is reached from there by a walk. -/
def Statement.Has (st : Statement) (node : Node) : Prop := Within Node.children st.node node

/-- Whether a position is in the span of a node and in the part that means the node itself, and the node has
a reference. -/
def Node.refersAt (p : Position) (node : Node) : Bool :=
  node.range.contains p && node.interactiveRange.contains p && node.reference?.isSome

theorem Statement.mem_descendants : node ∈ st.descendants ↔ st.Has node := by
  simp only [st.listing.mem_iff, List.mem_singleton, exists_eq_left, Statement.Has]

/-- The search for a reference is a search through the walk of the statement that is found. -/
theorem referenceAt?_eq (file : SourceFile) (p : Position) :
    referenceAt? file p = (statementAt? file p).bind fun st =>
      (st.descendants.reverse.find? (·.refersAt p)).bind fun node => node.reference?.map (node, ·) := by
  rw [referenceAt?, findSome?_eq_bind_find?, nodesAt]
  cases statementAt? file p with
  | none => rfl
  | some st =>
    rw [← List.filter_reverse, List.find?_filter, Option.bind_some]
    simp only [Option.isSome_map, Node.refersAt, Bool.decide_and, Bool.decide_eq_true]

theorem innermost_of_referenceAt? {r : Reference} (found : referenceAt? file p = some (node, r)) :
    ∃ st, statementAt? file p = some st ∧ st.Has node ∧ node.reference? = some r ∧
      Innermost Node.children (·.refersAt p) node := by
  rw [referenceAt?_eq] at found
  obtain ⟨st, within, found⟩ := Option.bind_eq_some_iff.1 found
  obtain ⟨node', last, found⟩ := Option.bind_eq_some_iff.1 found
  obtain ⟨r', reference, same⟩ := Option.map_eq_some_iff.1 found
  obtain ⟨rfl, rfl⟩ := Prod.mk.inj same
  obtain ⟨listed, innermost⟩ := st.listing.last last
  exact ⟨st, within, Statement.mem_descendants.1 listed, reference, innermost⟩

theorem referenceAt?_eq_none : referenceAt? file p = none ↔
    ∀ st node, statementAt? file p = some st → st.Has node → node.refersAt p = false := by
  rw [referenceAt?_eq]
  constructor
  · intro nothing st node within has
    rw [within, Option.bind_some] at nothing
    cases last : st.descendants.reverse.find? (·.refersAt p) with
    | none =>
      have none := List.find?_eq_none.1 last node (List.mem_reverse.2 (Statement.mem_descendants.2 has))
      exact Bool.eq_false_iff.2 none
    | some m =>
      -- the node that is found has a reference, so that something would be answered
      have here := List.find?_some (p := Node.refersAt p) last
      rw [last, Option.bind_some, Option.map_eq_none_iff] at nothing
      simp [Node.refersAt, nothing] at here
  · intro silent
    cases within : statementAt? file p with
    | none => rfl
    | some st =>
      have none : st.descendants.reverse.find? (·.refersAt p) = none := by
        refine List.find?_eq_none.2 fun node hnode => ?_
        have has := Statement.mem_descendants.1 (List.mem_reverse.1 hnode)
        exact Bool.eq_false_iff.1 (silent st node within has)
      rw [Option.bind_some, none]
      rfl

/-! ### Both searches -/

/-- **What lies under a position is innermost.** No statement is found exactly if none of the file contains
the position. The one that is found is of the file, contains the position, and none inside it does. The
node that is found for its reference is of that statement, the position is in its span and in the part that
means it, and no node inside it has all three. None is found exactly if no node of the statement has. -/
theorem lookups_innermost (file : SourceFile) (p : Position) :
    (statementAt? file p = none ↔ ∀ st, file.Has st → st.range.contains p = false) ∧
    (∀ st, statementAt? file p = some st →
      file.Has st ∧ Innermost Statement.inner (·.range.contains p) st) ∧
    (∀ node r, referenceAt? file p = some (node, r) →
      ∃ st, statementAt? file p = some st ∧ st.Has node ∧ node.reference? = some r ∧
        Innermost Node.children (·.refersAt p) node) ∧
    (referenceAt? file p = none ↔
      ∀ st node, statementAt? file p = some st → st.Has node → node.refersAt p = false) :=
  ⟨statementAt?_eq_none, fun _ => innermost_of_statementAt?, fun _ _ => innermost_of_referenceAt?,
    referenceAt?_eq_none⟩

/-- Where two statements touch, the later one is found. -/
example :
    let missing (start stop : Nat) : Statement := .expr (.missing ⟨⟨⟨0, start⟩, ⟨0, stop⟩⟩, none⟩)
    (statementAt? { statements := [missing 0 4, missing 4 9] } ⟨0, 4⟩).map (·.range) =
      some ⟨⟨0, 4⟩, ⟨0, 9⟩⟩ := rfl

end LanguageServer
