import LanguageServer.Protocol.Answer
import Mathlib.Data.List.Chain

/-!
# Which explanations are shown on their own

A problem is explained by others, which have explanations too. One that stands at the place of the problem
that it explains is part of the message of that problem; one that stands apart is to be shown at its own
place. What is listed in a file goes down from the problems as long as every explanation stands apart, so an
explanation that is below one at the place of its problem is not reached.

* `Diagnostic.Node`, `Diagnostic.nodes`: the problems of a tree in order, with those above them;
* `Node.StandsApart`, `Node.Reached`: apart from what it explains, and reached from the root;
* `Diagnostic.allInFile_eq`: what is listed;
* `problems_complete_iff`: when all that stand apart are listed.
-/

namespace LanguageServer

namespace Diagnostic

variable {file : Uri}

/-! ### Trees of problems -/

/-- A problem in a tree, with those above it: what it explains first, and the root last. -/
structure Node where
  problem : Diagnostic
  above : List Diagnostic

mutual

/-- A problem and its explanations, in pre-order. -/
def nodes (above : List Diagnostic) : Diagnostic → List Node
  | ⟨level, message, range, file, explanations⟩ =>
    ⟨⟨level, message, range, file, explanations⟩, above⟩ ::
      nodesOf (⟨level, message, range, file, explanations⟩ :: above) explanations

/-- The nodes of a forest, in pre-order. -/
def nodesOf (above : List Diagnostic) : List Diagnostic → List Node
  | [] => []
  | d :: ds => nodes above d ++ nodesOf above ds

end

/-- Two problems in different files, or at different spans. -/
def Apart (d e : Diagnostic) : Prop := d.file ≠ e.file ∨ d.range ≠ e.range

instance (d e : Diagnostic) : Decidable (Apart d e) :=
  inferInstanceAs (Decidable (d.file ≠ e.file ∨ d.range ≠ e.range))

namespace Node

/-- A root, or an explanation at another place than what it explains. -/
def StandsApart (n : Node) : Prop := ∀ parent ∈ n.above.head?, n.problem.Apart parent

/-- A problem that stands apart, as all do that are above it. -/
def Reached (n : Node) : Prop := (n.problem :: n.above).IsChain Apart

instance (n : Node) : Decidable n.StandsApart :=
  inferInstanceAs (Decidable (∀ parent ∈ n.above.head?, n.problem.Apart parent))

instance (n : Node) : Decidable n.Reached :=
  inferInstanceAs (Decidable ((n.problem :: n.above).IsChain Apart))

variable {n : Node}

theorem reached_iff : n.Reached ↔ n.StandsApart ∧ n.above.IsChain Apart := List.isChain_cons

end Node

variable {n : Node}

mutual

/-- Below a problem are only nodes that have it and all above it above them. -/
theorem suffix_of_mem_nodes (above : List Diagnostic) :
    ∀ d : Diagnostic, n ∈ nodes above d → d :: above <:+ n.problem :: n.above
  | ⟨_, _, _, _, explanations⟩, h => by
    rcases List.mem_cons.1 h with rfl | below
    · exact List.suffix_rfl
    · exact suffix_of_mem_nodesOf _ explanations below

theorem suffix_of_mem_nodesOf (above : List Diagnostic) :
    ∀ ds : List Diagnostic, n ∈ nodesOf above ds → above <:+ n.problem :: n.above
  | d :: ds, h => by
    rcases List.mem_append.1 h with first | later
    · exact (List.suffix_cons d above).trans (suffix_of_mem_nodes above d first)
    · exact suffix_of_mem_nodesOf above ds later

end

theorem nodesOf_nil_eq (ds : List Diagnostic) : nodesOf [] ds = ds.flatMap (nodes []) := by
  induction ds with
  | nil => rfl
  | cons d ds ih => rw [nodesOf, ih, List.flatMap_cons]

/-! ### What is listed -/

/-- The problems of some nodes that are in a file and are reached. -/
def reachedIn (file : Uri) (ns : List Node) : List Diagnostic :=
  (ns.filter fun n => n.problem.file = some file ∧ n.Reached).map (·.problem)

theorem reachedIn_append (file : Uri) (ns ms : List Node) :
    reachedIn file (ns ++ ms) = reachedIn file ns ++ reachedIn file ms := by
  rw [reachedIn, List.filter_append, List.map_append]
  rfl

theorem reachedIn_cons {d : Diagnostic} {above : List Diagnostic}
    (reached : (d :: above).IsChain Apart) (file : Uri) (ns : List Node) :
    reachedIn file (⟨d, above⟩ :: ns) =
      (if d.file == some file then [d] else []) ++ reachedIn file ns := by
  by_cases own : d.file = some file <;> simp [reachedIn, Node.Reached, own, reached]

/-- Nothing is reached below an explanation that stands at the place of its problem. -/
theorem reachedIn_nodes_of_not_apart {d parent : Diagnostic} (same : ¬ d.Apart parent)
    (above : List Diagnostic) : reachedIn file (nodes (parent :: above) d) = [] := by
  have none : (nodes (parent :: above) d).filter
      (fun n => n.problem.file = some file ∧ n.Reached) = [] := by
    rw [List.filter_eq_nil_iff]
    intro n hn reached
    have chain : (d :: parent :: above).IsChain Apart :=
      (of_decide_eq_true reached).2.suffix (suffix_of_mem_nodes _ d hn)
    exact same (List.isChain_cons_cons.1 chain).1
  rw [reachedIn, none, List.map_nil]

mutual

/-- Below a problem that is reached, what is listed is what is reached. -/
theorem inFile_eq (file : Uri) (above : List Diagnostic) :
    ∀ d : Diagnostic, (d :: above).IsChain Apart → inFile file d = reachedIn file (nodes above d)
  | ⟨level, message, range, own, explanations⟩, reached => by
    rw [inFile, nodes, reachedIn_cons reached]
    congr 1
    exact explanationsInFile_eq file above ⟨level, message, range, own, explanations⟩ reached
      explanations

theorem explanationsInFile_eq (file : Uri) (above : List Diagnostic) (parent : Diagnostic)
    (reached : (parent :: above).IsChain Apart) :
    ∀ ds : List Diagnostic, explanationsInFile file parent.range parent.file ds =
      reachedIn file (nodesOf (parent :: above) ds)
  | [] => rfl
  | d :: ds => by
    rw [explanationsInFile, nodesOf, reachedIn_append,
      explanationsInFile_eq file above parent reached ds]
    congr 1
    by_cases apart : d.Apart parent
    · have elsewhere : (d.range != parent.range || d.file != parent.file) = true := by
        simpa [Apart, or_comm] using apart
      rw [if_pos elsewhere]
      exact inFile_eq file (parent :: above) d (List.isChain_cons_cons.2 ⟨apart, reached⟩)
    · have same : ¬ (d.range != parent.range || d.file != parent.file) = true := by
        simpa [Apart, or_comm] using apart
      rw [if_neg same, reachedIn_nodes_of_not_apart apart]

end

/-- In a file are listed, in pre-order, the problems that are reached. -/
theorem allInFile_eq (file : Uri) (ds : List Diagnostic) :
    allInFile file ds = reachedIn file (nodesOf [] ds) := by
  rw [nodesOf_nil_eq, allInFile]
  induction ds with
  | nil => rfl
  | cons d ds ih =>
    rw [List.flatMap_cons, List.flatMap_cons, reachedIn_append, ih,
      inFile_eq file [] d (List.isChain_singleton d)]

end Diagnostic

open Diagnostic

/-- **Which explanations are listed.** The problems that stand apart in a file are listed in pre-order, each
of them once, and nothing else is, exactly if none of them is below an explanation that stands at the place
of what it explains. -/
theorem problems_complete_iff (file : Uri) (ds : List Diagnostic) :
    problemsIn file ds =
        ((nodesOf [] ds).filter fun n => n.problem.file = some file ∧ n.StandsApart).map
          (·.problem.toProblem file) ↔
      ∀ n ∈ nodesOf [] ds, n.problem.file = some file → n.StandsApart → n.above.IsChain Apart := by
  rw [problemsIn, allInFile_eq, reachedIn, List.map_map]
  constructor
  · intro complete n hn own apart
    have sublist : ((nodesOf [] ds).filter fun n => n.problem.file = some file ∧ n.Reached).Sublist
        ((nodesOf [] ds).filter fun n => n.problem.file = some file ∧ n.StandsApart) :=
      List.monotone_filter_right _ fun n h => by
        simp only [decide_eq_true_eq] at h ⊢
        exact ⟨h.1, (Node.reached_iff.1 h.2).1⟩
    have count := congrArg List.length complete
    rw [List.length_map, List.length_map] at count
    have mem : n ∈ (nodesOf [] ds).filter fun n => n.problem.file = some file ∧ n.StandsApart :=
      List.mem_filter.2 ⟨hn, decide_eq_true ⟨own, apart⟩⟩
    rw [← sublist.eq_of_length count] at mem
    exact (Node.reached_iff.1 (of_decide_eq_true (List.mem_filter.1 mem).2).2).2
  · intro above
    congr 1
    refine List.filter_congr fun n hn => decide_eq_decide.2 (and_congr_right fun own => ?_)
    rw [Node.reached_iff, and_iff_left_iff_imp]
    exact above n hn own

/-! ### Explanations below explanations -/

namespace Sample

/-- A note at the first columns of a line. -/
def note (message : String) (line : Nat) (file : Uri) (explanations : List Diagnostic) : Diagnostic :=
  ⟨.error, message, ⟨⟨line, 0⟩, ⟨line, 3⟩⟩, some file, explanations⟩

/-- A wrong call, explained by the declaration in another file, which is explained at its own place. -/
def wrongCall : Diagnostic :=
  note "Wrong call" 4 ⟨"file:///p/main.bbc"⟩
    [note "declared here" 0 ⟨"file:///p/lib.bbc"⟩ [note "expected int" 0 ⟨"file:///p/lib.bbc"⟩ []]]

/-- A mismatch, explained at its own place, and this by the declaration in another file. -/
def mismatch : Diagnostic :=
  note "Type mismatch" 4 ⟨"file:///p/main.bbc"⟩
    [note "expected int" 4 ⟨"file:///p/main.bbc"⟩ [note "declared here" 0 ⟨"file:///p/lib.bbc"⟩ []]]

end Sample

open Sample in
/-- The case of an explanation in another file that is explained at its own place. -/
theorem explanation_in_other_file_listed :
    (∀ n ∈ nodesOf [] [wrongCall], n.problem.file = some ⟨"file:///p/lib.bbc"⟩ → n.StandsApart →
        n.above.IsChain Apart) ∧
      (problemsIn ⟨"file:///p/lib.bbc"⟩ [wrongCall]).map (·.message) =
        ["declared here\n -> expected int"] := by
  have reached : ∀ n ∈ nodesOf [] [wrongCall], n.problem.file = some ⟨"file:///p/lib.bbc"⟩ →
      n.StandsApart → n.above.IsChain Apart := by decide +kernel
  refine ⟨reached, ?_⟩
  rw [(problems_complete_iff _ _).2 reached]
  decide +kernel

open Sample in
/-- An explanation in another file, below one at the place of its problem, is not listed. -/
theorem explanation_below_same_place_lost :
    ((nodesOf [] [mismatch]).filter fun n =>
        n.problem.file = some ⟨"file:///p/lib.bbc"⟩ ∧ n.StandsApart).map (·.problem.message) =
      ["declared here"] ∧
    problemsIn ⟨"file:///p/lib.bbc"⟩ [mismatch] = [] := by
  decide +kernel

end LanguageServer
