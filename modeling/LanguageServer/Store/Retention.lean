import LanguageServer.Store

/-!
# Duplicates in two passes

The same as `retainLast`, with the number of items that are dropped. One pass, from the end of the list,
marks the items whose key it meets for the first time; another one, from the start, drops the others.

* `newKeys`, `keepMarks`: the marks;
* `retainMarked`, `dropRepeats`: what stays by them, and how many items do not;
* `Store.dropDuplicates`: documents and notebooks.
-/

namespace LanguageServer

variable {α κ : Type} [BEq κ] (key : α → κ)

/-- For every item, whether its key is new; some keys were seen before. -/
def newKeys (seen : List κ) : List α → List Bool
  | [] => []
  | x :: xs => (!seen.contains (key x)) :: newKeys (key x :: seen) xs

/-- For every item, whether it stays. The pass starts at the end of the list. -/
def keepMarks (xs : List α) : List Bool := (newKeys key [] xs.reverse).reverse

/-- The items that are marked, the first mark for the first item; those that have no mark stay. -/
def retainMarked : List Bool → List α → List α
  | _, [] => []
  | marks, x :: xs =>
    if marks.head?.getD true then x :: retainMarked marks.tail xs else retainMarked marks.tail xs

/-- The items that stay, and the number of those that do not. -/
def dropRepeats (xs : List α) : List α × Nat :=
  let kept := retainMarked (keepMarks key xs) xs
  (kept, xs.length - kept.length)

/-- The store with one document and one notebook per name, and how many of them were dropped. -/
def Store.dropDuplicates (s : Store) : Store × Nat :=
  let documents := dropRepeats (·.uri) s.documents
  let notebooks := dropRepeats (·.uri) s.notebooks
  ({ documents := documents.1, notebooks := notebooks.1 }, documents.2 + notebooks.2)

end LanguageServer
