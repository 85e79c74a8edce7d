import LanguageServer.Proofs.Store
import LanguageServer.Store.Retention

/-!
# The last item of every key stays

Marks are made from the end of the list and read from its start, and still every item meets its own mark:
it says whether the key of the item comes up again after it.

* `keepMarks_cons`, `retainMarked_keepMarks`: the first mark, and both passes together;
* `IsLastOfKey`, `exists_lastPlaces`: the places of the items that stay;
* `Store.dropDuplicates_eq`: what the store does, with the number of entries that it drops;
* `last_of_each_key_kept`: which items stay.
-/

namespace LanguageServer

variable {α κ : Type} {x : α} {xs : List α} {i : Nat}

/-! ### Marks -/

section Marks

variable [BEq κ] [LawfulBEq κ] (key : α → κ)

/-- The mark of an item after others: its key was neither seen before them nor is it one of theirs. -/
theorem newKeys_concat (seen : List κ) (xs : List α) (x : α) :
    newKeys key seen (xs ++ [x]) =
      newKeys key seen xs ++ [!(seen.contains (key x) || xs.any (key · == key x))] := by
  induction xs generalizing seen with
  | nil => simp [newKeys]
  | cons y ys ih =>
    -- the key of `y` moves from the items to the keys that were seen
    have moved : ((key y :: seen).contains (key x) || ys.any (key · == key x)) =
        (seen.contains (key x) || (y :: ys).any (key · == key x)) := by
      rw [List.contains_cons, List.any_cons, Bool.beq_comm, Bool.or_assoc, Bool.or_left_comm]
    rw [List.cons_append, newKeys, ih, moved, newKeys, List.cons_append]

/-- The first item has the first mark, though it was the last one to be marked. -/
theorem keepMarks_cons (x : α) (xs : List α) :
    keepMarks key (x :: xs) = (!xs.any (key · == key x)) :: keepMarks key xs := by
  rw [keepMarks, List.reverse_cons, newKeys_concat, List.reverse_append, List.any_reverse]
  rfl

/-- Both passes together. -/
theorem retainMarked_keepMarks (xs : List α) :
    retainMarked (keepMarks key xs) xs = retainLast key xs := by
  induction xs with
  | nil => rfl
  | cons x xs ih =>
    rw [keepMarks_cons, retainMarked, retainLast, List.head?_cons, Option.getD_some, List.tail_cons, ih]
    cases xs.any (key · == key x) <;> rfl

theorem dropRepeats_eq (xs : List α) :
    dropRepeats key xs = (retainLast key xs, xs.length - (retainLast key xs).length) := by
  rw [dropRepeats, retainMarked_keepMarks]

end Marks

/-- A store drops as many entries as it loses. -/
theorem Store.dropDuplicates_eq (s : Store) :
    s.dropDuplicates = (s.removeDuplicates, s.size - s.removeDuplicates.size) := by
  have documents := (retainLast_sublist (·.uri) s.documents).length_le
  have notebooks := (retainLast_sublist (·.uri) s.notebooks).length_le
  simp only [dropDuplicates, dropRepeats_eq, removeDuplicates, size]
  congr 1
  omega

/-! ### Places -/

/-- The item at a place is the last one of its key. -/
def IsLastOfKey (key : α → κ) (xs : List α) (i : Nat) : Prop :=
  ∃ x, xs[i]? = some x ∧ ∀ j y, i < j → xs[j]? = some y → key y ≠ key x

variable (key : α → κ)

theorem isLastOfKey_zero : IsLastOfKey key (x :: xs) 0 ↔ ∀ y ∈ xs, key y ≠ key x := by
  constructor
  · rintro ⟨x', first, last⟩ y hy
    obtain rfl : x = x' := Option.some.inj first
    obtain ⟨j, hj⟩ := List.mem_iff_getElem?.1 hy
    exact last (j + 1) y j.succ_pos hj
  · intro others
    refine ⟨x, rfl, fun j y later hj => ?_⟩
    cases j with
    | zero => omega
    | succ j => exact others y (List.mem_of_getElem? hj)

theorem isLastOfKey_succ : IsLastOfKey key (x :: xs) (i + 1) ↔ IsLastOfKey key xs i := by
  constructor
  · rintro ⟨y, hi, last⟩
    exact ⟨y, hi, fun j z later hj => last (j + 1) z (by omega) hj⟩
  · rintro ⟨y, hi, last⟩
    refine ⟨y, hi, fun j z later hj => ?_⟩
    cases j with
    | zero => omega
    | succ j => exact last j z (by omega) hj

/-- The items that stay are those at the places of last items, in their order. -/
theorem exists_lastPlaces [BEq κ] [LawfulBEq κ] (xs : List α) :
    ∃ places : List Nat, places.Pairwise (· < ·) ∧ (∀ i, i ∈ places ↔ IsLastOfKey key xs i) ∧
      (retainLast key xs).map some = places.map (xs[·]?) := by
  induction xs with
  | nil => exact ⟨[], .nil, fun i => by simp [IsLastOfKey], rfl⟩
  | cons x xs ih =>
    obtain ⟨places, sorted, mem, items⟩ := ih
    have later_sorted : (places.map (· + 1)).Pairwise (· < ·) :=
      sorted.map _ fun _ _ h => Nat.succ_lt_succ h
    have later_items : (places.map (· + 1)).map ((x :: xs)[·]?) = (retainLast key xs).map some := by
      rw [items, List.map_map]
      rfl
    have again_iff : xs.any (key · == key x) = true ↔ ¬ IsLastOfKey key (x :: xs) 0 := by
      rw [isLastOfKey_zero]
      simp
    by_cases again : xs.any (key · == key x) = true
    · -- the key of the first item comes up again
      refine ⟨places.map (· + 1), later_sorted, fun i => ?_, ?_⟩
      · cases i with
        | zero => simpa using again_iff.1 again
        | succ i => simp [isLastOfKey_succ, mem]
      · rw [retainLast, if_pos again, later_items]
    · refine ⟨0 :: places.map (· + 1), List.pairwise_cons.2 ⟨by simp, later_sorted⟩, fun i => ?_, ?_⟩
      · cases i with
        | zero => simpa using not_not.1 (again_iff.not.1 again)
        | succ i => simp [isLastOfKey_succ, mem]
      · rw [retainLast, if_neg again, List.map_cons, List.map_cons, later_items]
        rfl

/-- **The last item of every key stays.** The items that stay are those whose key does not come up again
after them, in their order, and the rest is counted. Their keys are distinct, no key is lost, and nothing is
dropped a second time. -/
theorem last_of_each_key_kept [DecidableEq κ] (key : α → κ) (xs : List α) :
    ∃ (places : List Nat) (kept : List α) (dropped : Nat), dropRepeats key xs = (kept, dropped) ∧
      places.Pairwise (· < ·) ∧ (∀ i, i ∈ places ↔ IsLastOfKey key xs i) ∧
      kept.map some = places.map (xs[·]?) ∧ kept.length + dropped = xs.length ∧
      (kept.map key).Nodup ∧ (∀ k, k ∈ kept.map key ↔ k ∈ xs.map key) ∧
      dropRepeats key kept = (kept, 0) ∧ kept = retainLast key xs := by
  obtain ⟨places, sorted, mem, items⟩ := exists_lastPlaces key xs
  have shorter := (retainLast_sublist key xs).length_le
  have distinct := nodup_retainLast key xs
  have again : dropRepeats key (retainLast key xs) = (retainLast key xs, 0) := by
    rw [dropRepeats_eq, retainLast_of_nodup key distinct, Nat.sub_self]
  exact ⟨places, _, _, dropRepeats_eq key xs, sorted, mem, items, by omega, distinct,
    fun _ => mem_map_retainLast key, again, rfl⟩

/-- Of two items of one key the later one stays. -/
example : dropRepeats Prod.fst [(1, "old"), (2, "other"), (1, "new")] =
    ([(2, "other"), (1, "new")], 1) := by decide

end LanguageServer
