import LanguageServer.Proofs.Naming

/-!
# Relative references

The generic syntax of names says how a reference is resolved: it takes the place of the last segment of the
path, and then `.` and `..` are taken out of the path by rewriting it from its start. Here the segments are
folded on a stack. The two agree on every path that starts at the root and ends with a name.

* `withoutLast`, `rewriteDots`, `merged`: the rules of the generic syntax;
* `slashed`: the path of some segments;
* `rewriteDots_slashed`, `removeDotSegments_eq_rewriteDots`: rewriting and folding;
* `exists_merged`: merging;
* `joined`, `Layout.resolve?_uri`: the path that is folded;
* `relative_reference_resolved`: what a reference stands for.
-/

namespace LanguageServer.Uri

/-! ### The rules -/

/-- A path without its last segment and the separator before it. -/
def withoutLast (path : List Char) : List Char :=
  ((path.reverse.dropWhile (· != '/')).drop 1).reverse

/-- The rules that take `.` and `..` out of a path. What is read from the start of the input and stays is
put at the end of the output. A `..` takes the last segment from the output, and any other segment goes
there with the separator before it. -/
def rewriteDots (input output : List Char) : List Char :=
  match input with
  | [] => output
  | '.' :: '.' :: '/' :: rest => rewriteDots rest output
  | '.' :: '/' :: rest => rewriteDots rest output
  | '/' :: '.' :: '/' :: rest => rewriteDots ('/' :: rest) output
  | ['/', '.'] => rewriteDots ['/'] output
  | '/' :: '.' :: '.' :: '/' :: rest => rewriteDots ('/' :: rest) (withoutLast output)
  | ['/', '.', '.'] => rewriteDots ['/'] (withoutLast output)
  | ['.'] => output
  | ['.', '.'] => output
  | c :: rest => rewriteDots (rest.dropWhile (· != '/')) (output ++ c :: rest.takeWhile (· != '/'))
termination_by input.length
decreasing_by
  all_goals simp only [List.length_cons, List.length_nil]
  all_goals try omega
  exact Nat.lt_succ_of_le (List.dropWhile_sublist _).length_le

/-- A reference in the place of the last segment of a path, and at the root if there is no path. -/
def merged (path reference : List Char) : List Char :=
  if path.isEmpty then '/' :: reference
  else (path.reverse.dropWhile (· != '/')).reverse ++ reference

example : rewriteDots "/a/b/c/./../../g".toList [] = "/a/g".toList := by cbv

/-! ### Paths as segments -/

/-- The path of some segments. -/
def slashed (segments : List (List Char)) : List Char := segments.flatMap ('/' :: ·)

@[simp] theorem slashed_nil : slashed [] = [] := rfl

@[simp] theorem slashed_cons (segment : List Char) (segments : List (List Char)) :
    slashed (segment :: segments) = '/' :: segment ++ slashed segments := rfl

theorem slashed_append (segments others : List (List Char)) :
    slashed (segments ++ others) = slashed segments ++ slashed others := List.flatMap_append

theorem head?_slashed : ∀ (segments : List (List Char)) {c : Char},
    c ∈ (slashed segments).head? → c = '/'
  | [], _, h => by cases h
  | _ :: _, _, h => (Option.some.inj h).symm

theorem intercalate_nil_cons (segments : List (List Char)) :
    ['/'].intercalate ([] :: segments) = slashed segments := by
  induction segments with
  | nil => rfl
  | cons segment segments ih =>
    cases segments with
    | nil => simp [slashed, List.intercalate_cons_cons]
    | cons next others =>
      rw [List.intercalate_cons_cons, List.intercalate_cons_cons] at *
      simp_all

/-- A path that starts at the root is that of its segments. -/
theorem exists_slashed {cs : List Char} (rooted : cs.head? = some '/') :
    ∃ segments, cs.splitOn '/' = [] :: segments ∧ cs = slashed segments := by
  obtain ⟨rest, rfl⟩ := List.head?_eq_some_iff.1 rooted
  have segments : ('/' :: rest).splitOn '/' = [] :: rest.splitOn '/' := by
    simp [List.splitOn_cons_eq_if_modifyHead]
  refine ⟨rest.splitOn '/', segments, ?_⟩
  rw [← intercalate_nil_cons, ← segments, List.intercalate_splitOn]

/-! ### Rewriting and folding -/

theorem withoutLast_slashed_concat (segments : List (List Char)) {last : List Char} (h : '/' ∉ last) :
    withoutLast (slashed (segments ++ [last])) = slashed segments := by
  have inside : ∀ c ∈ last.reverse, (c != '/') = true := bne_of_not_mem (by simpa using h)
  have backwards : (slashed (segments ++ [last])).reverse =
      last.reverse ++ '/' :: (slashed segments).reverse := by
    simp [slashed_append]
  rw [withoutLast, backwards, List.dropWhile_append_of_pos inside]
  simp

/-- A segment is told from the start of a path. -/
theorem segment_eq_of_append_eq {segment rest other rest' : List Char}
    (h : ∀ c ∈ segment, (c != '/') = true) (h' : ∀ c ∈ other, (c != '/') = true)
    (next : ∀ c ∈ rest.head?, c = '/') (next' : ∀ c ∈ rest'.head?, c = '/')
    (same : segment ++ rest = other ++ rest') : segment = other := by
  have first : (segment ++ rest).takeWhile (· != '/') = segment :=
    takeWhile_append_eq h fun c hc => by simp [next c hc]
  have first' : (other ++ rest').takeWhile (· != '/') = other :=
    takeWhile_append_eq h' fun c hc => by simp [next' c hc]
  rw [← first, same, first']

/-- A segment that names something goes to the output. -/
theorem rewriteDots_segment {segment rest : List Char} (h : '/' ∉ segment) (names : ¬Folds segment)
    (next : ∀ c ∈ rest.head?, c = '/') (output : List Char) :
    rewriteDots ('/' :: segment ++ rest) output = rewriteDots rest (output ++ '/' :: segment) := by
  have inside : ∀ c ∈ segment, (c != '/') = true := bne_of_not_mem h
  have first : (segment ++ rest).takeWhile (· != '/') = segment :=
    takeWhile_append_eq inside fun c hc => by simp [next c hc]
  have others : (segment ++ rest).dropWhile (· != '/') = rest := by
    rw [List.dropWhile_append_of_pos inside]
    cases rest with
    | nil => rfl
    | cons c cs =>
      rw [next c rfl]
      rfl
  have notHere (tail : List Char) (next' : ∀ c ∈ tail.head?, c = '/') :
      segment ++ rest ≠ here ++ tail := fun same =>
    names (.inl (segment_eq_of_append_eq inside (by simp [here]) next next' same))
  have notUp (tail : List Char) (next' : ∀ c ∈ tail.head?, c = '/') :
      segment ++ rest ≠ up ++ tail := fun same =>
    names (.inr (segment_eq_of_append_eq inside (by simp [up]) next next' same))
  rw [List.cons_append]
  conv =>
    lhs
    unfold rewriteDots
  split
  case h_1 same => cases same
  case h_2 same => cases same
  case h_3 same => cases same
  case h_4 tail same => exact absurd (List.cons.inj same).2 (notHere ('/' :: tail) (by simp))
  case h_5 same => exact absurd (List.cons.inj same).2 (notHere [] (by simp))
  case h_6 tail same => exact absurd (List.cons.inj same).2 (notUp ('/' :: tail) (by simp))
  case h_7 same => exact absurd (List.cons.inj same).2 (notUp [] (by simp))
  case h_8 same => cases same
  case h_9 same => cases same
  case h_10 same =>
    obtain ⟨rfl, rfl⟩ := List.cons.inj same
    rw [first, others]

/-- A `.` before another segment goes. -/
theorem rewriteDots_here (segment : List Char) (segments : List (List Char)) (output : List Char) :
    rewriteDots (slashed (here :: segment :: segments)) output =
      rewriteDots (slashed (segment :: segments)) output := by
  show rewriteDots ('/' :: '.' :: '/' :: (segment ++ slashed segments)) output = _
  rw [rewriteDots]
  rfl

/-- A `..` before another segment takes the last segment from the output. -/
theorem rewriteDots_up (segment : List Char) (segments : List (List Char)) (output : List Char) :
    rewriteDots (slashed (up :: segment :: segments)) output =
      rewriteDots (slashed (segment :: segments)) (withoutLast output) := by
  show rewriteDots ('/' :: '.' :: '.' :: '/' :: (segment ++ slashed segments)) output = _
  rw [rewriteDots]
  rfl

/-- Folding with the root below the stack. -/
theorem foldSegment_root (stack : List (List Char)) (segment : List Char) :
    foldSegment (stack ++ [[]]) segment =
      (if segment = here then stack else if segment = up then stack.tail else segment :: stack) ++
        [[]] := by
  unfold foldSegment
  split
  · rfl
  · split
    · cases stack <;> simp
    · rfl

/-- Rewriting a path that ends with a name folds its segments: the output is the stack. -/
theorem rewriteDots_slashed {segments : List (List Char)} (h : ∀ s ∈ segments, '/' ∉ s)
    (named : ∀ s ∈ segments.getLast?, ¬Folds s) {stack : List (List Char)} (hs : ∀ s ∈ stack, '/' ∉ s) :
    ∃ folded, segments.foldl foldSegment (stack ++ [[]]) = folded ++ [[]] ∧
      rewriteDots (slashed segments) (slashed stack.reverse) = slashed folded.reverse := by
  induction segments generalizing stack with
  | nil => exact ⟨stack, rfl, by rw [slashed_nil, rewriteDots]⟩
  | cons segment segments ih =>
    obtain ⟨first, later⟩ := List.forall_mem_cons.1 h
    by_cases folds : Folds segment
    · -- a segment that is folded away is not the last one
      obtain ⟨next, others, rfl⟩ : ∃ next others, segments = next :: others :=
        List.exists_cons_of_ne_nil fun last => named segment (by simp [last]) folds
      have ends : ∀ s ∈ (next :: others).getLast?, ¬Folds s := by simpa using named
      rcases folds with rfl | rfl
      · obtain ⟨folded, fold, rewritten⟩ := ih later ends hs
        refine ⟨folded, ?_, ?_⟩
        · rw [List.foldl_cons, foldSegment_root, if_pos rfl, fold]
        · rw [rewriteDots_here, rewritten]
      · have below : ∀ s ∈ stack.tail, '/' ∉ s := fun s mem => hs s (List.mem_of_mem_tail mem)
        obtain ⟨folded, fold, rewritten⟩ := ih later ends below
        refine ⟨folded, ?_, ?_⟩
        · rw [List.foldl_cons, foldSegment_root, if_neg (by decide), if_pos rfl, fold]
        · rw [rewriteDots_up, ← rewritten]
          congr 1
          cases stack with
          | nil => rfl
          | cons top below =>
            rw [List.reverse_cons, withoutLast_slashed_concat _ (hs top List.mem_cons_self)]
            rfl
    · have ends : ∀ s ∈ segments.getLast?, ¬Folds s := by
        intro s mem
        refine named s ?_
        rw [List.getLast?_cons, mem]
        rfl
      have above : ∀ s ∈ segment :: stack, '/' ∉ s := List.forall_mem_cons.2 ⟨first, hs⟩
      obtain ⟨folded, fold, rewritten⟩ := ih later ends above
      refine ⟨folded, ?_, ?_⟩
      · rw [List.foldl_cons, foldSegment_of_not_folds folds, ← List.cons_append, fold]
      · rw [slashed_cons, rewriteDots_segment first folds fun c => head?_slashed _, ← rewritten]
        congr 1
        simp [slashed_append]

/-- **Folding is rewriting.** -/
theorem removeDotSegments_eq_rewriteDots {cs : List Char} (rooted : cs.head? = some '/')
    (named : ∀ segment, (cs.splitOn '/').getLast? = some segment → ¬Folds segment) :
    removeDotSegments cs = rewriteDots cs [] := by
  obtain ⟨segments, split, text⟩ := exists_slashed rooted
  have inner : ∀ s ∈ segments, '/' ∉ s := fun s mem =>
    not_mem_of_mem_splitOn (split ▸ List.mem_cons_of_mem _ mem)
  have ends : ∀ s ∈ segments.getLast?, ¬Folds s := by
    intro s mem
    refine named s ?_
    rw [split, List.getLast?_cons, mem]
    rfl
  have bottom : ∀ s ∈ ([] : List (List Char)), '/' ∉ s := by simp
  obtain ⟨folded, fold, rewritten⟩ := rewriteDots_slashed inner ends bottom
  rw [removeDotSegments_eq rooted named, split, List.foldl_cons]
  show ['/'].intercalate (segments.foldl foldSegment ([] ++ [[]])).reverse = _
  rw [fold, List.reverse_concat, intercalate_nil_cons, ← rewritten, text]
  rfl

/-- No character comes into a path. -/
theorem mem_removeDotSegments {cs : List Char} (rooted : cs.head? = some '/')
    (named : ∀ segment, (cs.splitOn '/').getLast? = some segment → ¬Folds segment) {c : Char}
    (h : c ∈ removeDotSegments cs) : c ∈ cs := by
  obtain ⟨segments, split, text⟩ := exists_slashed rooted
  obtain ⟨first, others, folded⟩ := exists_folded rooted named
  rw [removeDotSegments_eq rooted named, folded, intercalate_nil_cons] at h
  obtain ⟨segment, mem, hc⟩ := List.mem_flatMap.1 h
  have kept : segment ∈ [].reverse ++ cs.splitOn '/' := by
    refine sublist_foldl_foldSegment.subset ?_
    rw [folded]
    exact List.mem_cons_of_mem _ mem
  rw [split] at kept
  rcases List.mem_cons.1 hc with rfl | hc
  · exact List.mem_of_mem_head? rooted
  · rcases List.mem_cons.1 kept with rfl | kept
    · cases hc
    · rw [text]
      exact List.mem_flatMap.2 ⟨segment, kept, List.mem_cons_of_mem _ hc⟩

theorem head?_removeDotSegments {cs : List Char} (rooted : cs.head? = some '/')
    (named : ∀ segment, (cs.splitOn '/').getLast? = some segment → ¬Folds segment) :
    (removeDotSegments cs).head? = some '/' := by
  obtain ⟨first, others, folded⟩ := exists_folded rooted named
  rw [removeDotSegments_eq rooted named, folded, intercalate_nil_cons]
  rfl

/-! ### Merging -/

theorem splitOn_append_cons (cs ds : List Char) :
    (cs ++ '/' :: ds).splitOn '/' = cs.splitOn '/' ++ ds.splitOn '/' := by
  induction cs with
  | nil => simp [List.splitOn_cons_eq_if_modifyHead]
  | cons c cs ih =>
    obtain ⟨first, others, split⟩ := List.exists_cons_of_ne_nil (List.splitOn_ne_nil '/' cs)
    rw [List.cons_append, List.splitOn_cons_eq_if_modifyHead, List.splitOn_cons_eq_if_modifyHead, ih,
      split]
    split <;> rfl

/-- A text is cut at its last separator. -/
theorem exists_last_separator {path : List Char} (h : '/' ∈ path) :
    ∃ above name, path = above ++ '/' :: name ∧ '/' ∉ name := by
  obtain ⟨back, front, text, outside⟩ := List.eq_append_cons_of_mem (List.mem_reverse.2 h)
  refine ⟨front.reverse, back.reverse, ?_, by simpa using outside⟩
  rw [← List.reverse_inj, text]
  simp

/-- What stands before the last segment, seen from the end of the path. -/
theorem reverse_cut (above : List Char) {name : List Char} (h : '/' ∉ name) :
    (above ++ '/' :: name).reverse.takeWhile (· != '/') = name.reverse ∧
      (above ++ '/' :: name).reverse.dropWhile (· != '/') = '/' :: above.reverse := by
  have inside : ∀ c ∈ name.reverse, (c != '/') = true := bne_of_not_mem (by simpa using h)
  have backwards : (above ++ '/' :: name).reverse = name.reverse ++ '/' :: above.reverse := by simp
  rw [backwards, takeWhile_append_eq inside (by simp), List.dropWhile_append_of_pos inside]
  exact ⟨rfl, rfl⟩

theorem directory_cut (above : List Char) {name : List Char} (h : '/' ∉ name) :
    directory (above ++ '/' :: name) = above ++ ['/'] := by
  have last : lastSegment (above ++ '/' :: name) = name := by
    rw [lastSegment, (reverse_cut above h).1, List.reverse_reverse]
  have whole : above ++ '/' :: name = (above ++ ['/']) ++ name := List.append_cons ..
  have length : (above ++ '/' :: name).length - name.length = (above ++ ['/']).length := by
    rw [whole, List.length_append, Nat.add_sub_cancel]
  rw [directory, last, length, whole, List.take_left]
  exact if_neg (by simp)

theorem merged_cut (above : List Char) {name : List Char} (h : '/' ∉ name) (reference : List Char) :
    merged (above ++ '/' :: name) reference = above ++ '/' :: reference := by
  rw [merged, if_neg (by simp), (reverse_cut above h).2]
  simp

/-- A reference is added after the last separator of the path. -/
theorem exists_merged {path : List Char} (rooted : ∀ c ∈ path.head?, c = '/')
    (reference : List Char) : ∃ above, (∀ c ∈ above, c ∈ path) ∧ (∀ c ∈ above.head?, c = '/') ∧
      merged path reference = above ++ '/' :: reference ∧
      directory path ++ reference = above ++ '/' :: reference := by
  cases start : path with
  | nil => exact ⟨[], by simp, by simp, rfl, rfl⟩
  | cons c rest =>
    have separator : '/' ∈ path := by
      rw [start, rooted c (by simp [start])]
      exact List.mem_cons_self
    obtain ⟨above, name, cut, unseparated⟩ := exists_last_separator separator
    rw [← start]
    refine ⟨above, ?_, ?_, ?_, ?_⟩
    · intro d hd
      rw [cut]
      exact List.mem_append_left _ hd
    · intro d hd
      refine rooted d ?_
      rw [cut, List.head?_append, hd]
      rfl
    · rw [cut, merged_cut above unseparated]
    · rw [cut, directory_cut above unseparated, List.append_assoc]
      rfl

/-! ### What a reference stands for -/

/-- The segments of a reference, backward separators read as forward ones. -/
def segments (reference : String) : List (List Char) := (forward reference.toList).splitOn '/'

/-- Whether a reference starts at the root. -/
def StartsAtRoot (reference : String) : Prop :=
  reference.toList.head? = some '/' ∨ reference.toList.head? = some '\\'

instance (reference : String) : Decidable (StartsAtRoot reference) :=
  inferInstanceAs (Decidable (_ ∨ _))

theorem encodeChar_ne_nil (c : Char) : Percent.encodeChar c ≠ [] := by
  by_cases unreserved : Percent.isUnreserved c = true
  · rw [encodeChar_of_isUnreserved unreserved]
    exact List.cons_ne_nil _ _
  · exact List.ne_nil_of_mem (mem_encodeChar_of_not_isUnreserved unreserved)

theorem head?_encodePath_iff (reference : String) :
    (encodePath reference.toList).head? = some '/' ↔ StartsAtRoot reference := by
  rw [encodePath_eq_flatMap, StartsAtRoot]
  cases reference.toList with
  | nil => simp [forward]
  | cons c cs =>
    rw [forward_cons, List.flatMap_cons, List.head?_append]
    by_cases separator : c = '/' ∨ c = '\\'
    · rcases separator with rfl | rfl <;> simp [encodePathChar]
    · obtain ⟨other, other'⟩ := not_or.1 separator
      have coded : encodePathChar c = Percent.encodeChar c := if_neg other
      obtain ⟨d, ds, codes⟩ := List.exists_cons_of_ne_nil (encodeChar_ne_nil c)
      have first : d ≠ '/' := by
        rintro rfl
        exact separator_not_mem_encodeChar c (codes ▸ List.mem_cons_self)
      simp [other, other', coded, codes, first]

/-- The path that a reference leads to from a path, before it is folded. -/
def joined (path : List Char) (reference : String) : List Char :=
  if StartsAtRoot reference then encodePath reference.toList
  else merged path (encodePath reference.toList)

section

variable {path : List Char} (rooted : ∀ c ∈ path.head?, c = '/')

include rooted

theorem head?_joined (reference : String) : (joined path reference).head? = some '/' := by
  unfold joined
  split
  · next root => exact (head?_encodePath_iff reference).2 root
  · obtain ⟨above, -, first, merging, -⟩ := exists_merged rooted (encodePath reference.toList)
    rw [merging]
    cases above with
    | nil => rfl
    | cons c cs => rw [first c rfl]; rfl

theorem getLast?_splitOn_joined (reference : String) :
    ((joined path reference).splitOn '/').getLast? =
      ((segments reference).getLast?).map (·.flatMap Percent.encodeChar) := by
  have coded : ((encodePath reference.toList).splitOn '/').getLast? =
      ((segments reference).getLast?).map (·.flatMap Percent.encodeChar) := by
    rw [splitOn_encodePath, List.getLast?_map, segments]
  unfold joined
  split
  · exact coded
  · obtain ⟨above, -, -, merging, -⟩ := exists_merged rooted (encodePath reference.toList)
    have some : (segments reference).getLast? =
        some ((segments reference).getLast (List.splitOn_ne_nil _ _)) := List.getLast?_eq_some_getLast _
    rw [merging, splitOn_append_cons, List.getLast?_append, coded, some, Option.map_some, Option.some_or]

theorem not_endsPath_joined (unmarked : ∀ c ∈ path, endsPath c = false) (reference : String) :
    ∀ c ∈ joined path reference, endsPath c = false := by
  unfold joined
  split
  · exact fun c => endsPath_of_mem_encodePath
  · obtain ⟨above, inside, -, merging, -⟩ := exists_merged rooted (encodePath reference.toList)
    rw [merging]
    intro c hc
    rcases List.mem_append.1 hc with hc | hc
    · exact unmarked c (inside c hc)
    · rcases List.mem_cons.1 hc with rfl | hc
      · rfl
      · exact endsPath_of_mem_encodePath hc

end

namespace Layout

variable (l : Layout) {reference : String}

theorem resolve?_uri (long : 1 < l.scheme.length) (relative : (Uri.mk reference).scheme? = none) :
    l.uri.resolve? reference =
      some ⟨String.ofList (l.head ++ removeDotSegments (joined l.path reference))⟩ := by
  obtain ⟨above, -, -, merging, adding⟩ := exists_merged l.rooted (encodePath reference.toList)
  rw [← merging] at adding
  simp only [resolve?, relative, l.scheme?_uri long, l.parts_uri long, Option.isSome_none,
    Option.isNone_some, Bool.false_eq_true, if_false, adding, beq_iff_eq, head?_encodePath_iff, joined]

/-- Where the scheme is a single letter, a reference stands for nothing. -/
theorem resolve?_uri_eq_none (short : l.scheme.length ≤ 1) (relative : (Uri.mk reference).scheme? = none) :
    l.uri.resolve? reference = none := by
  simp [resolve?, relative, l.scheme?_uri_eq_none short]

variable (named : ∀ segment ∈ (segments reference).getLast?, ¬Folds segment)

include named

theorem joined_named (segment : List Char)
    (h : ((joined l.path reference).splitOn '/').getLast? = some segment) : ¬Folds segment := by
  rw [getLast?_splitOn_joined l.rooted] at h
  obtain ⟨original, ends, rfl⟩ := Option.map_eq_some_iff.1 h
  exact mt folds_flatMap_encodeChar_iff.1 (named original ends)

/-- The name that a reference stands for, in parts. -/
def resolved : Layout :=
  { l with
    path := removeDotSegments (joined l.path reference)
    tail := []
    rooted := by simp [head?_removeDotSegments (head?_joined l.rooted reference) (l.joined_named named)]
    unmarked := fun c hc => not_endsPath_joined l.rooted l.unmarked reference c
      (mem_removeDotSegments (head?_joined l.rooted reference) (l.joined_named named) hc)
    marked := marked_nil }

end Layout

/-- **References are resolved as the generic syntax says.** In a name with an authority whose scheme has two
characters or more, a reference that ends with a name is coded segment by segment and joined to the path;
what it stands for has the same scheme and authority, the path that rewriting leaves, and nothing after it.
No segment is left that could be folded. -/
theorem relative_reference_resolved (l : Layout) (reference : String) (long : 1 < l.scheme.length)
    (relative : (Uri.mk reference).scheme? = none)
    (named : ∀ segment ∈ (segments reference).getLast?, ¬Folds segment) :
    ∃ u, l.uri.resolve? reference = some u ∧
      u.scheme? = some (String.ofList l.scheme) ∧
      u.parts = ⟨l.head, rewriteDots (joined l.path reference) [], []⟩ ∧
      (encodePath reference.toList).splitOn '/' =
        (segments reference).map (·.flatMap Percent.encodeChar) ∧
      (∀ segment ∈ segments reference,
        Percent.decode (segment.flatMap Percent.encodeChar) = String.ofList segment) ∧
      ∀ segment ∈ u.parts.path.splitOn '/', ¬Folds segment := by
  have root := head?_joined l.rooted reference
  have last := l.joined_named named
  have folding := removeDotSegments_eq_rewriteDots root last
  have uri : l.uri.resolve? reference = some (l.resolved named).uri := by
    rw [l.resolve?_uri long relative, Layout.uri]
    simp [Layout.resolved, Layout.head]
  have parts : (l.resolved named).uri.parts =
      ⟨l.head, removeDotSegments (joined l.path reference), []⟩ := (l.resolved named).parts_uri long
  refine ⟨_, uri, (l.resolved named).scheme?_uri long, ?_, splitOn_encodePath reference.toList, ?_, ?_⟩
  · rw [parts, folding]
  · intro segment _
    exact Percent.coding_encodeChar.decode_flatMap segment
  · intro segment left
    rw [parts] at left
    rw [splitOn_removeDotSegments root last, List.mem_reverse] at left
    exact not_folds_of_mem_foldl (by simp) segment left

namespace Sample

/-- A name with a query, whose path has something to fold. -/
def page : Layout where
  scheme := "http".toList
  authority := "host".toList
  path := "/a/../b/page".toList
  tail := "?q#top".toList
  lettered := ⟨'h', rfl, rfl⟩
  spelled := by simp [isSchemeChar]
  unended := by simp [endsAuthority]
  rooted := by simp
  unmarked := by simp [endsPath]
  marked := by simp [endsPath]

/-- A name whose scheme is a single letter. -/
def drive : Layout where
  scheme := "c".toList
  authority := "host".toList
  path := "/a".toList
  tail := []
  lettered := ⟨'c', rfl, rfl⟩
  spelled := by simp [isSchemeChar]
  unended := by simp [endsAuthority]
  rooted := by simp
  unmarked := by simp [endsPath]
  marked := marked_nil

end Sample

open Uri.Sample in
/-- The case of a reference that goes up, with a backward separator and a character to code. -/
theorem reference_of_page_resolved :
    1 < page.scheme.length ∧ (Uri.mk "..\\./c d/e").scheme? = none ∧
      (∀ segment ∈ (segments "..\\./c d/e").getLast?, ¬Folds segment) ∧
      ∃ u, page.uri.resolve? "..\\./c d/e" = some u ∧
        u.parts = ⟨"http://host".toList, "/c%20d/e".toList, []⟩ := by
  have long : 1 < page.scheme.length := by decide
  have relative : (Uri.mk "..\\./c d/e").scheme? = none := by decide
  have named : ∀ segment ∈ (segments "..\\./c d/e").getLast?, ¬Folds segment := by decide
  refine ⟨long, relative, named, ?_⟩
  obtain ⟨u, resolved, -, parts, -⟩ := relative_reference_resolved page _ long relative named
  have added : joined page.path "..\\./c d/e" = "/a/../b/.././c%20d/e".toList := by decide +kernel
  have left : rewriteDots "/a/../b/.././c%20d/e".toList [] = "/c%20d/e".toList := by cbv
  rw [added, left] at parts
  exact ⟨u, resolved, parts⟩

open Uri.Sample in
/-- One letter before a colon is taken for a drive and not for a scheme, so that nothing can be resolved
there. -/
theorem reference_of_drive_lost :
    drive.uri.text = "c://host/a" ∧ (Uri.mk "x").scheme? = none ∧
      (∀ segment ∈ (segments "x").getLast?, ¬Folds segment) ∧
      drive.uri.resolve? "x" = none := by
  have relative : (Uri.mk "x").scheme? = none := by decide
  exact ⟨by decide, relative, by decide, drive.resolve?_uri_eq_none (by decide) relative⟩

end LanguageServer.Uri
