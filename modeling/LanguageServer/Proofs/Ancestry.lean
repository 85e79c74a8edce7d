import LanguageServer.Files
import LanguageServer.Proofs.Relative
import Mathlib.Data.List.Infix

/-!
# Ancestors of paths

The parent of a path is cut out of its text, and its ancestors are the parents in turn. What they go through
is told by the components of the path alone: each of the places above it, nearest first.

* `Path.pieces`, `Path.counting`, `Path.lead`: the pieces between the separators and what the components are
  made of; `Path.counting_pieces_eq`: the components tell the pieces that count;
* `Path.start`, `Path.body`, `Path.outer`: what the parent is cut out of;
* `Path.components_of_cut`, `Path.components_of_parent?`, `Path.parent?_eq_none_iff`: the parent;
* `Path.above`, `Path.map_components_ancestors`: the ancestors;
* `Path.components_join`: a path seen from another.
-/

namespace LanguageServer

namespace Path

variable {p q : Path} {ps : List (List Char)}

/-! ### Pieces -/

/-- What stands between the separators of a path. -/
def pieces (p : Path) : List (List Char) := p.text.toList.splitOn '/'

/-- The pieces that change something. -/
def counting (ps : List (List Char)) : List (List Char) := ps.filter (!isIdle ·)

theorem slash_not_mem_of_mem_pieces {piece : List Char} (h : piece ∈ p.pieces) : '/' ∉ piece :=
  Uri.not_mem_of_mem_splitOn h

theorem pieces_ne_nil (p : Path) : p.pieces ≠ [] := List.splitOn_ne_nil '/' _

theorem pieces_intercalate (some : ps ≠ []) (outside : ∀ piece ∈ ps, '/' ∉ piece) :
    pieces ⟨String.ofList (['/'].intercalate ps)⟩ = ps := by
  rw [pieces, String.toList_ofList]
  exact List.splitOn_intercalate '/' outside some

theorem counting_append (ps qs : List (List Char)) : counting (ps ++ qs) = counting ps ++ counting qs :=
  List.filter_append ..

/-! ### Components -/

/-- What the components of a path start with. -/
def lead (p : Path) : List Component :=
  if p.isAbsolute then [.root] else if p.pieces.head? == some ['.'] then [.here] else []

theorem components_eq (p : Path) : p.components = p.lead ++ (counting p.pieces).map ofPiece := rfl

theorem ofPiece_ne_root (piece : List Char) : ofPiece piece ≠ .root := by
  rw [ofPiece]
  split <;> simp

theorem ofPiece_ne_here (piece : List Char) : ofPiece piece ≠ .here := by
  rw [ofPiece]
  split <;> simp

theorem ofPiece_injective : Function.Injective ofPiece := by
  intro piece other same
  unfold ofPiece at same
  split at same <;> split at same <;> simp_all

theorem isAbsolute_iff_head : p.isAbsolute = true ↔ p.components.head? = some .root := by
  have pieces (ps : List (List Char)) : (ps.map ofPiece).head? ≠ some .root := by
    rw [List.head?_map]
    intro root
    obtain ⟨piece, -, same⟩ := Option.map_eq_some_iff.1 root
    exact ofPiece_ne_root piece same
  rw [components_eq, lead]
  split
  case isTrue absolute => simp [absolute]
  case isFalse relative =>
    refine iff_of_false relative ?_
    split
    · simp
    · exact pieces _

/-- The pieces of a path that starts at the root are told by its components. -/
theorem counting_pieces_eq (absolute : p.isAbsolute = true) (same : p.components = q.components) :
    counting p.pieces = counting q.pieces := by
  have absolute' : q.isAbsolute = true := isAbsolute_iff_head.2 (same ▸ isAbsolute_iff_head.1 absolute)
  rw [components_eq, components_eq, lead, lead, if_pos absolute, if_pos absolute'] at same
  exact List.map_injective_iff.2 ofPiece_injective (List.append_cancel_left same)

theorem isAbsolute_iff : p.isAbsolute = true ↔ p.pieces.head? = some [] ∧ 1 < p.pieces.length := by
  rw [isAbsolute, pieces]
  cases p.text.toList with
  | nil => simp [List.splitOn_nil]
  | cons c cs =>
    obtain ⟨first, rest, split⟩ := List.exists_cons_of_ne_nil (List.splitOn_ne_nil '/' cs)
    rw [List.splitOn_cons_eq_if_modifyHead, split]
    by_cases separator : c = '/' <;> simp [separator]

/-- The piece that the lead of a path is read off, if it has one. -/
def start (p : Path) : List (List Char) :=
  if p.isAbsolute || p.pieces.head? == some ['.'] then p.pieces.take 1 else []

/-- The pieces after the start of a path. -/
def body (p : Path) : List (List Char) :=
  if p.isAbsolute || p.pieces.head? == some ['.'] then p.pieces.drop 1 else p.pieces

theorem start_append_body (p : Path) : p.start ++ p.body = p.pieces := by
  rw [start, body]
  split
  · exact List.take_append_drop ..
  · rfl

/-- A path starts at the root, or with `.`, or with neither. -/
theorem start_cases (p : Path) : (p.start = [[]] ∧ p.lead = [.root]) ∨
    (p.start = [['.']] ∧ p.lead = [.here]) ∨ (p.start = [] ∧ p.lead = []) := by
  cases absolute : p.isAbsolute
  · by_cases here : p.pieces.head? = some ['.']
    · exact .inr (.inl ⟨by simp [start, here, List.take_one], by simp [lead, absolute, here]⟩)
    · exact .inr (.inr ⟨by simp [start, absolute, here], by simp [lead, absolute, here]⟩)
  · have root := (isAbsolute_iff.1 absolute).1
    exact .inl ⟨by simp [start, absolute, root, List.take_one], by simp [lead, absolute]⟩

theorem length_lead (p : Path) : p.lead.length = p.start.length := by
  rcases p.start_cases with ⟨start, lead⟩ | ⟨start, lead⟩ | ⟨start, lead⟩ <;> rw [start, lead] <;> rfl

theorem counting_start_append (p : Path) (ps : List (List Char)) : counting (p.start ++ ps) = counting ps := by
  rw [counting_append]
  rcases p.start_cases with ⟨start, -⟩ | ⟨start, -⟩ | ⟨start, -⟩ <;> rw [start] <;> rfl

theorem components_eq_body (p : Path) : p.components = p.lead ++ (counting p.body).map ofPiece := by
  rw [components_eq, ← start_append_body, counting_start_append]

/-- A character that is neither a separator nor a `.` is in a piece that counts. -/
theorem mem_text_iff {c : Char} (other : c ≠ '/') (letter : c ≠ '.') :
    c ∈ p.text.toList ↔ ∃ piece ∈ counting p.pieces, c ∈ piece := by
  have within (cs : List Char) : c ∈ cs ↔ ∃ piece ∈ cs.splitOn '/', c ∈ piece := by
    induction cs with
    | nil => simp
    | cons d cs ih =>
      obtain ⟨first, rest, split⟩ := List.exists_cons_of_ne_nil (List.splitOn_ne_nil '/' cs)
      rw [List.splitOn_cons_eq_if_modifyHead, List.mem_cons, ih, split]
      by_cases separator : d = '/'
      · simp [separator, other]
      · simp [separator, or_assoc]
  rw [within, ← pieces]
  refine exists_congr fun piece => ?_
  rw [counting, List.mem_filter, and_assoc]
  refine and_congr_right fun _ => (and_iff_right_of_imp fun mem => ?_).symm
  have busy : piece ≠ [] ∧ piece ≠ ['.'] :=
    ⟨List.ne_nil_of_mem mem, fun dot => letter (List.mem_singleton.1 (dot ▸ mem))⟩
  simpa [isIdle] using busy

/-! ### The pieces up to the last one that counts -/

theorem trimIdle_concat (ps : List (List Char)) (last : List Char) :
    trimIdle (ps ++ [last]) = if isIdle last then trimIdle ps else ps ++ [last] := by
  rw [trimIdle, List.reverse_append, List.reverse_singleton, List.singleton_append, List.dropWhile_cons]
  split <;> simp [trimIdle]

theorem trimIdle_isPrefix (ps : List (List Char)) : trimIdle ps <+: ps := by
  simpa [trimIdle] using (List.dropWhile_suffix (l := ps.reverse) isIdle).reverse

theorem counting_concat (ps : List (List Char)) (last : List Char) :
    counting (ps ++ [last]) = if isIdle last then counting ps else counting ps ++ [last] := by
  cases idle : isIdle last <;> simp [counting, idle]

theorem counting_trimIdle (ps : List (List Char)) : counting (trimIdle ps) = counting ps := by
  induction ps using List.reverseRecOn with
  | nil => rfl
  | append_singleton ps last ih =>
    rw [trimIdle_concat]
    split
    case isTrue idle => rw [ih, counting_concat, if_pos idle]
    case isFalse => rfl

theorem trimIdle_eq_nil_iff : trimIdle ps = [] ↔ counting ps = [] := by
  induction ps using List.reverseRecOn with
  | nil => exact iff_of_true rfl rfl
  | append_singleton ps last ih =>
    rw [trimIdle_concat, counting_concat]
    split
    case isTrue => exact ih
    case isFalse => simp

/-- Without the last piece that counts, the others are left. -/
theorem counting_dropLast_trimIdle (ps : List (List Char)) :
    counting (trimIdle ps).dropLast = (counting ps).dropLast := by
  induction ps using List.reverseRecOn with
  | nil => rfl
  | append_singleton ps last ih =>
    rw [trimIdle_concat, counting_concat]
    split
    case isTrue => exact ih
    case isFalse => rw [List.dropLast_concat, List.dropLast_concat]

/-- The pieces of a path in front of its last one that counts, up to one that counts. -/
def outer (ps : List (List Char)) : List (List Char) := trimIdle (trimIdle ps).dropLast

theorem outer_isPrefix (ps : List (List Char)) : outer ps <+: ps :=
  ((trimIdle_isPrefix _).trans (List.dropLast_prefix _)).trans (trimIdle_isPrefix ps)

theorem counting_outer (ps : List (List Char)) : counting (outer ps) = (counting ps).dropLast := by
  rw [outer, counting_trimIdle, counting_dropLast_trimIdle]

/-! ### Parents -/

theorem parent?_eq (p : Path) : p.parent? =
    if counting p.body = [] then if p.start = [['.']] then some ⟨""⟩ else none
    else if p.isAbsolute = true ∧ outer p.body = [] then some ⟨"/"⟩
    else some ⟨String.ofList (['/'].intercalate (p.start ++ outer p.body))⟩ := by
  have cut : (if p.isAbsolute || p.pieces.head? == some ['.'] then (p.pieces.take 1, p.pieces.drop 1)
      else ([], p.pieces)) = (p.start, p.body) := by
    rw [start, body]
    split <;> rfl
  have text : p.text.toList.splitOn '/' = p.pieces := rfl
  simp only [parent?, text, cut]
  cases trimmed : trimIdle p.body with
  | nil => simp [trimIdle_eq_nil_iff.1 trimmed]
  | cons piece rest =>
    have some : counting p.body ≠ [] := fun none => by simp [trimIdle_eq_nil_iff.2 none] at trimmed
    simp [some, outer, trimmed]

/-- The first pieces of a path make a path with the same lead, if that of a path from the root keeps a
separator. -/
theorem components_of_cut (cut : ps <+: p.pieces) (some : ps ≠ [])
    (rooted : p.isAbsolute = true → 1 < ps.length) :
    components ⟨String.ofList (['/'].intercalate ps)⟩ = p.lead ++ (counting ps).map ofPiece := by
  have parts := pieces_intercalate some fun piece mem => slash_not_mem_of_mem_pieces (cut.subset mem)
  have head : ps.head? = p.pieces.head? := by
    obtain ⟨tail, whole⟩ := cut
    rw [← whole, List.head?_append_of_ne_nil _ some]
  have absolute : isAbsolute ⟨String.ofList (['/'].intercalate ps)⟩ = p.isAbsolute := by
    rw [Bool.eq_iff_iff, isAbsolute_iff, parts, head]
    refine ⟨fun h => isAbsolute_iff.2 ⟨h.1, h.2.trans_le cut.length_le⟩, fun h => ?_⟩
    exact ⟨(isAbsolute_iff.1 h).1, rooted h⟩
  rw [components_eq, lead, absolute, parts, head, ← lead]

/-- The parent goes through all components but the last. -/
theorem components_of_parent? (h : p.parent? = some q) : q.components = p.components.dropLast := by
  have shorter (some : counting p.body ≠ []) :
      p.components.dropLast = p.lead ++ (counting (outer p.body)).map ofPiece := by
    rw [components_eq_body, List.dropLast_append_of_ne_nil (by simpa using some), counting_outer,
      List.map_dropLast]
  rw [parent?_eq] at h
  split at h
  case isTrue none =>
    rw [components_eq_body p, none]
    split at h
    case isTrue here =>
      obtain rfl := Option.some.inj h
      have lead : p.lead = [.here] := by
        rcases p.start_cases with ⟨start, -⟩ | ⟨-, lead⟩ | ⟨start, -⟩
        · cases start.symm.trans here
        · exact lead
        · cases start.symm.trans here
      rw [lead]
      rfl
    case isFalse => cases h
  case isFalse some =>
    rw [shorter some]
    split at h
    case isTrue top =>
      obtain rfl := Option.some.inj h
      rw [lead, if_pos top.1, top.2]
      rfl
    case isFalse below =>
      obtain rfl := Option.some.inj h
      by_cases nowhere : p.start ++ outer p.body = []
      · obtain ⟨start, rest⟩ := List.append_eq_nil_iff.1 nowhere
        have lead : p.lead = [] := List.eq_nil_of_length_eq_zero (by rw [length_lead, start]; rfl)
        rw [nowhere, lead, rest]
        rfl
      · have cut : p.start ++ outer p.body <+: p.pieces := by
          rw [← p.start_append_body, List.prefix_append_right_inj]
          exact outer_isPrefix _
        rw [components_of_cut cut nowhere, counting_start_append]
        intro absolute
        have rest : outer p.body ≠ [] := fun top => below ⟨absolute, top⟩
        rw [List.length_append, ← length_lead, lead, if_pos absolute]
        exact Nat.lt_add_of_pos_right (List.length_pos_of_ne_nil rest)

/-- Only the root and the path that goes nowhere have no parent. -/
theorem parent?_eq_none_iff : p.parent? = none ↔ p.components = [] ∨ p.components = [.root] := by
  rw [parent?_eq, components_eq_body]
  split
  case isTrue none =>
    rcases p.start_cases with ⟨start, lead⟩ | ⟨start, lead⟩ | ⟨start, lead⟩ <;> simp [none, start, lead]
  case isFalse some =>
    refine iff_of_false (by split <;> simp) ?_
    rw [List.append_eq_nil_iff, List.append_eq_singleton_iff, List.map_eq_nil_iff]
    rintro (⟨-, none⟩ | ⟨-, root⟩ | ⟨-, none⟩)
    · exact some none
    · obtain ⟨piece, -, same⟩ := List.mem_map.1 (root ▸ List.mem_singleton_self Component.root)
      exact ofPiece_ne_root piece same
    · exact some none

/-- What a path goes through last is in its parent. -/
theorem exists_parent? {outer : List Component} {last : Component} (h : p.components = outer ++ [last])
    (inside : last ≠ .root) : ∃ q, p.parent? = some q ∧ q.components = outer := by
  cases parent : p.parent? with
  | none =>
    refine absurd (parent?_eq_none_iff.1 parent) ?_
    rw [h]
    rintro (none | root)
    · simp at none
    · cases outer <;> simp_all
  | some q => exact ⟨q, rfl, by rw [components_of_parent? parent, h, List.dropLast_concat]⟩

/-! ### Ancestors -/

theorem length_components_le (p : Path) : p.components.length ≤ p.text.length + 1 := by
  have count : p.pieces.length ≤ p.text.length + 1 := by
    rw [pieces, Uri.length_splitOn, ← String.length_toList]
    exact Nat.succ_le_succ List.count_le_length
  refine le_trans ?_ count
  rw [components_eq_body, ← start_append_body, List.length_append, List.length_append, length_lead,
    List.length_map]
  exact Nat.add_le_add_left (List.length_filter_le ..) _

/-- The places above a place, nearest first. There is nothing above the root. -/
def above (place : List Component) : List (List Component) :=
  ((List.range place.length).reverse.map place.take).filter
    fun outer => outer ≠ [] ∨ place.head? ≠ some .root

theorem above_concat {outer : List Component} {last : Component} (inside : outer ++ [last] ≠ [.root]) :
    above (outer ++ [last]) = outer :: above outer := by
  have takes : (List.range outer.length).reverse.map (outer ++ [last]).take =
      (List.range outer.length).reverse.map outer.take := by
    refine List.map_congr_left fun i mem => List.take_append_of_le_length ?_
    exact Nat.le_of_lt (List.mem_range.1 (List.mem_reverse.1 mem))
  rw [above, List.length_append, List.length_singleton, List.range_succ, List.reverse_append,
    List.reverse_singleton, List.singleton_append, List.map_cons, List.take_left, takes]
  cases outer with
  | nil => simpa [above] using inside
  | cons c cs => simp [above]

theorem map_components_ancestorsIn {n : Nat} (enough : p.components.length ≤ n) :
    (ancestorsIn n p).map components = above p.components := by
  induction n generalizing p with
  | zero =>
    rw [List.eq_nil_of_length_eq_zero (Nat.le_zero.1 enough)]
    rfl
  | succ n ih =>
    rw [ancestorsIn]
    cases parent : p.parent? with
    | none =>
      rcases parent?_eq_none_iff.1 parent with none | root
      · rw [none]; rfl
      · rw [root]; rfl
    | some q =>
      have inner := components_of_parent? parent
      have inside : ¬(p.components = [] ∨ p.components = [.root]) := by
        rw [← parent?_eq_none_iff, parent]
        simp
      obtain ⟨some, notRoot⟩ := not_or.1 inside
      have whole := List.dropLast_append_getLast some
      rw [List.map_cons, ih (by rw [inner, List.length_dropLast]; omega), inner]
      rw [← whole] at notRoot ⊢
      rw [above_concat notRoot, List.dropLast_concat]

/-- The ancestors of a path are at all the places above it, nearest first. -/
theorem map_components_ancestors (p : Path) : p.ancestors.map components = above p.components :=
  map_components_ancestorsIn (length_components_le p)

/-- Pieces that do not count are no places. -/
example : (ancestors ⟨"/a//./b/"⟩).map (·.text) = ["/a", "/"] := by decide

/-! ### Joining -/

/-- The pieces of a relative path stand after those of the path that it is seen from, but for an empty last
one. -/
theorem pieces_join (named : p.text ≠ "") (relative : q.isAbsolute = false) :
    ∃ front, (p.pieces = front ∨ p.pieces = front ++ [[]]) ∧ (p.join q).pieces = front ++ q.pieces := by
  have some : p.text.isEmpty = false := by simpa using named
  rw [join, relative, some, Bool.or_false, if_neg Bool.false_ne_true]
  split
  case isTrue ends =>
    obtain ⟨front, text⟩ := List.getLast?_eq_some_iff.1 (beq_iff_eq.1 ends)
    refine ⟨front.splitOn '/', .inr ?_, ?_⟩
    · rw [pieces, text, Uri.splitOn_append_cons]
      rfl
    · rw [pieces, String.toList_append, text, List.append_assoc, List.singleton_append,
        Uri.splitOn_append_cons]
      rfl
  case isFalse =>
    refine ⟨p.pieces, .inl rfl, ?_⟩
    rw [pieces, String.toList_append, String.toList_append, List.append_assoc]
    exact Uri.splitOn_append_cons ..

theorem exists_pieces_join (p : Path) (relative : q.isAbsolute = false) :
    ∃ front, (p.join q).pieces = front ++ q.pieces := by
  by_cases named : p.text = ""
  · have empty : p.text.isEmpty = true := by simp [named]
    exact ⟨[], by rw [join, empty, Bool.or_true, if_pos rfl, List.nil_append]⟩
  · obtain ⟨front, -, joined⟩ := pieces_join named relative
    exact ⟨front, joined⟩

theorem isAbsolute_join (named : p.text ≠ "") (relative : q.isAbsolute = false) :
    (p.join q).isAbsolute = p.isAbsolute := by
  have some : p.text.toList ≠ [] := by simpa using named
  have notEmpty : p.text.isEmpty = false := by simpa using named
  rw [join, relative, notEmpty, Bool.or_false, if_neg Bool.false_ne_true, isAbsolute, isAbsolute]
  split
  · rw [String.toList_append, List.head?_append_of_ne_nil _ some]
  · rw [String.toList_append, String.toList_append, List.append_assoc, List.head?_append_of_ne_nil _ some]

theorem lead_join (named : p.text ≠ "") (relative : q.isAbsolute = false) : (p.join q).lead = p.lead := by
  obtain ⟨front, shape, joined⟩ := pieces_join named relative
  have some : front ≠ [] := by
    rintro rfl
    rcases shape with none | single
    · exact p.pieces_ne_nil none
    · have text : ['/'].intercalate p.pieces = p.text.toList := List.intercalate_splitOn '/'
      rw [single] at text
      exact named (by simpa using text.symm)
  have head : (p.join q).pieces.head? = p.pieces.head? := by
    rw [joined, List.head?_append_of_ne_nil _ some]
    rcases shape with whole | cut
    · rw [whole]
    · rw [cut, List.head?_append_of_ne_nil _ some]
  rw [lead, lead, isAbsolute_join named relative, head]

theorem filter_here_components (relative : q.isAbsolute = false) :
    q.components.filter (· ≠ .here) = (counting q.pieces).map ofPiece := by
  have kept : ((counting q.pieces).map ofPiece).filter (· ≠ .here) = (counting q.pieces).map ofPiece := by
    refine List.filter_eq_self.2 fun c mem => ?_
    obtain ⟨piece, -, rfl⟩ := List.mem_map.1 mem
    exact decide_eq_true (ofPiece_ne_here piece)
  rw [components_eq, List.filter_append, kept, lead, relative, if_neg Bool.false_ne_true]
  split <;> rfl

/-- A relative path goes on from where it is seen; a leading `.` does not count there. -/
theorem components_join (named : p.text ≠ "") (relative : q.isAbsolute = false) :
    (p.join q).components = p.components ++ q.components.filter (· ≠ .here) := by
  obtain ⟨front, shape, joined⟩ := pieces_join named relative
  have whole : counting front = counting p.pieces := by
    rcases shape with whole | cut
    · rw [whole]
    · rw [cut, counting_concat]
      rfl
  rw [filter_here_components relative, components_eq, components_eq, lead_join named relative, joined,
    counting_append, whole, List.map_append, List.append_assoc]

/-- A name goes on from wherever it is seen. -/
theorem components_join_name (p : Path) (relative : q.isAbsolute = false)
    (plain : q.pieces.head? ≠ some ['.']) :
    (p.join q).components = p.components ++ q.components := by
  by_cases named : p.text = ""
  · have here : p.components = [] := by rw [show p = ⟨""⟩ from congrArg mk named]; rfl
    have empty : p.text.isEmpty = true := by simp [named]
    rw [join, empty, Bool.or_true, if_pos rfl, here, List.nil_append]
  · rw [components_join named relative, filter_here_components relative, components_eq q]
    simp [lead, relative, plain]

end Path
end LanguageServer
