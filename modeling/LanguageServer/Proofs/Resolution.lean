import LanguageServer.Uri.Resolution

/-!
# Names of files and resolved references

A reference is folded when it is resolved, and a path is not when it is made a name. The two agree on
an absolute path exactly where there is nothing to fold.

* `forward`, `flatMap_encodeChar_eq_iff`, `splitOn_encodePath`: the segments of a coded path;
* `Folds`, `foldl_foldSegment_of_forall`, `not_folds_of_mem_foldl`, `sublist_foldl_foldSegment`: what
  folding does to a list of segments;
* `splitOn_removeDotSegments`, `removeDotSegments_eq_self_iff`: what it does to a path;
* `resolve?_eq_ofFilePath_iff`: when an absolute path is resolved to the name of its file.
-/

namespace LanguageServer.Uri

/-! ### Pieces between separators -/

theorem length_splitOn {α : Type} [BEq α] (cs : List α) (sep : α) :
    (cs.splitOn sep).length = cs.count sep + 1 := by
  induction cs with
  | nil => rfl
  | cons c cs ih =>
    rw [List.splitOn_cons_eq_if_modifyHead, List.count_cons]
    split
    · rw [List.length_cons, ih]
    · rw [List.length_modifyHead, ih]

section

variable {α : Type} [BEq α] [LawfulBEq α] {sep : α}

theorem not_mem_of_mem_splitOn {cs piece : List α} (h : piece ∈ cs.splitOn sep) : sep ∉ piece := by
  induction cs generalizing piece with
  | nil => simp_all [List.splitOn_nil]
  | cons c cs ih =>
    rw [List.splitOn_cons_eq_if_modifyHead] at h
    split at h
    · rcases List.mem_cons.1 h with rfl | h
      · exact List.not_mem_nil
      · exact ih h
    · next other =>
      obtain ⟨first, rest, split⟩ := List.exists_cons_of_ne_nil (List.splitOn_ne_nil sep cs)
      rw [split, List.modifyHead_cons] at h
      rcases List.mem_cons.1 h with rfl | h
      · have outside : sep ∉ first := ih (split ▸ List.mem_cons_self)
        have apart : sep ≠ c := fun same => other (by simp [same])
        simp [apart, outside]
      · exact ih (split ▸ List.mem_cons_of_mem _ h)

/-- Without a separator in it, the end of a text ends the last piece. -/
theorem getLast?_splitOn_append (cs : List α) {ending : List α} (h : sep ∉ ending) :
    ∃ piece, ((cs ++ ending).splitOn sep).getLast? = some (piece ++ ending) := by
  induction cs with
  | nil => exact ⟨[], by simp [List.splitOn_eq_singleton h]⟩
  | cons c cs ih =>
    obtain ⟨piece, last⟩ := ih
    obtain ⟨first, rest, split⟩ := List.exists_cons_of_ne_nil (List.splitOn_ne_nil sep (cs ++ ending))
    rw [List.cons_append, List.splitOn_cons_eq_if_modifyHead, split]
    rw [split] at last
    split
    · exact ⟨piece, by simpa using last⟩
    · cases rest with
      | nil => exact ⟨c :: piece, by simp_all⟩
      | cons next rest => exact ⟨piece, by simpa using last⟩

end

/-! ### Coded paths -/

/-- A path with forward separators. -/
def forward (cs : List Char) : List Char := cs.map fun c => if c = '\\' then '/' else c

@[simp] theorem forward_cons (c : Char) (cs : List Char) :
    forward (c :: cs) = (if c = '\\' then '/' else c) :: forward cs := rfl

@[simp] theorem forward_append (cs ds : List Char) : forward (cs ++ ds) = forward cs ++ forward ds :=
  List.map_append

theorem encodeChar_of_isUnreserved {c : Char} (h : Percent.isUnreserved c = true) :
    Percent.encodeChar c = [c] := if_pos h

theorem mem_encodeChar_of_not_isUnreserved {c : Char} (h : ¬Percent.isUnreserved c = true) :
    '%' ∈ Percent.encodeChar c := by
  rw [Percent.encodeChar, if_neg h]
  obtain ⟨b, bs, bytes⟩ := List.exists_cons_of_ne_nil (String.utf8EncodeChar_ne_nil (c := c))
  rw [bytes, List.flatMap_cons]
  exact List.mem_append_left _ List.mem_cons_self

/-- No separator occurs in a coded segment. -/
theorem separator_not_mem_encodeChar (c : Char) : '/' ∉ Percent.encodeChar c := by
  have digits : ∀ n < 16, Text.upperHexDigit n ≠ '/' := by decide
  unfold Percent.encodeChar
  split
  · next unreserved =>
    simp only [List.mem_singleton]
    rintro rfl
    exact absurd unreserved (by decide)
  · simp only [List.mem_flatMap, Percent.encodeByte, List.mem_cons, List.not_mem_nil, or_false,
      not_exists, not_and, not_or]
    refine fun b _ => ⟨by decide, (digits _ ?_).symm, (digits _ ?_).symm⟩
    · have := b.toNat_lt
      omega
    · omega

theorem flatMap_encodeChar_of_forall {cs : List Char}
    (h : ∀ c ∈ cs, Percent.isUnreserved c = true) : cs.flatMap Percent.encodeChar = cs := by
  induction cs with
  | nil => rfl
  | cons c cs ih =>
    obtain ⟨first, rest⟩ := List.forall_mem_cons.1 h
    rw [List.flatMap_cons, encodeChar_of_isUnreserved first, ih rest, List.singleton_append]

/-- A text without escapes is the coded form of itself only. -/
theorem flatMap_encodeChar_eq_iff {cs ds : List Char} (h : ∀ c ∈ ds, Percent.isUnreserved c = true) :
    cs.flatMap Percent.encodeChar = ds ↔ cs = ds := by
  refine ⟨fun same => ?_, by rintro rfl; exact flatMap_encodeChar_of_forall h⟩
  have plain : ∀ c ∈ cs, Percent.isUnreserved c = true := fun c hc => by
    refine Decidable.byContradiction fun reserved => ?_
    have escape := List.mem_flatMap.2 ⟨c, hc, mem_encodeChar_of_not_isUnreserved reserved⟩
    exact absurd (h _ (same ▸ escape)) (by decide)
  exact (flatMap_encodeChar_of_forall plain).symm.trans same

theorem splitOn_encodePath (cs : List Char) : (encodePath cs).splitOn '/' =
    ((forward cs).splitOn '/').map fun segment => segment.flatMap Percent.encodeChar := by
  refine List.splitOn_intercalate '/' (fun segment h => ?_) (by simp [List.splitOn_ne_nil])
  obtain ⟨original, -, rfl⟩ := List.mem_map.1 h
  simp [List.mem_flatMap, separator_not_mem_encodeChar]

theorem head?_encodePath {cs : List Char} (h : cs.head? = some '/') :
    (encodePath cs).head? = some '/' := by
  obtain ⟨rest, rfl⟩ := List.head?_eq_some_iff.1 h
  obtain ⟨first, others, split⟩ := List.exists_cons_of_ne_nil (List.splitOn_ne_nil '/' (forward rest))
  have segments : (forward ('/' :: rest)).splitOn '/' = [] :: first :: others := by
    simp [List.splitOn_cons_eq_if_modifyHead, split]
  show (['/'].intercalate (((forward ('/' :: rest)).splitOn '/').map _)).head? = _
  rw [segments]
  simp [List.intercalate_cons_cons]

/-! ### Folding segments -/

/-- A segment that does not name anything. -/
def Folds (segment : List Char) : Prop := segment = here ∨ segment = up

instance (segment : List Char) : Decidable (Folds segment) :=
  inferInstanceAs (Decidable (segment = here ∨ segment = up))

theorem folds_flatMap_encodeChar_iff {segment : List Char} :
    Folds (segment.flatMap Percent.encodeChar) ↔ Folds segment :=
  or_congr (flatMap_encodeChar_eq_iff (by simp [here, Percent.isUnreserved]))
    (flatMap_encodeChar_eq_iff (by simp [up, Percent.isUnreserved]))

variable {segment : List Char} {before segments : List (List Char)}

theorem foldSegment_of_not_folds (h : ¬Folds segment) :
    foldSegment before segment = segment :: before := by
  rw [foldSegment, if_neg fun same => h (.inl same), if_neg fun same => h (.inr same)]

/-- One segment is added, or nothing changes, or the last segment goes, which is not the only one. -/
theorem foldSegment_cases (before : List (List Char)) (segment : List Char) :
    foldSegment before segment = segment :: before ∧ ¬Folds segment ∨
      foldSegment before segment = before ∨
        foldSegment before segment = before.tail ∧ 1 < before.length := by
  by_cases folds : Folds segment
  · unfold foldSegment
    split
    · exact .inr (.inl rfl)
    · rw [if_pos (folds.resolve_left ‹_›)]
      split
      · next more => exact .inr (.inr ⟨rfl, more⟩)
      · exact .inr (.inl rfl)
  · exact .inl ⟨foldSegment_of_not_folds folds, folds⟩

theorem foldl_foldSegment_of_forall (h : ∀ segment ∈ segments, ¬Folds segment) :
    segments.foldl foldSegment before = segments.reverse ++ before := by
  induction segments generalizing before with
  | nil => rfl
  | cons first rest ih =>
    obtain ⟨here, later⟩ := List.forall_mem_cons.1 h
    rw [List.foldl_cons, foldSegment_of_not_folds here, ih later]
    simp

/-- Nothing is left to fold. -/
theorem not_folds_of_mem_foldl (h : ∀ segment ∈ before, ¬Folds segment) :
    ∀ segment ∈ segments.foldl foldSegment before, ¬Folds segment := by
  induction segments generalizing before with
  | nil => exact h
  | cons first rest ih =>
    refine ih ?_
    rcases foldSegment_cases before first with ⟨added, names⟩ | kept | ⟨gone, -⟩
    · rw [added]
      exact List.forall_mem_cons.2 ⟨names, h⟩
    · rwa [kept]
    · rw [gone]
      exact fun segment hs => h segment (List.mem_of_mem_tail hs)

/-- Folding keeps the order of the segments and makes none. -/
theorem sublist_foldl_foldSegment :
    (segments.foldl foldSegment before).reverse.Sublist (before.reverse ++ segments) := by
  induction segments generalizing before with
  | nil => simp
  | cons first rest ih =>
    refine ih.trans ?_
    rw [List.append_cons]
    refine List.Sublist.append_right ?_ rest
    rcases foldSegment_cases before first with ⟨added, -⟩ | kept | ⟨gone, -⟩
    · simp [added]
    · rw [kept]
      exact List.sublist_append_left _ _
    · rw [gone]
      exact (List.tail_sublist _).reverse.trans (List.sublist_append_left _ _)

/-- The first segment stays. -/
theorem getLast?_foldl_foldSegment (h : before ≠ []) :
    (segments.foldl foldSegment before).getLast? = before.getLast? := by
  induction segments generalizing before with
  | nil => rfl
  | cons first rest ih =>
    rw [List.foldl_cons]
    rcases foldSegment_cases before first with ⟨added, -⟩ | kept | ⟨gone, more⟩
    · rw [added, ih (List.cons_ne_nil _ _), List.getLast?_cons_of_ne_nil h]
    · rw [kept, ih h]
    · obtain ⟨last, next, others, rfl⟩ : ∃ last next others, before = last :: next :: others := by
        match before, more with
        | last :: next :: others, _ => exact ⟨last, next, others, rfl⟩
      rw [gone, List.tail_cons, ih (List.cons_ne_nil _ _), List.getLast?_cons_cons]

/-! ### Folding a path -/

section

variable {cs : List Char} (rooted : cs.head? = some '/')
  (named : ∀ segment, (cs.splitOn '/').getLast? = some segment → ¬Folds segment)

include rooted named

/-- The folded segments of a path that starts at the root and ends with a name: the empty segment
before the root is still the first, and other segments follow it. -/
theorem exists_folded : ∃ first others,
    ((cs.splitOn '/').foldl foldSegment []).reverse = [] :: first :: others := by
  obtain ⟨rest, rfl⟩ := List.head?_eq_some_iff.1 rooted
  have segments : ('/' :: rest).splitOn '/' = [] :: rest.splitOn '/' := by
    simp [List.splitOn_cons_eq_if_modifyHead]
  obtain ⟨inner, last, ends⟩ :=
    (List.eq_nil_or_concat (rest.splitOn '/')).resolve_left (List.splitOn_ne_nil _ _)
  rw [List.concat_eq_append] at ends
  have stays : ¬Folds last :=
    named last (by rw [segments, ends, ← List.cons_append, List.getLast?_concat])
  have root : (inner.foldl foldSegment [[]]).getLast? = some [] := by
    rw [getLast?_foldl_foldSegment (List.cons_ne_nil _ _)]
    rfl
  obtain ⟨above, below⟩ := List.getLast?_eq_some_iff.1 root
  have folded : (([] :: rest.splitOn '/').foldl foldSegment []).reverse
      = [] :: (above.reverse ++ [last]) := by
    rw [ends, List.foldl_cons, List.foldl_append]
    show (foldSegment (inner.foldl foldSegment [[]]) last).reverse = _
    rw [foldSegment_of_not_folds stays, below]
    simp
  rw [segments, folded]
  cases above.reverse with
  | nil => exact ⟨last, [], rfl⟩
  | cons first others => exact ⟨first, others ++ [last], rfl⟩

theorem removeDotSegments_eq : removeDotSegments cs =
    ['/'].intercalate ((cs.splitOn '/').foldl foldSegment []).reverse := by
  obtain ⟨first, others, folded⟩ := exists_folded rooted named
  have slash : (['/'].intercalate ([] :: first :: others)).head? = some '/' := by
    simp [List.intercalate_cons_cons]
  have noSlash : ((cs.splitOn '/').getLast? == some here
      || (cs.splitOn '/').getLast? == some up) = false := by
    rw [Bool.or_eq_false_iff, beq_eq_false_iff_ne, beq_eq_false_iff_ne]
    exact ⟨fun last => named _ last (.inl rfl), fun last => named _ last (.inr rfl)⟩
  simp only [removeDotSegments, folded, slash, noSlash, beq_self_eq_true, if_true, Bool.false_and,
    Bool.false_eq_true, if_false]

theorem splitOn_removeDotSegments : (removeDotSegments cs).splitOn '/' =
    ((cs.splitOn '/').foldl foldSegment []).reverse := by
  obtain ⟨first, others, folded⟩ := exists_folded rooted named
  rw [removeDotSegments_eq rooted named]
  refine List.splitOn_intercalate '/' (fun segment h => ?_) (by simp [folded])
  exact not_mem_of_mem_splitOn (by simpa using sublist_foldl_foldSegment.subset h)

theorem removeDotSegments_eq_self_iff :
    removeDotSegments cs = cs ↔ ∀ segment ∈ cs.splitOn '/', ¬Folds segment := by
  constructor
  · intro same segment h
    rw [← same, splitOn_removeDotSegments rooted named, List.mem_reverse] at h
    exact not_folds_of_mem_foldl (by simp) segment h
  · intro unfolded
    rw [removeDotSegments_eq rooted named, foldl_foldSegment_of_forall unfolded]
    simp [List.intercalate_splitOn]

theorem length_splitOn_removeDotSegments_le :
    ((removeDotSegments cs).splitOn '/').length ≤ (cs.splitOn '/').length := by
  have fewer : ((cs.splitOn '/').foldl foldSegment []).reverse.length
      ≤ ([].reverse ++ cs.splitOn '/').length := sublist_foldl_foldSegment.length_le
  rwa [splitOn_removeDotSegments rooted named]

end

/-! ### Absolute paths -/

theorem isSome_scheme?_of_isFile {u : Uri} (h : u.isFile = true) : u.scheme?.isSome = true := by
  rw [show u.scheme? = some "file" by simpa [isFile] using h]
  rfl

/-- What comes before the path in the name of a file: the scheme, and perhaps an authority, which has
no separator in it. -/
theorem head_of_isFile {u : Uri} (h : u.isFile = true) : u.parts.head = "file:".toList ∨
    ∃ authority, u.parts.head = "file://".toList ++ authority ∧ '/' ∉ authority := by
  have scheme : u.scheme? = some "file" := by simpa [isFile] using h
  obtain ⟨⟨scheme, rest⟩, split, named⟩ := Option.map_eq_some_iff.1 scheme
  obtain rfl : scheme = "file".toList := by rw [← named, String.toList_ofList]
  rw [parts, Parts.ofChars, split]
  split
  · next none => cases none
  · next authority same =>
    obtain ⟨rfl, rfl⟩ : "file".toList = _ ∧ rest = _ := by simpa using same
    refine .inr ⟨authority.takeWhile (!endsAuthority ·), rfl, fun slash => ?_⟩
    exact absurd (List.all_eq_true.1 List.all_takeWhile _ slash) (by decide)
  · next same =>
    obtain ⟨rfl, rfl⟩ : "file".toList = _ ∧ rest = _ := by simpa using same
    exact .inl rfl

/-- In a document whose name has a scheme, every reference stands for some name. -/
theorem exists_resolve? {base : Uri} (h : base.scheme?.isSome = true) (reference : String) :
    ∃ u, base.resolve? reference = some u := by
  obtain ⟨scheme, named⟩ := Option.isSome_iff_exists.1 h
  simp only [resolve?, named, Option.isNone_some, Bool.false_eq_true, if_false]
  split
  · exact ⟨_, rfl⟩
  · exact ⟨_, rfl⟩

theorem scheme?_of_rooted {reference : String} (h : reference.toList.head? = some '/') :
    (Uri.mk reference).scheme? = none := by
  obtain ⟨rest, text⟩ := List.head?_eq_some_iff.1 h
  have unnamed : ∀ cs, isScheme ('/' :: cs) = false := fun cs => by cases cs <;> rfl
  rw [scheme?, splitScheme?, text, List.takeWhile_cons_of_pos (by decide)]
  split
  · simp [unnamed]
  · rfl

theorem resolve?_of_rooted {base : Uri} {reference : String} (h : base.scheme?.isSome = true)
    (rooted : reference.toList.head? = some '/') : base.resolve? reference =
      some ⟨String.ofList (base.parts.head ++ removeDotSegments (encodePath reference.toList))⟩ := by
  have named : ¬base.scheme?.isNone = true := by simpa [Option.isSome_iff_ne_none] using h
  simp only [resolve?, scheme?_of_rooted rooted, head?_encodePath rooted, Option.isSome_none,
    Bool.false_eq_true, if_false, if_neg named, beq_self_eq_true, if_true]

theorem ofFilePath_of_rooted {p : Path} (rooted : p.text.toList.head? = some '/') :
    ofFilePath p = ⟨String.ofList ("file://".toList ++ encodePath p.text.toList)⟩ := by
  unfold ofFilePath
  exact congrArg (fun cs => Uri.mk (String.ofList ("file://".toList ++ cs)))
    (if_pos (beq_iff_eq.2 (head?_encodePath rooted)))

/-- A folded path makes a name of a file together with what comes before it only if that is the bare
scheme and there was nothing to fold. -/
theorem head_append_removeDotSegments_eq_iff {u : Uri} {cs : List Char} (file : u.isFile = true)
    (rooted : cs.head? = some '/')
    (named : ∀ segment, (cs.splitOn '/').getLast? = some segment → ¬Folds segment) :
    u.parts.head ++ removeDotSegments cs = "file://".toList ++ cs ↔
      u.parts.head = "file://".toList ∧ removeDotSegments cs = cs := by
  constructor
  · intro same
    rcases head_of_isFile file with bare | ⟨authority, full, unseparated⟩
    · -- Without the two separators of an authority the path would have to make up for them.
      have more : removeDotSegments cs = '/' :: '/' :: cs := by
        rw [bare] at same
        exact List.append_cancel_left same
      have := length_splitOn_removeDotSegments_le rooted named
      simp only [more, List.splitOn_cons_eq_if_modifyHead, beq_self_eq_true, if_true,
        List.length_cons] at this
      omega
    · rw [full, List.append_assoc, List.append_cancel_left_eq] at same
      obtain ⟨rest, rfl⟩ := List.head?_eq_some_iff.1 rooted
      cases authority with
      | nil => exact ⟨full, same⟩
      | cons c cs =>
        obtain rfl : c = '/' := List.head_eq_of_cons_eq same
        exact absurd List.mem_cons_self unseparated
  · rintro ⟨head, same⟩
    rw [head, same]

/-- In a file, an absolute path that ends with a name is resolved to the name of its file exactly if
the file that it stands in has no authority and the path nothing to fold. -/
theorem resolve?_eq_ofFilePath_iff {base : Uri} {p : Path} (file : base.isFile = true)
    (rooted : p.text.toList.head? = some '/')
    (named : ∀ segment, ((forward p.text.toList).splitOn '/').getLast? = some segment →
      ¬Folds segment) :
    base.resolve? p.text = some (ofFilePath p) ↔ base.parts.head = "file://".toList ∧
      ∀ segment ∈ (forward p.text.toList).splitOn '/', ¬Folds segment := by
  have root := head?_encodePath rooted
  have last : ∀ segment, ((encodePath p.text.toList).splitOn '/').getLast? = some segment →
      ¬Folds segment := fun segment h => by
    rw [splitOn_encodePath, List.getLast?_map] at h
    obtain ⟨original, ends, rfl⟩ := Option.map_eq_some_iff.1 h
    exact mt folds_flatMap_encodeChar_iff.1 (named original ends)
  have unfolded : (∀ segment ∈ (encodePath p.text.toList).splitOn '/', ¬Folds segment) ↔
      ∀ segment ∈ (forward p.text.toList).splitOn '/', ¬Folds segment := by
    simp [splitOn_encodePath, folds_flatMap_encodeChar_iff]
  rw [resolve?_of_rooted (isSome_scheme?_of_isFile file) rooted, ofFilePath_of_rooted rooted,
    Option.some_inj, Uri.mk.injEq, String.ofList_inj,
    head_append_removeDotSegments_eq_iff file root last, removeDotSegments_eq_self_iff root last,
    unfolded]

end LanguageServer.Uri
