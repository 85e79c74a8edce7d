import LanguageServer.Feature.Highlight
import LanguageServer.Proofs.Resolution
import Mathlib.Algebra.Order.BigOperators.Group.List
import Mathlib.Algebra.Order.Ring.Nat
import Mathlib.Data.List.Basic
import Mathlib.Data.List.Infix

/-!
# What the editor decodes

The editor adds up the differences that it is sent. It gets back the pieces of the coloured tokens, sorted
by place, and those at one place in the order of the tokens. Tokens may overlap, repeat and come in any
order. But lengths are words: of a line that no word can measure the editor gets back too little.

* `Token.stretches`, `Token.pieces`: what a token covers, line by line;
* `Token.spans_eq`: spans are pieces;
* `StablySorted`, `StablySorted.unique`: the one list that sorting gives;
* `Span.NoUnderflow`, `Span.decodeFrom_encodeFrom`: differences of sorted spans, and back;
* `Decodes`, `decodes_highlights`: what the editor gets back;
* `totalLength`, `Token.totalLength_lt`: what is lost of lines that are too long;
* `highlights_decoded`: that nothing is lost exactly if no line is too long.
-/

namespace LanguageServer

variable {line start : Nat} {spans as bs : List Span} {t : Token}

/-! ### Pieces -/

/-- A line without the carriage return at its end. -/
def withoutReturn (l : List Char) : List Char := if l.getLast? = some '\r' then l.dropLast else l

/-- What lines cover from a position on: where each starts, and how long it is by a measure of texts. -/
def lineStretches (measure : List Char → Nat) (first : Position) (ls : List (List Char)) :
    List (Position × Nat) :=
  ls.mapIdx fun i l =>
    (⟨first.line + i, if i = 0 then first.character else 0⟩, measure (withoutReturn l))

/-- The lines of the content of a token. -/
def Token.lines (t : Token) : List (List Char) := t.content.toList.splitOn '\n'

/-- What a token covers: on one line its range, and else its lines. -/
def Token.stretches (measure : List Char → Nat) (t : Token) : List (Position × Nat) :=
  if t.range.start.line = t.range.stop.line then
    [(t.range.start, t.range.stop.character - t.range.start.character)]
  else lineStretches measure t.range.start t.lines

/-- The stretches that are not empty, in a colour. -/
def coloured (colour shades : Nat) (stretches : List (Position × Nat)) : List Span :=
  (stretches.filter (·.2 ≠ 0)).map fun (p, length) => ⟨p.line, p.character, length, colour, shades⟩

/-- What a token covers, in its colour. -/
def Token.pieces (measure : List Char → Nat) (t : Token) : List Span :=
  match t.colour? with
  | none => []
  | some (colour, isConstant) => coloured colour.index (if isConstant then 1 else 0) (t.stretches measure)

theorem lineStretches_cons (measure : List Char → Nat) (first : Position) (l : List Char)
    (ls : List (List Char)) :
    lineStretches measure first (l :: ls) =
      (first, measure (withoutReturn l)) :: lineStretches measure ⟨first.line + 1, 0⟩ ls := by
  rw [lineStretches, List.mapIdx_cons]
  congr 1
  refine congrArg (List.mapIdx · ls) (funext fun i => funext fun l => ?_)
  rw [if_neg (Nat.succ_ne_zero i), ite_self, Nat.add_assoc, Nat.add_comm 1 i]

theorem lineStretches_congr {measure measure' : List Char → Nat} {ls : List (List Char)}
    (same : ∀ l ∈ ls, measure (withoutReturn l) = measure' (withoutReturn l)) (first : Position) :
    lineStretches measure first ls = lineStretches measure' first ls := by
  induction ls generalizing first with
  | nil => rfl
  | cons l ls ih =>
    rw [lineStretches_cons, lineStretches_cons, same l List.mem_cons_self,
      ih fun l hl => same l (List.mem_cons_of_mem _ hl)]

theorem coloured_cons (colour shades : Nat) (p : Position) (length : Nat)
    (stretches : List (Position × Nat)) :
    coloured colour shades ((p, length) :: stretches) =
      if length = 0 then coloured colour shades stretches
      else ⟨p.line, p.character, length, colour, shades⟩ :: coloured colour shades stretches := by
  by_cases h : length = 0 <;> simp [coloured, h]

/-- One stretch is one span, or none. -/
theorem coloured_single (colour shades : Nat) (p : Position) (length : Nat) :
    coloured colour shades [(p, length)] =
      if 0 < length then [⟨p.line, p.character, length, colour, shades⟩] else [] := by
  rw [coloured_cons]
  by_cases empty : length = 0
  · rw [if_pos empty, if_neg (by omega)]
    rfl
  · rw [if_neg empty, if_pos (by omega)]
    rfl

/-- The length of a line is that of the line without its carriage return. -/
theorem lineLength_ofList (l : List Char) :
    lineLength (String.ofList l) = Word.ofCount (Text.unitsOf (withoutReturn l)) := by
  have ending : "\r".toList.isSuffixOf l = true ↔ l.getLast? = some '\r' := by
    change ['\r'].isSuffixOf l = true ↔ _
    rw [List.isSuffixOf_iff_suffix, List.getLast?_eq_some_iff]
    exact exists_congr fun init => eq_comm
  have returned : "\r".length = 1 := rfl
  simp only [lineLength, Text.dropEnd?, String.toList_ofList, String.length_ofList, ending, returned,
    ← List.dropLast_eq_take, withoutReturn]
  split <;> simp [Text.units16]

/-! ### Spans are pieces -/

/-- The measure of a text in words. -/
def wordsOf (cs : List Char) : Nat := Word.ofCount (Text.unitsOf cs)

/-- The number of the last line of a token is a word. -/
def Token.Numbered (t : Token) : Prop :=
  t.range.start.line + t.content.toList.count '\n' < Word.size

instance (t : Token) : Decidable t.Numbered := inferInstanceAs (Decidable (_ < _))

/-- The spans of lines are what the lines cover, as long as their numbers are words. -/
theorem lineSpans_eq (colour shades : Nat) (first : Position) (ls : List (List Char))
    (h : first.line + ls.length ≤ Word.size) :
    lineSpans first.line first.character colour shades (ls.map String.ofList) =
      coloured colour shades (lineStretches wordsOf first ls) := by
  induction ls generalizing first with
  | nil => rfl
  | cons l ls ih =>
    rw [List.length_cons] at h
    have rest := ih ⟨first.line + 1, 0⟩ (by dsimp only; omega)
    rw [List.map_cons, lineSpans, lineStretches_cons, coloured_cons, lineLength_ofList, rest,
      Word.ofCount_of_lt (n := first.line) (by omega)]
    rfl

theorem Token.spans_eq (h : t.Numbered) : t.spans = t.pieces wordsOf := by
  rw [Token.spans, Token.pieces]
  rcases t.colour? with _ | ⟨colour, isConstant⟩
  · rfl
  · dsimp only
    rw [Token.stretches]
    split
    · rw [coloured_single]
    · have lines : t.lines.length = t.content.toList.count '\n' + 1 := Uri.length_splitOn ..
      rw [Token.Numbered] at h
      exact lineSpans_eq _ _ t.range.start t.lines (by omega)

/-! ### Sorting -/

/-- Whether a span starts at a place. -/
def Span.startsAt (line start : Nat) (s : Span) : Bool := s.line = line ∧ s.start = start

/-- A span does not start before a place. -/
def Span.From (line start : Nat) (s : Span) : Prop := line < s.line ∨ line = s.line ∧ start ≤ s.start

/-- A list of spans is sorted by place. -/
def Sorted (spans : List Span) : Prop := spans.Pairwise fun a b => b.From a.line a.start

/-- A list of spans is sorted from another one: by place, and with those at each place as they were. -/
structure StablySorted (sorted spans : List Span) : Prop where
  ordered : Sorted sorted
  stable : ∀ line start, sorted.filter (Span.startsAt line start) = spans.filter (Span.startsAt line start)

instance (spans : List Span) : Decidable (Sorted spans) :=
  inferInstanceAs (Decidable (spans.Pairwise fun a b =>
    a.line < b.line ∨ a.line = b.line ∧ a.start ≤ b.start))

theorem Span.startsAt_self (s : Span) : Span.startsAt s.line s.start s = true := by simp [Span.startsAt]

/-- Only places where spans start have to be looked at. -/
theorem stablySorted_iff : StablySorted as spans ↔
    Sorted as ∧ ∀ s ∈ as ++ spans,
      as.filter (Span.startsAt s.line s.start) = spans.filter (Span.startsAt s.line s.start) := by
  refine ⟨fun h => ⟨h.ordered, fun s _ => h.stable s.line s.start⟩, fun h => ⟨h.1, fun line start => ?_⟩⟩
  by_cases here : ∃ s ∈ as ++ spans, Span.startsAt line start s = true
  · obtain ⟨s, mem, place⟩ := here
    obtain ⟨rfl, rfl⟩ : s.line = line ∧ s.start = start := by simpa [Span.startsAt] using place
    exact h.2 s mem
  · have nowhere {ss : List Span} (part : ss ⊆ as ++ spans) : ss.filter (Span.startsAt line start) = [] :=
      List.filter_eq_nil_iff.2 fun s hs place => here ⟨s, part hs, place⟩
    rw [nowhere (List.subset_append_left ..), nowhere (List.subset_append_right ..)]

instance (sorted spans : List Span) : Decidable (StablySorted sorted spans) :=
  decidable_of_iff _ stablySorted_iff.symm

theorem Span.le_iff {a b : Span} : Span.le a b = true ↔ b.From a.line a.start := by
  simp [Span.le, Span.From]

theorem Span.le_trans (a b c : Span) (ab : Span.le a b = true) (bc : Span.le b c = true) :
    Span.le a c = true := by
  simp only [Span.le_iff, Span.From] at *
  omega

theorem Span.le_total (a b : Span) : (Span.le a b || Span.le b a) = true := by
  simp only [Bool.or_eq_true, Span.le_iff, Span.From]
  omega

theorem stablySorted_mergeSort (spans : List Span) : StablySorted (spans.mergeSort Span.le) spans where
  ordered :=
    (List.pairwise_mergeSort Span.le_trans Span.le_total spans).imp fun h => Span.le_iff.1 h
  stable := fun line start => by
    have same : (spans.filter (Span.startsAt line start)).Pairwise fun a b => Span.le a b = true := by
      refine List.pairwise_of_forall_mem_list fun a ha b hb => Span.le_iff.2 ?_
      have here := (List.mem_filter.1 ha).2
      have there := (List.mem_filter.1 hb).2
      simp only [Span.startsAt, decide_eq_true_eq] at here there
      simp only [Span.From]
      omega
    -- a part of the list that is in order stays as it is, and nothing else is at the place
    have kept := (List.sublist_mergeSort Span.le_trans Span.le_total same List.filter_sublist).filter
      (Span.startsAt line start)
    simp only [List.filter_filter, Bool.and_self] at kept
    refine (kept.eq_of_length ?_).symm
    exact ((List.mergeSort_perm spans Span.le).filter _).length_eq.symm

namespace StablySorted

/-- Sorting leaves the spans as they are, each as often as before. -/
theorem perm (h : StablySorted as spans) : as.Perm spans :=
  List.perm_iff_count.2 fun s => by
    rw [← List.count_filter s.startsAt_self, h.stable, List.count_filter s.startsAt_self]

theorem tail {s : Span} (h : StablySorted (s :: as) (s :: spans)) : StablySorted as spans where
  ordered := (List.pairwise_cons.1 h.ordered).2
  stable := fun line start => by
    have same := h.stable line start
    rw [List.filter_cons, List.filter_cons] at same
    split at same
    · exact (List.cons.inj same).2
    · exact same

/-- Two sorted lists of the same spans start at one place: neither first span is before the other. -/
theorem same_place {a b : Span} (h : StablySorted (a :: as) (b :: bs)) (sorted : Sorted (b :: bs)) :
    b.line = a.line ∧ b.start = a.start := by
  rcases List.mem_cons.1 (h.perm.mem_iff.1 List.mem_cons_self) with rfl | later
  · exact ⟨rfl, rfl⟩
  · rcases List.mem_cons.1 (h.perm.mem_iff.2 List.mem_cons_self) with rfl | later'
    · exact ⟨rfl, rfl⟩
    · have ab := (List.pairwise_cons.1 h.ordered).1 b later'
      have ba := (List.pairwise_cons.1 sorted).1 a later
      simp only [Span.From] at ab ba
      omega

/-- Sorting leaves a list as it is that is sorted already. -/
theorem eq_of_sorted (h : StablySorted as bs) (sorted : Sorted bs) : as = bs := by
  induction as generalizing bs with
  | nil => exact (List.nil_perm.1 h.perm).symm
  | cons a as ih =>
    cases bs with
    | nil => cases h.perm.mem_iff.1 List.mem_cons_self
    | cons b bs =>
      have there : Span.startsAt a.line a.start b = true := by
        simpa [Span.startsAt] using h.same_place sorted
      -- what stands at the place of both starts with the first span of either list
      have here := h.stable a.line a.start
      rw [List.filter_cons_of_pos a.startsAt_self, List.filter_cons_of_pos there] at here
      obtain rfl : a = b := (List.cons.inj here).1
      rw [ih h.tail (List.pairwise_cons.1 sorted).2]

/-- Sorting gives one list. -/
theorem unique (h : StablySorted as spans) (h' : StablySorted bs spans) : as = bs :=
  eq_of_sorted ⟨h.ordered, fun line start => (h.stable line start).trans (h'.stable line start).symm⟩
    h'.ordered

end StablySorted

/-! ### Differences -/

/-- Spans that are sorted, from a place on. -/
structure SortedFrom (line start : Nat) (spans : List Span) : Prop where
  after : ∀ s ∈ spans, s.From line start
  ordered : Sorted spans

theorem Sorted.from_zero (h : Sorted spans) : SortedFrom 0 0 spans :=
  ⟨fun s _ => by simp only [Span.From]; omega, h⟩

theorem SortedFrom.tail {s : Span} (h : SortedFrom line start (s :: spans)) :
    SortedFrom s.line s.start spans :=
  ⟨(List.pairwise_cons.1 h.ordered).1, (List.pairwise_cons.1 h.ordered).2⟩

namespace Span

/-- No difference of a list of spans is below zero, from the place before them on. -/
def NoUnderflow (line start : Nat) : List Span → Prop
  | [] => True
  | s :: ss => line ≤ s.line ∧ (s.line - line = 0 → start ≤ s.start) ∧ NoUnderflow s.line s.start ss

/-- The editor gets back the spans that were sent. -/
theorem decodeFrom_encodeFrom (h : SortedFrom line start spans) :
    decodeFrom line start (encodeFrom line start spans) = spans := by
  induction spans generalizing line start with
  | nil => rfl
  | cons s ss ih =>
    have first := h.after s List.mem_cons_self
    simp only [From] at first
    have lines : line + (s.line - line) = s.line := by omega
    have columns : (if s.line - line = 0 then
        start + (if s.line - line = 0 then s.start - start else s.start)
        else if s.line - line = 0 then s.start - start else s.start) = s.start := by
      split <;> omega
    simp only [encodeFrom, List.cons_append, List.nil_append, decodeFrom, lines, columns, ih h.tail]

end Span

theorem SortedFrom.noUnderflow (h : SortedFrom line start spans) : Span.NoUnderflow line start spans := by
  induction spans generalizing line start with
  | nil => trivial
  | cons s ss ih =>
    have first := h.after s List.mem_cons_self
    rw [Span.From] at first
    exact ⟨by omega, by omega, ih h.tail⟩

/-! ### What the editor gets back -/

/-- From a list of differences the editor gets back some spans: sorted by place, and nothing else. -/
def Decodes (data : List Nat) (spans : List Span) : Prop :=
  ∀ shown, Span.decode data = shown ↔ StablySorted shown spans

theorem Decodes.perm {data : List Nat} (h : Decodes data as) (h' : Decodes data bs) : as.Perm bs :=
  ((h _).1 rfl).perm.symm.trans ((h' _).1 rfl).perm

/-- The editor gets back what was sorted before it was sent. -/
theorem decodes_encode (spans : List Span) : Decodes (Span.encode (spans.mergeSort Span.le)) spans := by
  intro shown
  have sorted := stablySorted_mergeSort spans
  rw [Span.decode, Span.encode, Span.decodeFrom_encodeFrom sorted.ordered.from_zero]
  exact ⟨fun same => same ▸ sorted, fun h => sorted.unique h⟩

theorem decodes_highlights {s : Snapshot} (numbered : ∀ t ∈ s.tokens, t.Numbered) :
    Decodes (highlights s) (s.tokens.flatMap (Token.pieces wordsOf)) := by
  rw [highlights, spansOf, List.flatMap_congr fun t ht => Token.spans_eq (numbered t ht)]
  exact decodes_encode _

theorem noUnderflow_spansOf (tokens : List Token) : Span.NoUnderflow 0 0 (spansOf tokens) :=
  (stablySorted_mergeSort _).ordered.from_zero.noUnderflow

/-! ### Lines that are too long -/

/-- The lines that a coloured token on several lines covers can be measured in words. -/
def Token.Measurable (t : Token) : Prop :=
  t.colour?.isSome → t.range.start.line ≠ t.range.stop.line →
    ∀ l ∈ t.lines, Text.unitsOf (withoutReturn l) < Word.size

instance (t : Token) : Decidable t.Measurable :=
  inferInstanceAs (Decidable (t.colour?.isSome → t.range.start.line ≠ t.range.stop.line →
    ∀ l ∈ t.lines, Text.unitsOf (withoutReturn l) < Word.size))

/-- The length of all spans together. -/
def totalLength (spans : List Span) : Nat := (spans.map (·.length)).sum

theorem map_lineStretches (measure : List Char → Nat) (first : Position) (ls : List (List Char)) :
    (lineStretches measure first ls).map (·.2) = ls.map fun l => measure (withoutReturn l) := by
  induction ls generalizing first with
  | nil => rfl
  | cons l ls ih => rw [lineStretches_cons, List.map_cons, List.map_cons, ih]

/-- Stretches that are left out have no length. -/
theorem totalLength_coloured (colour shades : Nat) (stretches : List (Position × Nat)) :
    totalLength (coloured colour shades stretches) = (stretches.map (·.2)).sum := by
  induction stretches with
  | nil => rfl
  | cons stretch stretches ih =>
    rw [coloured_cons, List.map_cons, List.sum_cons, ← ih]
    split
    · next empty => rw [empty, Nat.zero_add]
    · rfl

theorem totalLength_flatMap (f : Token → List Span) (tokens : List Token) :
    totalLength (tokens.flatMap f) = (tokens.map fun t => totalLength (f t)).sum := by
  induction tokens with
  | nil => rfl
  | cons t ts ih =>
    rw [List.flatMap_cons, totalLength, List.map_append, List.sum_append, List.map_cons, List.sum_cons,
      ← ih, totalLength, totalLength]

/-- Lines that words can measure are measured exactly. -/
theorem Token.pieces_wordsOf (short : t.Measurable) : t.pieces wordsOf = t.pieces Text.unitsOf := by
  rw [Token.pieces, Token.pieces]
  cases colour : t.colour? with
  | none => rfl
  | some c =>
    have same : t.stretches wordsOf = t.stretches Text.unitsOf := by
      rw [Token.stretches, Token.stretches]
      split
      · rfl
      · next several =>
        have shown : t.colour?.isSome := by rw [colour, Option.isSome_some]
        exact lineStretches_congr (fun l hl => Word.ofCount_of_lt (short shown several l hl)) _
    dsimp only
    rw [same]

/-- Of a line that is too long something is lost. -/
theorem Token.totalLength_lt (long : ¬ t.Measurable) :
    totalLength (t.pieces wordsOf) < totalLength (t.pieces Text.unitsOf) := by
  simp only [Token.Measurable, not_forall, Nat.not_lt] at long
  obtain ⟨shown, several, l, hl, size_le⟩ := long
  obtain ⟨c, colour⟩ := Option.isSome_iff_exists.1 shown
  have lengths (measure : List Char → Nat) :
      totalLength (t.pieces measure) = (t.lines.map fun l => measure (withoutReturn l)).sum := by
    rw [Token.pieces, colour]
    dsimp only
    rw [totalLength_coloured, Token.stretches, if_neg several, map_lineStretches]
  rw [lengths, lengths]
  exact List.sum_lt_sum _ _ (fun l _ => Word.ofCount_le _) ⟨l, hl, Word.ofCount_lt size_le⟩

/-- In words nothing is longer than it is. -/
theorem Token.totalLength_le (t : Token) :
    totalLength (t.pieces wordsOf) ≤ totalLength (t.pieces Text.unitsOf) := by
  by_cases short : t.Measurable
  · rw [Token.pieces_wordsOf short]
  · exact Nat.le_of_lt (Token.totalLength_lt short)

/-- Nothing is lost exactly if no line is too long. -/
theorem decodes_units_iff {s : Snapshot} (numbered : ∀ t ∈ s.tokens, t.Numbered) :
    Decodes (highlights s) (s.tokens.flatMap (Token.pieces Text.unitsOf)) ↔
      ∀ t ∈ s.tokens, t.Measurable := by
  have words := decodes_highlights numbered
  constructor
  · intro units t ht
    by_contra long
    -- what is sent has the same length as what is covered, but is shorter by what that token loses
    have less := List.sum_lt_sum (l := s.tokens) (fun t => totalLength (t.pieces wordsOf))
      (fun t => totalLength (t.pieces Text.unitsOf)) (fun t _ => t.totalLength_le)
      ⟨t, ht, Token.totalLength_lt long⟩
    have same := ((words.perm units).map (·.length)).sum_eq
    rw [← totalLength_flatMap, ← totalLength_flatMap, totalLength, totalLength, same] at less
    exact Nat.lt_irrefl _ less
  · intro short
    rwa [List.flatMap_congr fun t ht => Token.pieces_wordsOf (short t ht)] at words

/-- **What the editor decodes.** No difference that is sent is below zero, and if the lines of the tokens have
numbers that are words, the editor gets back what the coloured tokens cover, each stretch in the colour of
its token: by place, and what starts at one place in the order of the tokens. Lengths are words: they are
the numbers of code units exactly if no coloured token on several lines has a line that is too long. -/
theorem highlights_decoded (s : Snapshot) (numbered : ∀ t ∈ s.tokens, t.Numbered) :
    Span.NoUnderflow 0 0 (spansOf s.tokens) ∧
    Decodes (highlights s) (s.tokens.flatMap (Token.pieces wordsOf)) ∧
    (Decodes (highlights s) (s.tokens.flatMap (Token.pieces Text.unitsOf)) ↔
      ∀ t ∈ s.tokens, t.Measurable) :=
  ⟨noUnderflow_spansOf _, decodes_highlights numbered, decodes_units_iff numbered⟩

namespace Sample

/-- Tokens out of order: code that was left out, over three lines; a constant; a keyword inside that code,
twice, and a type at the same place; a name without a meaning; and a range that ends before it starts. -/
def tangled : Snapshot :=
  .single ⟨"file:///p/main.bbc"⟩ none
    { tokens :=
        [⟨.skipped, .unknown, "int a;\r\n\n😀 b", ⟨⟨2, 4⟩, ⟨4, 4⟩⟩⟩,
          ⟨.identifier, .constant, "MAX", ⟨⟨0, 4⟩, ⟨0, 7⟩⟩⟩,
          ⟨.identifier, .keyword, "int", ⟨⟨2, 4⟩, ⟨2, 7⟩⟩⟩,
          ⟨.identifier, .keyword, "int", ⟨⟨2, 4⟩, ⟨2, 7⟩⟩⟩,
          ⟨.identifier, .unknown, "a", ⟨⟨2, 8⟩, ⟨2, 9⟩⟩⟩,
          ⟨.identifier, .type, "b", ⟨⟨1, 5⟩, ⟨1, 3⟩⟩⟩] }

end Sample

open Sample in
/-- The case of tokens that are out of order, overlap and repeat. -/
theorem tangled_tokens_decoded :
    (∀ t ∈ tangled.tokens, t.Numbered) ∧ (∀ t ∈ tangled.tokens, t.Measurable) ∧
      Span.decode (highlights tangled) =
        [⟨0, 4, 3, 3, 1⟩, ⟨2, 4, 6, 10, 0⟩, ⟨2, 4, 3, 6, 0⟩, ⟨2, 4, 3, 6, 0⟩, ⟨4, 0, 4, 10, 0⟩] := by
  have numbered : ∀ t ∈ tangled.tokens, t.Numbered := by decide +kernel
  have short : ∀ t ∈ tangled.tokens, t.Measurable := by decide +kernel
  obtain ⟨-, -, units⟩ := highlights_decoded tangled numbered
  exact ⟨numbered, short, (units.2 short _).2 (by decide +kernel)⟩

namespace Sample

/-- Code that was left out, over two lines. The first of them has some number of letters. -/
def leftOut (letters : Nat) : Token :=
  ⟨.skipped, .unknown, String.ofList (List.replicate letters 'a' ++ ['\n', 'b']), ⟨⟨0, 0⟩, ⟨1, 1⟩⟩⟩

/-- A document with nothing else in it. -/
def twoLines (letters : Nat) : Snapshot :=
  .single ⟨"file:///p/main.bbc"⟩ none { tokens := [leftOut letters] }

variable {letters : Nat}

theorem lines_leftOut : (leftOut letters).lines = [List.replicate letters 'a', ['b']] := by
  have unbroken : ∀ c ∈ List.replicate letters 'a', (c == '\n') = false := fun c hc => by
    rw [List.eq_of_mem_replicate hc]
    decide
  rw [leftOut, Token.lines, String.toList_ofList, List.splitOn,
    List.splitOnP_append_cons_of_forall_mem unbroken _ (by decide)]
  rfl

theorem numbered_leftOut : (leftOut letters).Numbered := by
  have breaks : (List.replicate letters 'a' ++ ['\n', 'b']).count '\n' = 1 := by
    rw [List.count_append, List.count_replicate]
    rfl
  rw [leftOut, Token.Numbered, String.toList_ofList, breaks]
  exact (by decide : 0 + 1 < Word.size)

theorem pieces_leftOut (measure : List Char → Nat) : (leftOut letters).pieces measure =
    coloured 10 0 [(⟨0, 0⟩, measure (List.replicate letters 'a')), (⟨1, 0⟩, measure ['b'])] := by
  have whole : withoutReturn (List.replicate letters 'a') = List.replicate letters 'a' :=
    if_neg fun last => by cases List.eq_of_mem_replicate (List.mem_of_getLast? last)
  change coloured 10 0 (lineStretches measure ⟨0, 0⟩ (leftOut letters).lines) = _
  rw [lines_leftOut, lineStretches_cons, lineStretches_cons, whole]
  rfl

theorem unitsOf_letters : Text.unitsOf (List.replicate letters 'a') = letters := by
  induction letters with
  | zero => rfl
  | succ letters ih =>
    have one : Text.unitSize 'a' = 1 := rfl
    rw [List.replicate_succ, Text.unitsOf_cons, ih, one, Nat.add_comm]

end Sample

open Sample in
/-- A line with as many code units as there are words is lost: its length is zero as a word. -/
theorem line_of_word_size_lost :
    (∀ t ∈ (twoLines Word.size).tokens, t.Numbered) ∧
      (twoLines Word.size).tokens.flatMap (Token.pieces Text.unitsOf) =
        [⟨0, 0, Word.size, 10, 0⟩, ⟨1, 0, 1, 10, 0⟩] ∧
      Span.decode (highlights (twoLines Word.size)) = [⟨1, 0, 1, 10, 0⟩] ∧
      ¬ Decodes (highlights (twoLines Word.size))
        ((twoLines Word.size).tokens.flatMap (Token.pieces Text.unitsOf)) := by
  have tokens (measure : List Char → Nat) : (twoLines Word.size).tokens.flatMap (Token.pieces measure) =
      (leftOut Word.size).pieces measure := List.append_nil _
  have numbered : ∀ t ∈ (twoLines Word.size).tokens, t.Numbered := by
    intro t ht
    obtain rfl := List.mem_singleton.1 ht
    exact numbered_leftOut
  have covered : (twoLines Word.size).tokens.flatMap (Token.pieces Text.unitsOf) =
      [⟨0, 0, Word.size, 10, 0⟩, ⟨1, 0, 1, 10, 0⟩] := by
    rw [tokens, pieces_leftOut, unitsOf_letters]
    rfl
  have cut : wordsOf (List.replicate Word.size 'a') = 0 := by
    rw [wordsOf, unitsOf_letters]
    decide
  have decoded : Span.decode (highlights (twoLines Word.size)) = [⟨1, 0, 1, 10, 0⟩] := by
    refine (decodes_highlights numbered _).2 ?_
    rw [tokens, pieces_leftOut, cut]
    decide +kernel
  refine ⟨numbered, covered, decoded, fun whole => ?_⟩
  have sorted := (whole _).1 decoded
  rw [covered] at sorted
  exact absurd sorted.perm.length_eq (by decide)

end LanguageServer
