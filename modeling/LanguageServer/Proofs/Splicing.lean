import LanguageServer.Proofs.Editing
import LanguageServer.Text.Rope
import Mathlib.Data.List.GetD

/-!
# Edits are splices

Every operation on a rope that an edit asks for is one that the rope can do, whatever the positions are.
So a document can always be edited, and what comes of it is the text with spans replaced.

* `Rope.exists_split`, `Rope.lineStart_succ`: a text is its lines before a line, the line, and the rest;
* `Text.charsWithin_append`, `charsWithin_min`: columns and places in a line;
* `Text.offset_le_length`, `offset_mono`, `offset_positionOf`: positions and places in a text;
* `Rope.locate?_eq`, `edit?_eq`, `editAll?_eq`: no operation is refused;
* `Document.edits_are_splices`: what edits do.
-/

namespace LanguageServer.Text

variable {cs xs ys : List Char} {units units' line line' i : Nat} {p q : Position}

/-! ### Code units and characters -/

theorem charsWithin_zero (cs : List Char) : charsWithin 0 cs = 0 := by
  cases cs with
  | nil => rfl
  | cons c cs =>
    have := unitSize_pos c
    rw [charsWithin, if_neg (by omega)]

/-- Code units in the second part of a text. -/
theorem charsWithin_append (xs ys : List Char) (units : Nat) :
    charsWithin (unitsOf xs + units) (xs ++ ys) = xs.length + charsWithin units ys := by
  induction xs with
  | nil => simp
  | cons x xs ih =>
    have rest : unitsOf (x :: xs) + units - unitSize x = unitsOf xs + units := by
      rw [unitsOf_cons]
      omega
    rw [List.cons_append, charsWithin, if_pos (by rw [unitsOf_cons]; omega), rest, ih,
      List.length_cons]
    omega

/-- Code units in the first part of a text. -/
theorem charsWithin_append_left (h : units ≤ unitsOf xs) (ys : List Char) :
    charsWithin units (xs ++ ys) = charsWithin units xs := by
  induction xs generalizing units with
  | nil =>
    obtain rfl : units = 0 := Nat.le_zero.1 h
    rw [List.nil_append, charsWithin_zero, charsWithin_zero]
  | cons x xs ih =>
    rw [unitsOf_cons] at h
    rw [List.cons_append, charsWithin, charsWithin, ih (by omega)]

theorem charsWithin_unitsOf (cs : List Char) : charsWithin (unitsOf cs) cs = cs.length := by
  simpa [charsWithin] using charsWithin_append cs [] 0

theorem charsWithin_mono (h : units ≤ units') (cs : List Char) :
    charsWithin units cs ≤ charsWithin units' cs := by
  induction cs generalizing units units' with
  | nil => exact Nat.le_refl _
  | cons c cs ih =>
    rw [charsWithin, charsWithin]
    split
    · rw [if_pos (by omega)]
      exact Nat.succ_le_succ (ih (by omega))
    · exact Nat.zero_le _

theorem charsWithin_le_length (units : Nat) (cs : List Char) : charsWithin units cs ≤ cs.length := by
  induction cs generalizing units with
  | nil => exact Nat.le_refl _
  | cons c cs ih =>
    rw [charsWithin]
    split
    · exact Nat.succ_le_succ (ih _)
    · exact Nat.zero_le _

/-- More code units than a text has mean its end. -/
theorem charsWithin_min (units : Nat) (cs : List Char) :
    charsWithin (min units (unitsOf cs)) cs = charsWithin units cs := by
  rcases Nat.le_total units (unitsOf cs) with inside | beyond
  · rw [Nat.min_eq_left inside]
  · rw [Nat.min_eq_right beyond]
    refine Nat.le_antisymm (charsWithin_mono beyond cs) ?_
    rw [charsWithin_unitsOf]
    exact charsWithin_le_length units cs

namespace Rope

/-! ### Lines -/

/-- A line of a text, with its end. -/
def lineAt (line : Nat) (cs : List Char) : List Char := (lines cs).getD line []

theorem lineStart_of_lineCount_le (h : lineCount cs ≤ line) : lineStart line cs = cs.length := by
  rw [lineStart, List.take_of_length_le h, flatten_lines]

theorem flatten_take_succ (ls : List (List Char)) (line : Nat) :
    (ls.take (line + 1)).flatten = (ls.take line).flatten ++ ls.getD line [] := by
  induction ls generalizing line with
  | nil => simp
  | cons l ls ih =>
    cases line with
    | zero => simp
    | succ line => simp [ih line]

/-- A text is what comes before a line, the line, and what follows. -/
theorem exists_split (line : Nat) (cs : List Char) :
    ∃ before l after, cs = before ++ (l ++ after) ∧ lineStart line cs = before.length ∧
      lineAt line cs = l := by
  refine ⟨((lines cs).take line).flatten, _, ((lines cs).drop (line + 1)).flatten, ?_, rfl, rfl⟩
  calc cs = ((lines cs).take (line + 1)).flatten ++ ((lines cs).drop (line + 1)).flatten := by
        rw [← List.flatten_append, List.take_append_drop, flatten_lines]
    _ = _ := by rw [flatten_take_succ, List.append_assoc, lineAt]

/-- The next line starts after the line. -/
theorem lineStart_succ (line : Nat) (cs : List Char) :
    lineStart (line + 1) cs = lineStart line cs + (lineAt line cs).length := by
  rw [lineStart, flatten_take_succ, List.length_append]
  rfl

theorem lineStart_mono (h : line ≤ line') (cs : List Char) :
    lineStart line cs ≤ lineStart line' cs := by
  induction h with
  | refl => exact Nat.le_refl _
  | step _ ih =>
    rw [lineStart_succ]
    omega

theorem lineStart_le_length (line : Nat) (cs : List Char) : lineStart line cs ≤ cs.length := by
  rcases Nat.le_total line (lineCount cs) with inside | beyond
  · exact Nat.le_trans (lineStart_mono inside cs)
      (Nat.le_of_eq (lineStart_of_lineCount_le (Nat.le_refl _)))
  · exact Nat.le_of_eq (lineStart_of_lineCount_le beyond)

/-! ### The line of a place -/

theorem lineStart_lineOf_le (i : Nat) (cs : List Char) : lineStart (lineOf i cs) cs ≤ i :=
  Nat.findGreatest_spec (P := (lineStart · cs ≤ i)) (Nat.zero_le _) (Nat.zero_le _)

/-- A place in a text does not lie after the end of its line. -/
theorem le_lineStart_succ (h : i ≤ cs.length) : i ≤ lineStart (lineOf i cs + 1) cs := by
  by_cases last : lineOf i cs + 1 ≤ lineCount cs - 1
  · have later : ¬ lineStart (lineOf i cs + 1) cs ≤ i :=
      Nat.findGreatest_is_greatest (P := (lineStart · cs ≤ i)) (Nat.lt_succ_self _) last
    omega
  · rw [lineStart_of_lineCount_le (by omega)]
    exact h

end Rope

/-! ### Positions -/

open Rope

theorem offset_eq (p : Position) (cs : List Char) :
    offset p cs = lineStart p.line cs + charsWithin p.character (lineAt p.line cs) := rfl

theorem offset_le_lineStart_succ (p : Position) (cs : List Char) :
    offset p cs ≤ lineStart (p.line + 1) cs := by
  rw [offset_eq, lineStart_succ]
  exact Nat.add_le_add_left (charsWithin_le_length _ _) _

/-- Every position means a place in the text. -/
theorem offset_le_length (p : Position) (cs : List Char) : offset p cs ≤ cs.length :=
  Nat.le_trans (offset_le_lineStart_succ p cs) (lineStart_le_length _ cs)

/-- A position that comes before another is not after it in the text. -/
theorem offset_mono (h : p.le q = true) (cs : List Char) : offset p cs ≤ offset q cs := by
  simp only [Position.le, Bool.or_eq_true, Bool.and_eq_true, decide_eq_true_eq, beq_iff_eq] at h
  rcases h with earlier | ⟨same, before⟩
  · calc offset p cs ≤ lineStart (p.line + 1) cs := offset_le_lineStart_succ p cs
      _ ≤ lineStart q.line cs := lineStart_mono earlier cs
      _ ≤ offset q cs := Nat.le_add_right _ _
  · rw [offset_eq, offset_eq, same]
    exact Nat.add_le_add_left (charsWithin_mono before _) _

/-- The position of a place means that place. -/
theorem offset_positionOf (h : i ≤ cs.length) : offset (positionOf i cs) cs = i := by
  generalize hl : lineOf i cs = line
  have from_start : lineStart line cs ≤ i := hl ▸ lineStart_lineOf_le i cs
  have to_stop : i ≤ lineStart (line + 1) cs := hl ▸ le_lineStart_succ h
  obtain ⟨before, l, after, text, start, content⟩ := exists_split line cs
  rw [start] at from_start
  rw [lineStart_succ, start, content] at to_stop
  obtain ⟨k, rfl⟩ := Nat.exists_eq_add_of_le from_start
  have inside : k ≤ l.length := Nat.le_of_add_le_add_left to_stop
  -- the characters of the line that come before the place
  have counted : (cs.take (before.length + k)).drop before.length = l.take k := by
    rw [text, List.take_length_add_append, List.drop_left, List.take_append_of_le_length inside]
  have column : charsWithin (unitsOf (l.take k)) l = k := by
    have units := charsWithin_append (l.take k) (l.drop k) 0
    rw [List.take_append_drop, Nat.add_zero, charsWithin_zero, List.length_take] at units
    omega
  simp only [offset_eq, positionOf, hl, start, content, counted, column]

namespace Rope

/-! ### No operation is refused -/

theorem lineStart?_eq (h : line ≤ lineCount cs) : lineStart? line cs = some (lineStart line cs) :=
  if_pos h

theorem lineStop?_eq (line : Nat) (cs : List Char) :
    lineStop? line cs = some (lineStart (line + 1) cs) := by
  rw [lineStop?]
  split
  · next inner => exact lineStart?_eq (Nat.le_of_lt inner)
  · next last => rw [lineStart_of_lineCount_le (Nat.le_of_not_lt last)]

/-- A position is found, since every index that is asked for lies in the text. -/
theorem locate?_eq (p : Position) (cs : List Char) : locate? p cs = some (offset p cs) := by
  rw [locate?]
  split
  · next beyond =>
    have none : lineAt p.line cs = [] := List.getD_eq_default _ _ beyond
    rw [offset_eq, lineStart_of_lineCount_le beyond, none]
    rfl
  · next inside =>
    obtain ⟨before, l, after, text, start, content⟩ := exists_split p.line cs
    have inner : before.length + l.length ≤ cs.length := by
      rw [text, List.length_append, List.length_append]
      omega
    have first : unitsBefore? before.length cs = some (unitsOf before) := by
      rw [unitsBefore?, if_pos (by omega), text, List.take_left]
    have last : unitsBefore? (before.length + l.length) cs = some (unitsOf before + unitsOf l) := by
      rw [unitsBefore?, if_pos inner, text, List.take_length_add_append, List.take_left, unitsOf_append]
    -- the column is cut at the end of the line
    have cut : min (unitsOf before + p.character) (unitsOf before + unitsOf l) =
        unitsOf before + min p.character (unitsOf l) := Nat.add_min_add_left ..
    have found : atUnit? (unitsOf before + min p.character (unitsOf l)) cs =
        some (before.length + charsWithin p.character l) := by
      rw [atUnit?, if_pos (by rw [text, unitsOf_append, unitsOf_append]; omega), text,
        charsWithin_append, charsWithin_append_left (Nat.min_le_right _ _), charsWithin_min]
    simp only [lineStart?_eq (Nat.le_of_not_le inside), lineStop?_eq,
      lineStart_succ, start, content, Option.bind_eq_bind, Option.bind_some, first, last, cut, found,
      offset_eq]

/-- A span of places in a text is removed, and another text is put where it was. -/
theorem insert?_of_remove? {start stop : Nat} (order : start ≤ stop) (inside : stop ≤ cs.length)
    (text : List Char) :
    (remove? start stop cs).bind (insert? start text) = some (cs.take start ++ text ++ cs.drop stop) := by
  have length : (cs.take start).length = start := List.length_take_of_le (Nat.le_trans order inside)
  have room : start ≤ (cs.take start ++ cs.drop stop).length := by
    rw [List.length_append, length]
    exact Nat.le_add_right _ _
  rw [remove?, if_pos ⟨order, inside⟩, Option.bind_some, insert?, if_pos room,
    List.take_left' length, List.drop_left' length]

theorem edit?_eq (change : Change) (cs : List Char) :
    edit? change cs = some (change.applyTo cs) := by
  rw [edit?, Change.applyTo]
  cases change.range with
  | none => rfl
  | some r =>
    simp only [locate?_eq, Option.bind_eq_bind, Option.bind_some]
    exact insert?_of_remove? (Nat.le_max_right _ _)
      (Nat.max_le.2 ⟨offset_le_length _ _, offset_le_length _ _⟩) _

theorem editAll?_eq (changes : List Change) (cs : List Char) :
    editAll? changes cs = some (changes.foldl (fun cs change => change.applyTo cs) cs) := by
  induction changes generalizing cs with
  | nil => rfl
  | cons change changes ih =>
    rw [editAll?, List.foldlM_cons, edit?_eq, List.foldl_cons]
    exact ih _

end Rope

end LanguageServer.Text

namespace LanguageServer

/-! ### Documents -/

open Text

/-- **Edits are splices.** Every position is found, and means a place in the text: a later position none
that comes before, and the position of a place that place. So edits of a document are never refused. Each
of them replaces the whole text, or leaves what comes before its start and what comes after its end (or its
start, if the end comes before that) and puts the new text in between. -/
theorem Document.edits_are_splices (d : Document) (changes : List Change) (version : Int) :
    (∀ cs p, Rope.locate? p cs = some (offset p cs) ∧ offset p cs ≤ cs.length) ∧
    (∀ cs (p q : Position), p.le q = true → offset p cs ≤ offset q cs) ∧
    (∀ cs i, i ≤ cs.length → offset (Rope.positionOf i cs) cs = i) ∧
    ∃ edited, Rope.editAll? changes (d.text.getD "").toList = some edited ∧
      (d.changed changes version).text = some (String.ofList edited) ∧
      edited = changes.foldl
        (fun cs change =>
          match change.range with
          | none => change.text.toList
          | some r =>
            cs.take (offset r.start cs) ++ change.text.toList ++
              cs.drop (max (offset r.start cs) (offset r.stop cs)))
        (d.text.getD "").toList := by
  refine ⟨fun cs p => ⟨Rope.locate?_eq p cs, offset_le_length p cs⟩, fun cs p q h => offset_mono h cs,
    fun cs i => offset_positionOf, _, Rope.editAll?_eq changes _, rfl, ?_⟩
  congr 1
  funext cs change
  rw [Change.applyTo]
  cases change.range with
  | none => rfl
  | some r => simp only [Nat.max_comm]

namespace Sample

/-- A text with a smile, a line break of two characters, and a line separator. -/
def mixedText : List Char := "a😀\r\nb\u2028".toList

end Sample

open Sample in
/-- The case of the place between the two characters of a line break, of a column in the next line, and of
an end that comes before its start. -/
theorem Document.backward_edit_is_splice :
    3 ≤ mixedText.length ∧ Rope.positionOf 3 mixedText = ⟨0, 4⟩ ∧
      offset (Rope.positionOf 3 mixedText) mixedText = 3 ∧
    (⟨0, 4⟩ : Position).le ⟨1, 1⟩ = true ∧ offset ⟨0, 4⟩ mixedText ≤ offset ⟨1, 1⟩ mixedText ∧
    ((blank.opened (String.ofList mixedText) 1).changed [edit ⟨1, 1⟩ ⟨0, 1⟩ "X"] 2).text =
      some "a😀\r\nbX\u2028" := by
  obtain ⟨-, order, same, edited, -, text, rfl⟩ :=
    edits_are_splices (blank.opened (String.ofList mixedText) 1) [edit ⟨1, 1⟩ ⟨0, 1⟩ "X"] 2
  have long : 3 ≤ mixedText.length := by decide +kernel
  have before : (⟨0, 4⟩ : Position).le ⟨1, 1⟩ = true := rfl
  refine ⟨long, by decide +kernel, same mixedText 3 long, before, order mixedText _ _ before, ?_⟩
  rw [text]
  decide +kernel

end LanguageServer
