import LanguageServer.Document

/-!
# Texts as the editor has them

The editor and the server apply the same edits, each to its own copy of a text. By the rules of the
protocol a line ends at a line feed, a carriage return, or both in this order; columns count UTF-16 code
units; and a column past the end of its line means the end of the line, before what ends it.

* `Editor.offset`, `Editor.applyTo`: positions and edits by these rules;
* `Editor.Plain`, `Editor.fits`: texts and positions that both sides understand alike, `offset_eq_iff`
  and `plain_iff`;
* `Editor.Suits`, `Document.text_of_reports`: edits after which both have the same text.
-/

namespace LanguageServer

namespace Editor

open Text

/-! ### The rules -/

/-- The characters that end a line. -/
def isBreak (c : Char) : Bool := c == '\n' || c == '\r'

/-- The number of characters before a column of the first line of a text. -/
def columnOffset : Nat → List Char → Nat
  | _, [] => 0
  | units, c :: cs =>
    if isBreak c then 0
    else if unitSize c ≤ units then columnOffset (units - unitSize c) cs + 1 else 0

/-- The number of characters before a column of a line; there are none beyond the last line. -/
def lineOffset (column : Nat) : Nat → List Char → Nat
  | 0, cs => columnOffset column cs
  | _ + 1, [] => 0
  | line + 1, '\r' :: '\n' :: cs => lineOffset column line cs + 2
  | line + 1, c :: cs =>
    if isBreak c then lineOffset column line cs + 1 else lineOffset column (line + 1) cs + 1

/-- The number of characters before a position. -/
def offset (p : Position) (cs : List Char) : Nat := lineOffset p.character p.line cs

/-- The text after an edit. -/
def applyTo (change : Change) (cs : List Char) : List Char :=
  match change.range with
  | none => change.text.toList
  | some r => cs.take (offset r.start cs) ++ change.text.toList ++ cs.drop (offset r.stop cs)

/-- The text after a sequence of edits, each made on the result of the one before. -/
def applyAll (changes : List Change) (text : String) : String :=
  String.ofList (changes.foldl (fun cs change => applyTo change cs) text.toList)

/-! ### What both sides understand alike -/

/-- Whether a column of the first line of a text lies in the line, or no line follows. -/
def fitsColumn : Nat → List Char → Bool
  | _, [] => true
  | units, c :: cs =>
    if isBreak c then units == 0
    else if unitSize c ≤ units then fitsColumn (units - unitSize c) cs else true

/-- Whether a column of a line lies in the line, or no line follows. -/
def fitsLine (column : Nat) : Nat → List Char → Bool
  | 0, cs => fitsColumn column cs
  | _ + 1, [] => true
  | line + 1, '\r' :: '\n' :: cs => fitsLine column line cs
  | line + 1, c :: cs =>
    if isBreak c then fitsLine column line cs else fitsLine column (line + 1) cs

/-- Whether a position lies in its line, or beyond the end of the text. -/
def fits (p : Position) (cs : List Char) : Bool := fitsLine p.character p.line cs

/-- A text in which only line feeds and carriage returns end a line before the end of the text. -/
def Plain (cs : List Char) : Prop := ∀ c ∈ cs.dropLast, isLineEnd c = true → isBreak c = true

instance (cs : List Char) : Decidable (Plain cs) :=
  List.decidableBAll (fun c => isLineEnd c = true → isBreak c = true) cs.dropLast

variable {c : Char} {cs : List Char} {column line : Nat}

theorem isLineEnd_of_isBreak (h : isBreak c = true) : isLineEnd c = true := by
  simp only [isBreak, Bool.or_eq_true, beq_iff_eq] at h
  rcases h with rfl | rfl <;> rfl

theorem Plain.tail (h : Plain (c :: cs)) : Plain cs := by
  cases cs with
  | nil => exact fun _ hd => nomatch hd
  | cons d ds => exact fun x hx => h x (List.mem_cons_of_mem _ hx)

end Editor

/-! ### Lines one character after the other -/

namespace Text

variable {c : Char} {cs : List Char} {column line : Nat}

/-- The first line of a text. -/
def firstLine (cs : List Char) : List Char := (lines cs).getD 0 []

theorem offset_zero (column : Nat) (cs : List Char) :
    offset ⟨0, column⟩ cs = charsWithin column (firstLine cs) := by
  simp [offset, offsetIn, firstLine]

theorem offset_nil (p : Position) : offset p [] = 0 := by
  cases h : p.line <;> simp [offset, offsetIn, lines, charsWithin, h]

theorem firstLine_crlf (cs : List Char) : firstLine ('\r' :: '\n' :: cs) = ['\r', '\n'] := rfl

theorem offset_crlf (line column : Nat) (cs : List Char) :
    offset ⟨line + 1, column⟩ ('\r' :: '\n' :: cs) = offset ⟨line, column⟩ cs + 2 := by
  simp [offset, offsetIn, lines]
  omega

section

variable (single : ∀ ds, c = '\r' → cs = '\n' :: ds → False)

include single

/-- A character without the line feed that would make one end of a line with it. -/
theorem lines_cons : lines (c :: cs) =
    if isLineEnd c then [c] :: lines cs else (c :: firstLine cs) :: (lines cs).tail := by
  rw [lines.eq_3 _ _ single]
  split
  · rfl
  · unfold firstLine
    split
    · next none => exact absurd none (lines_ne_nil cs)
    · next some => simp [some]

theorem firstLine_cons : firstLine (c :: cs) = if isLineEnd c then [c] else c :: firstLine cs := by
  rw [firstLine, lines_cons single]
  split <;> rfl

theorem offset_cons (line column : Nat) : offset ⟨line + 1, column⟩ (c :: cs) =
    if isLineEnd c then offset ⟨line, column⟩ cs + 1 else offset ⟨line + 1, column⟩ cs + 1 := by
  simp only [offset, offsetIn]
  rw [lines_cons single]
  split
  · simp
    omega
  · unfold firstLine
    cases h : lines cs with
    | nil => exact absurd h (lines_ne_nil cs)
    | cons l ls =>
      simp
      omega

end

/-- A line that starts with what ends it. -/
theorem firstLine_of_isLineEnd (h : isLineEnd c = true) (cs : List Char) :
    ∃ l, firstLine (c :: cs) = c :: l := by
  by_cases pair : c = '\r' ∧ ∃ ds, cs = '\n' :: ds
  · obtain ⟨rfl, ds, rfl⟩ := pair
    exact ⟨['\n'], firstLine_crlf ds⟩
  · refine ⟨[], ?_⟩
    rw [firstLine_cons fun ds hc hcs => pair ⟨hc, ds, hcs⟩, if_pos h]

end Text

namespace Editor

open Text

variable {c : Char} {cs : List Char} {column line : Nat}

theorem not_pair (h : isBreak c ≠ true) : ∀ ds, c = '\r' → cs = '\n' :: ds → False := by
  rintro ds rfl
  exact absurd rfl h

theorem unitSize_of_isBreak (h : isBreak c = true) : unitSize c = 1 := by
  simp only [isBreak, Bool.or_eq_true, beq_iff_eq] at h
  rcases h with rfl | rfl <;> rfl

/-- Any other end of a line stands at the end of a plain text. -/
theorem Plain.eq_nil (plain : Plain (c :: cs)) (ends : ¬ isBreak c = true)
    (other : isLineEnd c = true) : cs = [] := by
  cases cs with
  | nil => rfl
  | cons d ds => exact absurd (plain c (by simp) other) ends

/-- In the first line both sides mean the same place exactly if the column fits. -/
theorem charsWithin_eq_iff (plain : Plain cs) :
    charsWithin column (firstLine cs) = columnOffset column cs ↔ fitsColumn column cs = true := by
  induction cs generalizing column with
  | nil => simp [firstLine, lines, charsWithin, columnOffset, fitsColumn]
  | cons c cs ih =>
    by_cases ends : isBreak c = true
    · obtain ⟨l, hl⟩ := firstLine_of_isLineEnd (isLineEnd_of_isBreak ends) cs
      simp only [hl, charsWithin, columnOffset, fitsColumn, ends, if_true, unitSize_of_isBreak ends,
        beq_iff_eq]
      split <;> omega
    · simp only [firstLine_cons (not_pair ends), columnOffset, fitsColumn, ends]
      cases other : isLineEnd c with
      | false =>
        simp only [Bool.false_eq_true, if_false, charsWithin]
        split
        · rw [Nat.add_right_cancel_iff, ih plain.tail]
        · simp
      | true =>
        obtain rfl := plain.eq_nil ends other
        simp [charsWithin, columnOffset, fitsColumn]

/-- **Positions.** In a plain text both sides mean the same place exactly if the position fits. -/
theorem offset_eq_iff (plain : Plain cs) (p : Position) :
    Text.offset p cs = offset p cs ↔ fits p cs = true := by
  obtain ⟨line, column⟩ := p
  simp only [offset, fits]
  fun_induction lineOffset column line cs with
  | case1 cs => rw [offset_zero, fitsLine, charsWithin_eq_iff plain]
  | case2 line => simp [offset_nil, fitsLine]
  | case3 line cs ih =>
    rw [offset_crlf, fitsLine, Nat.add_right_cancel_iff, ih plain.tail.tail]
  | case4 line c cs single ends ih =>
    rw [offset_cons single, if_pos (isLineEnd_of_isBreak ends), fitsLine.eq_4 _ _ _ _ single,
      if_pos ends, Nat.add_right_cancel_iff, ih plain.tail]
  | case5 line c cs single ends ih =>
    rw [offset_cons single, fitsLine.eq_4 _ _ _ _ single, if_neg ends]
    cases other : isLineEnd c with
    | false => simp only [Bool.false_eq_true, if_false, Nat.add_right_cancel_iff, ih plain.tail]
    | true =>
      obtain rfl := plain.eq_nil ends other
      simp [offset_nil, lineOffset, fitsLine]

theorem Plain.cons (plain : Plain cs) (ends : isLineEnd c = true → isBreak c = true ∨ cs = []) :
    Plain (c :: cs) := by
  cases cs with
  | nil => exact fun _ hx => nomatch hx
  | cons d ds =>
    intro x hx other
    rcases List.mem_cons.1 hx with rfl | hx
    · exact (ends other).resolve_right (List.cons_ne_nil _ _)
    · exact plain x hx other

theorem fitsColumn_zero (cs : List Char) : fitsColumn 0 cs = true := by
  cases cs with
  | nil => rfl
  | cons c cs =>
    have := unitSize_pos c
    simp [fitsColumn, Nat.ne_of_gt this]

theorem fitsLine_zero (line : Nat) (cs : List Char) : fitsLine 0 line cs = true := by
  fun_induction fitsLine 0 line cs with
  | case1 cs => exact fitsColumn_zero cs
  | case2 => rfl
  | case3 | case4 | case5 => assumption

theorem lineOffset_pos (column line : Nat) (c : Char) (cs : List Char) :
    0 < lineOffset column (line + 1) (c :: cs) := by
  by_cases pair : ∃ ds, c = '\r' ∧ cs = '\n' :: ds
  · obtain ⟨ds, rfl, rfl⟩ := pair
    simp [lineOffset]
  · rw [lineOffset.eq_4 _ _ _ _ fun ds hc hcs => pair ⟨ds, hc, hcs⟩]
    split <;> omega

/-- If another character than a line feed or a carriage return ends a line in the midst of a text, the
two sides mean different places somewhere after it. -/
theorem exists_offset_ne (ends : ¬ isBreak c = true) (other : isLineEnd c = true) (d : Char)
    (cs : List Char) :
    ∃ p, fits p (c :: d :: cs) = true ∧ Text.offset p (c :: d :: cs) ≠ offset p (c :: d :: cs) := by
  by_cases next : isBreak d = true
  · -- the start of the next line
    refine ⟨⟨1, 0⟩, fitsLine_zero 1 _, ?_⟩
    have start : charsWithin 0 (firstLine (d :: cs)) = 0 := by
      obtain ⟨l, hl⟩ := firstLine_of_isLineEnd (isLineEnd_of_isBreak next) cs
      simp [hl, charsWithin, unitSize_of_isBreak next]
    have later : 0 < lineOffset 0 1 (d :: cs) := lineOffset_pos 0 0 d cs
    rw [offset_cons (not_pair ends), if_pos other, offset_zero, start, offset,
      lineOffset.eq_4 _ _ _ _ (not_pair ends), if_neg ends]
    exact fun he => Nat.ne_of_lt later (Nat.add_right_cancel he)
  · -- right after the next character
    refine ⟨⟨0, unitSize c + unitSize d⟩, ?_, ?_⟩
    · simp [fits, fitsLine, fitsColumn, ends, next, fitsColumn_zero]
    · rw [offset_zero, firstLine_cons (not_pair ends), if_pos other]
      simp [offset, lineOffset, columnOffset, charsWithin, ends, next]

/-- A character before which both sides are at the same place can be left out. -/
theorem same_tail (single : ∀ ds, c = '\r' → cs = '\n' :: ds → False)
    (plain : isLineEnd c = true → isBreak c = true)
    (same : ∀ p, fits p (c :: cs) = true → Text.offset p (c :: cs) = offset p (c :: cs)) :
    ∀ p, fits p cs = true → Text.offset p cs = offset p cs := by
  rintro ⟨line, column⟩ fit
  by_cases ends : isBreak c = true
  · have := same ⟨line + 1, column⟩ (by simpa [fits, fitsLine.eq_4 _ _ _ _ single, ends] using fit)
    simpa [offset_cons single, isLineEnd_of_isBreak ends, offset, lineOffset.eq_4 _ _ _ _ single,
      ends] using this
  · have goes : ¬ isLineEnd c = true := fun h => ends (plain h)
    cases line with
    | zero =>
      have := same ⟨0, column + unitSize c⟩ (by simpa [fits, fitsLine, fitsColumn, ends] using fit)
      simpa [offset_zero, firstLine_cons single, goes, charsWithin, offset, lineOffset, columnOffset,
        ends] using this
    | succ line =>
      have := same ⟨line + 1, column⟩ (by simpa [fits, fitsLine.eq_4 _ _ _ _ single, ends] using fit)
      simpa [offset_cons single, goes, offset, lineOffset.eq_4 _ _ _ _ single, ends] using this

/-- Both sides mean the same places, as far as they fit, only in plain texts. -/
theorem plain_of_same (same : ∀ p, fits p cs = true → Text.offset p cs = offset p cs) : Plain cs := by
  fun_induction lines cs with
  | case1 => simp [Plain]
  | case2 cs ih =>
    refine ((ih fun p fit => ?_).cons fun _ => Or.inl rfl).cons fun _ => Or.inl rfl
    have := same ⟨p.line + 1, p.character⟩ (by simpa [fits, fitsLine] using fit)
    simpa [offset_crlf, offset, lineOffset] using this
  | case3 c cs single other ih =>
    by_cases ends : isBreak c = true
    · exact (ih (same_tail single (fun _ => ends) same)).cons fun _ => Or.inl ends
    · cases cs with
      | nil => simp [Plain]
      | cons d ds =>
        obtain ⟨p, fit, apart⟩ := exists_offset_ne ends other d ds
        exact absurd (same p fit) apart
  | case4 c cs single goes _ ih | case5 c cs single goes _ _ _ ih =>
    exact (ih (same_tail single (fun h => absurd h goes) same)).cons fun h => absurd h goes

/-- Both sides mean the same places, as far as they fit, exactly in the plain texts. -/
theorem plain_iff : Plain cs ↔ ∀ p, fits p cs = true → Text.offset p cs = offset p cs :=
  ⟨fun plain p => (offset_eq_iff plain p).2, plain_of_same⟩

/-! ### Edits -/

theorem columnOffset_mono {units units' : Nat} (h : units ≤ units') (cs : List Char) :
    columnOffset units cs ≤ columnOffset units' cs := by
  induction cs generalizing units units' with
  | nil => exact Nat.zero_le _
  | cons c cs ih =>
    simp only [columnOffset]
    split
    · exact Nat.zero_le _
    · split
      · rw [if_pos (by omega)]
        exact Nat.succ_le_succ (ih (by omega))
      · exact Nat.zero_le _

/-- A place in the first line comes before all places in the lines that follow. -/
theorem columnOffset_le (units column line : Nat) (cs : List Char) :
    columnOffset units cs ≤ lineOffset column (line + 1) cs := by
  induction cs generalizing units with
  | nil => exact Nat.zero_le _
  | cons c cs ih =>
    simp only [columnOffset]
    split
    · exact Nat.zero_le _
    · next ends =>
      rw [lineOffset.eq_4 _ _ _ _ (not_pair ends), if_neg ends]
      split
      · exact Nat.succ_le_succ (ih _)
      · exact Nat.zero_le _

/-- A position that comes before another is not after it in the text. -/
theorem offset_mono {p q : Position} (h : p.le q = true) (cs : List Char) :
    offset p cs ≤ offset q cs := by
  obtain ⟨line, column⟩ := p
  obtain ⟨line', column'⟩ := q
  simp only [offset]
  fun_induction lineOffset column line cs generalizing line' with
  | case1 cs =>
    cases line' with
    | zero =>
      rw [lineOffset]
      exact columnOffset_mono (by simpa [Position.le] using h) cs
    | succ line' => exact columnOffset_le column column' line' cs
  | case2 => exact Nat.zero_le _
  | case3 line cs ih =>
    cases line' with
    | zero => simp [Position.le] at h
    | succ line' => exact Nat.add_le_add_right (ih line' (by simpa [Position.le] using h)) 2
  | case4 line c cs single ends ih =>
    cases line' with
    | zero => simp [Position.le] at h
    | succ line' =>
      rw [lineOffset.eq_4 _ _ _ _ single, if_pos ends]
      exact Nat.succ_le_succ (ih line' (by simpa [Position.le] using h))
  | case5 line c cs single ends ih =>
    cases line' with
    | zero => simp [Position.le] at h
    | succ line' =>
      rw [lineOffset.eq_4 _ _ _ _ single, if_neg ends]
      exact Nat.succ_le_succ (ih (line' + 1) h)

/-- An edit that both sides understand alike: of the whole text, or in a plain text between two
positions that fit, in their order. -/
def Suits (change : Change) (cs : List Char) : Prop :=
  ∀ r, change.range = some r →
    r.start.le r.stop = true ∧ Plain cs ∧ fits r.start cs = true ∧ fits r.stop cs = true

/-- A sequence of edits that both sides understand alike, each of them in the text that it finds. -/
def SuitsAll : List Change → List Char → Prop
  | [], _ => True
  | change :: changes, cs => Suits change cs ∧ SuitsAll changes (applyTo change cs)

theorem applyTo_eq {change : Change} (h : Suits change cs) :
    change.applyTo cs = applyTo change cs := by
  unfold Change.applyTo applyTo
  cases hr : change.range with
  | none => rfl
  | some r =>
    obtain ⟨order, plain, start, stop⟩ := h r hr
    simp only [(offset_eq_iff plain _).2 start, (offset_eq_iff plain _).2 stop,
      Nat.max_eq_left (offset_mono order cs)]

end Editor

namespace Text

/-- Edits that suit lead to the same text on both sides. -/
theorem applyAll_eq {changes : List Change} {text : String}
    (h : Editor.SuitsAll changes text.toList) :
    applyAll changes text = Editor.applyAll changes text := by
  unfold applyAll Editor.applyAll
  congr 1
  generalize text.toList = cs at h
  induction changes generalizing cs with
  | nil => rfl
  | cons change changes ih =>
    rw [List.foldl_cons, List.foldl_cons, Editor.applyTo_eq h.1]
    exact ih _ h.2

theorem applyAll_append (first second : List Change) (text : String) :
    applyAll (first ++ second) text = applyAll second (applyAll first text) := by
  simp [applyAll]

end Text

namespace Document

open Text

/-- The edits of several reports are made one after the other. -/
theorem text_foldl_changed (reports : List (List Change × Int)) {d : Document} {text : String}
    (start : d.text = some text) :
    (reports.foldl (fun d report => d.changed report.1 report.2) d).text =
      some (applyAll (reports.flatMap (·.1)) text) := by
  induction reports generalizing d text with
  | nil => simpa [applyAll] using start
  | cons report reports ih =>
    rw [List.foldl_cons, List.flatMap_cons, applyAll_append]
    exact ih (by simp [changed, start])

/-- **The server has the text of the editor.** A document is opened with a text and edited in any number
of reports. If every edit replaces the whole text, or is made in a plain text between two positions that
fit, then the document has the text that the rules of the protocol lead to. -/
theorem text_of_reports (d : Document) (text : String) (version : Int)
    (reports : List (List Change × Int))
    (suits : Editor.SuitsAll (reports.flatMap (·.1)) text.toList) :
    (reports.foldl (fun d report => d.changed report.1 report.2) (d.opened text version)).text =
      some (Editor.applyAll (reports.flatMap (·.1)) text) := by
  rw [text_foldl_changed reports rfl, applyAll_eq suits]

end Document

/-! ### Edits of a sample -/

namespace Sample

open Text

/-- A document before it is opened. -/
def blank : Document := .fresh ⟨"untitled:a"⟩ .source none

/-- A text is put in the place of a span. -/
def edit (start stop : Position) (text : String) : Change := ⟨some ⟨start, stop⟩, text⟩

/-- The line break after a smile becomes a space, and a mark is put at the end. -/
def joining : List (List Change × Int) :=
  [([edit ⟨0, 3⟩ ⟨1, 0⟩ " ", edit ⟨0, 5⟩ ⟨0, 5⟩ "!"], 2)]

end Sample

namespace Document

open Text Sample

/-- The case of two edits next to the ends of their lines. -/
theorem text_of_joining :
    Editor.SuitsAll (joining.flatMap (·.1)) "a😀\r\nb".toList ∧
      (joining.foldl (fun d report => d.changed report.1 report.2) (blank.opened "a😀\r\nb" 1)).text =
        some "a😀 b!" := by
  have suits : Editor.SuitsAll (joining.flatMap (·.1)) "a😀\r\nb".toList := by
    refine ⟨?_, ?_, trivial⟩ <;> rintro r ⟨rfl⟩ <;> decide +kernel
  have same := text_of_reports blank "a😀\r\nb" 1 joining suits
  have text : Editor.applyAll (joining.flatMap (·.1)) "a😀\r\nb" = "a😀 b!" := by decide +kernel
  exact ⟨suits, by rw [same, text]⟩

/-- A column past the end of its line means the place after the line break; and a line ends after a form
feed, so that the next line means another place. -/
theorem misplaced_edits :
    ((blank.opened "ab\ncd" 1).changed [edit ⟨0, 5⟩ ⟨0, 5⟩ "X"] 2).text = some "ab\nXcd" ∧
      Editor.applyAll [edit ⟨0, 5⟩ ⟨0, 5⟩ "X"] "ab\ncd" = "abX\ncd" ∧
    ((blank.opened "a\x0cb\nc" 1).changed [edit ⟨1, 0⟩ ⟨1, 0⟩ "X"] 2).text = some "a\x0cXb\nc" ∧
      Editor.applyAll [edit ⟨1, 0⟩ ⟨1, 0⟩ "X"] "a\x0cb\nc" = "a\x0cb\nXc" := by
  decide +kernel

end Document

end LanguageServer
