import LanguageServer.Files
import LanguageServer.Proofs.Ancestry

/-!
# Where paths lead

A path leads through the tree of files piece by piece. Two paths that go through the same components and end
with the same name lead to the same place. If a file is taken away, then nothing but that file is gone.

* `Files.locate_congr`: the pieces that do not count are passed over;
* `Files.without`, `Files.locate_without`, `Files.find?_without`: taking a file away.
-/

namespace LanguageServer

namespace Files

open LanguageServer.Path (pieces counting isIdle)

variable {fs : Files} {here place : List String} {bytes : List UInt8} {last : List Char}

/-! ### Where a path leads -/

theorem exists_enter_eq_error (h : fs.entry? here ≠ some .directory) :
    ∃ e, ∀ piece, fs.enter here piece = .error e := by
  simp only [enter]
  split
  · exact ⟨_, fun _ => rfl⟩
  · exact ⟨_, fun _ => rfl⟩
  · contradiction

/-- A piece that does not count does nothing but ask for a directory, and so does every other piece: in front
of one that counts it can be left out. -/
theorem foldlM_enter_counting (ps : List (List Char)) :
    (ps ++ [last]).foldlM fs.enter here = (counting ps ++ [last]).foldlM fs.enter here := by
  induction ps generalizing here with
  | nil => rfl
  | cons piece ps ih =>
    rw [List.cons_append, List.foldlM_cons]
    simp only [ih]
    cases idle : isIdle piece
    · simp [counting, idle]
    · have drop : counting (piece :: ps) = counting ps := by simp [counting, idle]
      rw [drop]
      by_cases directory : fs.entry? here = some .directory
      · have stay : fs.enter here piece = .ok here := by rw [enter, directory, idle]; rfl
        rw [stay]
        rfl
      · obtain ⟨e, stuck⟩ := exists_enter_eq_error directory
        have some : counting ps ++ [last] ≠ [] := by simp
        obtain ⟨next, rest, shape⟩ := List.exists_cons_of_ne_nil some
        rw [shape, List.foldlM_cons, stuck, stuck]
        rfl

/-- Two paths that end with the same name and go through the same components lead to the same place. -/
theorem locate_congr {p q : Path} {front front' : List (List Char)} (counts : isIdle last = false)
    (named : p.pieces = front ++ [last]) (named' : q.pieces = front' ++ [last])
    (same : p.components = q.components) : fs.locate p = fs.locate q := by
  have rooted : p.isAbsolute = q.isAbsolute := by
    rw [Bool.eq_iff_iff, Path.isAbsolute_iff_head, Path.isAbsolute_iff_head, same]
  cases absolute : q.isAbsolute with
  | false => simp [locate, rooted, absolute]
  | true =>
    rw [absolute] at rooted
    have counted := Path.counting_pieces_eq rooted same
    have zero : p.text.toList.contains (Char.ofNat 0) = q.text.toList.contains (Char.ofNat 0) := by
      rw [Bool.eq_iff_iff, List.contains_iff_mem, List.contains_iff_mem,
        Path.mem_text_iff (by decide) (by decide), Path.mem_text_iff (by decide) (by decide), counted]
    simp only [named, named', Path.counting_concat, counts, Bool.false_eq_true, if_false] at counted
    have walk : (front ++ [last]).foldlM fs.enter [] = (front' ++ [last]).foldlM fs.enter [] := by
      rw [foldlM_enter_counting front, foldlM_enter_counting front', List.append_cancel_right counted]
    rw [locate, locate, ← pieces, ← pieces, rooted, absolute, zero, named, named', walk]

/-! ### Taking a file away -/

/-- The tree without what stands at a place. -/
def without (fs : Files) (place : List String) : Files := ⟨fs.entries.filter (·.1 != place)⟩

theorem entry?_without (inside : place ≠ []) :
    entry? (fs.without place) here = if here = place then none else fs.entry? here := by
  unfold entry? without
  by_cases root : here = []
  · rw [root, if_neg inside.symm]
    rfl
  · have below : here.isEmpty = false := by simpa using root
    rw [below, if_neg Bool.false_ne_true, if_neg Bool.false_ne_true, List.find?_filter]
    by_cases gone : here = place
    · simp [gone]
    · rw [if_neg gone]
      refine congrArg (Option.map _) (congrArg (List.find? · _) (funext fun e => ?_))
      by_cases same : e.1 = here <;> simp [same, gone]

theorem ne_nil_of_file (file : fs.entry? place = some (.file bytes)) : place ≠ [] := by
  rintro rfl
  simp [ entry?] at file

theorem enter_without (file : fs.entry? place = some (.file bytes)) (piece : List Char) :
    ((fs.without place).enter here piece).toOption = (fs.enter here piece).toOption := by
  simp only [enter, entry?_without (ne_nil_of_file file)]
  by_cases here : here = place
  · rw [if_pos here, here, file]
    rfl
  · rw [if_neg here]

theorem toOption_bind {ε α β : Type} (x : Except ε α) (f : α → Except ε β) :
    (x >>= f).toOption = x.toOption.bind fun a => (f a).toOption := by
  cases x <;> rfl

theorem locate_without (file : fs.entry? place = some (.file bytes)) (p : Path) :
    ((fs.without place).locate p).toOption = (fs.locate p).toOption := by
  have walk (here : List String) (ps : List (List Char)) :
      (ps.foldlM (fs.without place).enter here).toOption = (ps.foldlM fs.enter here).toOption := by
    induction ps generalizing here with
    | nil => rfl
    | cons piece ps ih =>
      simp only [List.foldlM_cons, toOption_bind, enter_without file, ih]
  rw [locate, locate]
  split
  · exact walk _ _
  · rfl

theorem find?_eq (fs : Files) (p : Path) : fs.find? p = (fs.locate p).toOption.bind fs.entry? := by
  rw [find?]
  cases fs.locate p <;> rfl

theorem find?_without (file : fs.entry? place = some (.file bytes)) (p : Path) :
    (fs.without place).find? p = if (fs.locate p).toOption = some place then none else fs.find? p := by
  rw [find?_eq, find?_eq, locate_without file]
  cases (fs.locate p).toOption with
  | none => rfl
  | some found => simp [entry?_without (ne_nil_of_file file)]

theorem isFile_without (file : fs.entry? place = some (.file bytes)) (p : Path) :
    (fs.without place).isFile p = (fs.isFile p && (fs.locate p).toOption != some place) := by
  rw [isFile, isFile, find?_without file]
  by_cases gone : (fs.locate p).toOption = some place <;> simp [gone]

/-- The text in an entry. -/
def textIn? : Entry → Option String
  | .directory => none
  | .file bytes => Percent.ofBytes? bytes

theorem toOption_readText (fs : Files) (p : Path) : (fs.readText p).toOption = (fs.find? p).bind textIn? := by
  rw [readText, find?_eq]
  cases fs.locate p with
  | error => rfl
  | ok place =>
    cases found : fs.entry? place with
    | none => simp [Except.toOption, found]
    | some e =>
      cases e with
      | directory => simp [Except.toOption, found, textIn?]
      | file bytes => cases text : Percent.ofBytes? bytes <;> simp [Except.toOption, found, textIn?, text]

end Files

end LanguageServer
