import LanguageServer.Text.Buffer
import Mathlib.Data.Nat.Find

/-!
# Ropes

The text of a document is kept in a rope, whose operations take indices of lines, of UTF-16 code units
and of characters, and refuse an index that lies beyond the text. This is what the text buffer does with
them, step by step.

* `Rope.lineStart`, `Rope.lineOf`, `Rope.positionOf`: where lines start, and the positions of the places
  between characters;
* `Rope.lineStart?`, `lineStop?`, `unitsBefore?`, `atUnit?`, `remove?`, `insert?`: the operations;
* `Rope.locate?`, `Rope.edit?`, `Rope.editAll?`: a position, an edit, and a sequence of edits, in terms of
  the operations.
-/

namespace LanguageServer.Text.Rope

/-! ### Lines and positions -/

/-- The number of lines. -/
def lineCount (cs : List Char) : Nat := (lines cs).length

/-- The number of characters before a line; beyond the last line these are all. -/
def lineStart (line : Nat) (cs : List Char) : Nat := ((lines cs).take line).flatten.length

/-- The line of a place: the last one that does not start after it. -/
def lineOf (i : Nat) (cs : List Char) : Nat :=
  Nat.findGreatest (lineStart · cs ≤ i) (lineCount cs - 1)

/-- The position of the place before the character with number `i`, or of the end of the text. -/
def positionOf (i : Nat) (cs : List Char) : Position :=
  let line := lineOf i cs
  ⟨line, unitsOf ((cs.take i).drop (lineStart line cs))⟩

/-! ### Operations -/

/-- The first character of a line; one line beyond the last one is admitted. -/
def lineStart? (line : Nat) (cs : List Char) : Option Nat :=
  if line ≤ lineCount cs then some (lineStart line cs) else none

/-- Where a line ends: at the start of the next one, or with the text. -/
def lineStop? (line : Nat) (cs : List Char) : Option Nat :=
  if line + 1 < lineCount cs then lineStart? (line + 1) cs else some cs.length

/-- The number of code units before a character. -/
def unitsBefore? (i : Nat) (cs : List Char) : Option Nat :=
  if i ≤ cs.length then some (unitsOf (cs.take i)) else none

/-- The character of a code unit. -/
def atUnit? (unit : Nat) (cs : List Char) : Option Nat :=
  if unit ≤ unitsOf cs then some (charsWithin unit cs) else none

/-- The text without the characters from `start` to `stop`. -/
def remove? (start stop : Nat) (cs : List Char) : Option (List Char) :=
  if start ≤ stop ∧ stop ≤ cs.length then some (cs.take start ++ cs.drop stop) else none

/-- The text with another one put in. -/
def insert? (i : Nat) (text cs : List Char) : Option (List Char) :=
  if i ≤ cs.length then some (cs.take i ++ text ++ cs.drop i) else none

/-! ### Edits -/

/-- The place of a position: its column is counted from the start of its line, up to the start of the
next one. -/
def locate? (p : Position) (cs : List Char) : Option Nat :=
  if lineCount cs ≤ p.line then some cs.length
  else do
    let start ← lineStart? p.line cs
    let stop ← lineStop? p.line cs
    let first ← unitsBefore? start cs
    let last ← unitsBefore? stop cs
    atUnit? (min (first + p.character) last) cs

/-- An edit: the text is replaced, or a span is removed and the new text is put in its place. -/
def edit? (change : Change) (cs : List Char) : Option (List Char) :=
  match change.range with
  | none => some change.text.toList
  | some r => do
    let start ← locate? r.start cs
    let stop ← locate? r.stop cs
    let rest ← remove? start (max stop start) cs
    insert? start change.text.toList rest

/-- Edits one after the other. -/
def editAll? (changes : List Change) (cs : List Char) : Option (List Char) :=
  changes.foldlM (fun cs change => edit? change cs) cs

end LanguageServer.Text.Rope
