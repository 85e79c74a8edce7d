import LanguageServer.Text.Units
import LanguageServer.Position

/-!
# Text buffers

The text of an open document, changed piece by piece.

A line ends after a line feed, a carriage return (with the line feed that follows it, if there is
one), a vertical tab, a form feed, or one of the characters U+0085, U+2028 and U+2029. A position
past the end of its line means the start of the next one, and a column inside a surrogate pair means
the character that the pair stands for.

* `lines`: the lines of a text, each with its end;
* `offset`: the number of characters before a position;
* `Change`, `Change.apply`: one edit.
-/

namespace LanguageServer.Text

/-- The characters that end a line. -/
def isLineEnd (c : Char) : Bool :=
  let n := c.toNat
  (0x0A ≤ n && n ≤ 0x0D) || n == 0x85 || n == 0x2028 || n == 0x2029

/-- The lines of a text, each with its end; the last one has none and may be empty. -/
def lines : List Char → List (List Char)
  | [] => [[]]
  | '\r' :: '\n' :: cs => ['\r', '\n'] :: lines cs
  | c :: cs =>
    if isLineEnd c then [c] :: lines cs
    else
      match lines cs with
      | [] => [[c]]
      | l :: ls => (c :: l) :: ls

theorem lines_ne_nil (cs : List Char) : lines cs ≠ [] := by
  fun_cases lines cs <;> simp_all

/-- The lines of a text make up the text. -/
theorem flatten_lines (cs : List Char) : (lines cs).flatten = cs := by
  fun_induction lines cs <;> simp_all

/-- The number of characters that fit in a number of code units. -/
def charsWithin : Nat → List Char → Nat
  | _, [] => 0
  | units, c :: cs =>
    if unitSize c ≤ units then charsWithin (units - unitSize c) cs + 1 else 0

/-- The number of characters before a position, from the lines of the text. -/
def offsetIn (p : Position) (ls : List (List Char)) : Nat :=
  (ls.take p.line).flatten.length + charsWithin p.character (ls.getD p.line [])

/-- The number of characters before a position. -/
def offset (p : Position) (cs : List Char) : Nat := offsetIn p (lines cs)

/-- An edit: new text in the place of a span, or of the whole. -/
structure Change where
  range : Option Range
  text : String
  deriving DecidableEq, Repr

/-- The text after an edit. A span that ends before its start is empty. -/
def Change.applyTo (change : Change) (cs : List Char) : List Char :=
  match change.range with
  | none => change.text.toList
  | some r =>
    let start := offset r.start cs
    let stop := max (offset r.stop cs) start
    cs.take start ++ change.text.toList ++ cs.drop stop

/-- The text after a sequence of edits, each made on the result of the one before. -/
def applyAll (changes : List Change) (text : String) : String :=
  String.ofList (changes.foldl (fun cs change => change.applyTo cs) text.toList)

end LanguageServer.Text
