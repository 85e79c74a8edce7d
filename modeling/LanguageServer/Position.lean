import LanguageServer.Uri

/-!
# Positions

Places in a document. Lines and columns count from zero, and columns count UTF-16 code units, as in
the editor protocol.

* `Position`, ordered by line and then by column;
* `Range`: a span; both ends belong to it, so that a cursor right after a name still lands on it;
* `Location`: a span in a document.
-/

namespace LanguageServer

/-- A point in a document. -/
structure Position where
  line : Nat
  character : Nat
  deriving DecidableEq, Repr, Inhabited

namespace Position

/-- Whether a position comes before another or is the same. -/
def le (a b : Position) : Bool :=
  a.line < b.line || (a.line == b.line && a.character ≤ b.character)

/-- Whether a position comes before another. -/
def lt (a b : Position) : Bool :=
  a.line < b.line || (a.line == b.line && a.character < b.character)

/-- The first of two positions. -/
def min (a b : Position) : Position := if b.lt a then b else a

/-- The last of two positions. -/
def max (a b : Position) : Position := if a.le b then b else a

/-- A position for people, who count from one. -/
def display (p : Position) : String := toString (p.line + 1) ++ ":" ++ toString (p.character + 1)

end Position

/-- A span between two positions. -/
structure Range where
  start : Position
  stop : Position
  deriving DecidableEq, Repr, Inhabited

namespace Range

/-- Whether a position lies in a span; both ends do. -/
def contains (r : Range) (p : Position) : Bool := r.start.le p && p.le r.stop

/-- Whether two spans have a position in common. -/
def overlaps (r s : Range) : Bool := r.start.le s.stop && s.start.le r.stop

/-- The smallest span that covers two. -/
def union (r s : Range) : Range := ⟨r.start.min s.start, r.stop.max s.stop⟩

/-- Whether a span covers no character. -/
def isEmpty (r : Range) : Bool := r.start == r.stop

/-- The span of a single position. -/
def point (p : Position) : Range := ⟨p, p⟩

/-- A span for people. -/
def display (r : Range) : String := r.start.display ++ "-" ++ r.stop.display

end Range

/-- A span in a document. -/
structure Location where
  file : Uri
  range : Range
  deriving DecidableEq, Repr, Inhabited

end LanguageServer
