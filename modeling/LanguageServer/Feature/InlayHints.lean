import LanguageServer.Snapshot
import LanguageServer.Protocol.Answer

/-!
# Lengths of arrays

A type of an array may leave out the length if the compiler can find it. The editor shows the length
that was found after the opening bracket, and can write it in.
-/

namespace LanguageServer

/-- The hint at a written type itself. -/
def TypeSyntax.lengthHint? : TypeSyntax → Option InlayHint
  | .array _ none brackets (some n) _ => some ⟨brackets.opening.range.stop, toString n⟩
  | _ => none

/-- The hints at the written types that have a position in common with a span. -/
def inlayHints (s : Snapshot) (requested : Range) : List InlayHint :=
  (s.syntaxTree.writtenTypes.filter fun t => requested.overlaps t.range).flatMap fun t =>
    t.descendants.filterMap TypeSyntax.lengthHint?

end LanguageServer
