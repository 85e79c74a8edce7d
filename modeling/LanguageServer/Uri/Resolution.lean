import LanguageServer.Uri

/-!
# Resolving references

A reference is resolved against the name of the document it stands in, as a link is resolved against
its page: it replaces the last segment of the path, and the segments `.` and `..` are folded away.

* `foldSegment`, `removeDotSegments`: folding;
* `Uri.resolve?`: the name that a reference stands for.
-/

namespace LanguageServer.Uri

/-- The segment `.`, which stays where it is. -/
def here : List Char := ['.']

/-- The segment `..`, which goes up. -/
def up : List Char := ['.', '.']

/-- One segment, on the segments before it, last first. Going up stops at the first segment. -/
def foldSegment (before : List (List Char)) (segment : List Char) : List (List Char) :=
  if segment = here then before
  else if segment = up then if 1 < before.length then before.tail else before
  else segment :: before

/-- A path without the segments `.` and `..`. It starts with a separator, and it ends with one if its
last segment was folded away. -/
def removeDotSegments (cs : List Char) : List Char :=
  let segments := cs.splitOn '/'
  let folded := ['/'].intercalate (segments.foldl foldSegment []).reverse
  let folded := if folded.head? == some '/' then folded else '/' :: folded
  let last := segments.getLast?
  if (last == some here || last == some up) && folded.getLast? != some '/' then folded ++ ['/']
  else folded

/-- The path up to its last separator, and the separator alone if it has none. -/
def directory (path : List Char) : List Char :=
  let kept := path.take (path.length - (lastSegment path).length)
  if kept.isEmpty then ['/'] else kept

/-- The name that a reference stands for in a document. A reference with a scheme is a name of its
own; any other needs a document whose name has a scheme. -/
def resolve? (base : Uri) (reference : String) : Option Uri :=
  let candidate : Uri := ⟨reference⟩
  if candidate.scheme?.isSome then some candidate
  else if base.scheme?.isNone then none
  else
    let parts := base.parts
    let encoded := encodePath reference.toList
    let merged := if encoded.head? == some '/' then encoded else directory parts.path ++ encoded
    some ⟨String.ofList (parts.head ++ removeDotSegments merged)⟩

end LanguageServer.Uri
