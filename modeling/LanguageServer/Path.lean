import LanguageServer.Text.Pieces

/-!
# Paths

Paths of a file system with `/` between names. A path keeps its text; repeated separators and inner
`.` do not count when paths are compared or cut.

* `Path`, `Path.join`, `Path.parent?`, `Path.ancestors`;
* `Path.components`: what a path goes through;
* `Path.sameAs`: equality by components.
-/

namespace LanguageServer

/-- A path, as it is written. -/
structure Path where
  text : String
  deriving DecidableEq, Repr, Inhabited

namespace Path

/-- What a path goes through. -/
inductive Component
  | root
  | here
  | up
  | name (s : List Char)
  deriving DecidableEq, Repr

/-- Whether a path starts at the root. -/
def isAbsolute (p : Path) : Bool := p.text.toList.head? == some '/'

/-- Whether a piece between separators changes nothing. -/
def isIdle (piece : List Char) : Bool := piece.isEmpty || piece == ['.']

/-- The component of a piece between separators. -/
def ofPiece (piece : List Char) : Component := if piece == ['.', '.'] then .up else .name piece

/-- The components of a path: the root, or a leading `.`, and then every piece that changes
something. -/
def components (p : Path) : List Component :=
  let pieces := p.text.toList.splitOn '/'
  let lead : List Component :=
    if p.isAbsolute then [.root] else if pieces.head? == some ['.'] then [.here] else []
  lead ++ (pieces.filter (!isIdle ·)).map ofPiece

/-- Whether two paths go through the same components. -/
def sameAs (p q : Path) : Bool := p.components == q.components

/-- A path seen from another: an absolute one replaces it, any other is added after a separator. -/
def join (p q : Path) : Path :=
  if q.isAbsolute || p.text.isEmpty then q
  else if p.text.toList.getLast? == some '/' then ⟨p.text ++ q.text⟩
  else ⟨p.text ++ "/" ++ q.text⟩

/-- The pieces up to the last one that changes something. -/
def trimIdle (pieces : List (List Char)) : List (List Char) :=
  (pieces.reverse.dropWhile isIdle).reverse

/-- The path without its last component; nothing for the root and for the empty path. -/
def parent? (p : Path) : Option Path :=
  let pieces := p.text.toList.splitOn '/'
  let (lead, body) : List (List Char) × List (List Char) :=
    if p.isAbsolute || pieces.head? == some ['.'] then (pieces.take 1, pieces.drop 1)
    else ([], pieces)
  match trimIdle body with
  | [] => if lead == [['.']] then some ⟨""⟩ else none
  | b :: bs =>
    let rest := trimIdle (b :: bs).dropLast
    if p.isAbsolute && rest.isEmpty then some ⟨"/"⟩
    else some ⟨String.ofList (['/'].intercalate (lead ++ rest))⟩

/-- The proper ancestors of a path, nearest first; the length of the text bounds their number. -/
def ancestorsIn : Nat → Path → List Path
  | 0, _ => []
  | n + 1, p =>
    match p.parent? with
    | none => []
    | some q => q :: ancestorsIn n q

/-- The proper ancestors of a path, nearest first. -/
def ancestors (p : Path) : List Path := ancestorsIn (p.text.length + 1) p

end Path

end LanguageServer
