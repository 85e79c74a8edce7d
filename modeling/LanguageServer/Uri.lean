import LanguageServer.Percent
import LanguageServer.Path

/-!
# Document identifiers

A document is named by a URI, kept as the editor sent it, so that equal names are equal texts. Only
`file:` names lie in the file system; any other document exists in the editor alone.

* `Uri`, `Uri.scheme?`, `Uri.parts`: the name and its parts;
* `Uri.path`, `Uri.extension?`, `Uri.fileName?`: what the path says;
* `Uri.toFilePath?`, `Uri.ofFilePath`: to and from the file system.
-/

namespace LanguageServer

/-- The name of a document. -/
structure Uri where
  text : String
  deriving DecidableEq, Repr, Inhabited, Hashable

namespace Uri

/-- The characters of a scheme after its first one. -/
def isSchemeChar (c : Char) : Bool := c.isAlphanum || c == '+' || c == '-' || c == '.'

/-- Whether a sequence of characters is a scheme: at least two, the first a letter. -/
def isScheme : List Char → Bool
  | c :: d :: rest => c.isAlpha && (d :: rest).all isSchemeChar
  | _ => false

/-- A text of the form `scheme:rest`, cut at its first colon. -/
def splitScheme? (cs : List Char) : Option (List Char × List Char) :=
  let scheme := cs.takeWhile (· != ':')
  match cs.drop scheme.length with
  | ':' :: rest => if isScheme scheme then some (scheme, rest) else none
  | _ => none

/-- The scheme, if the name has one. -/
def scheme? (u : Uri) : Option String :=
  (splitScheme? u.text.toList).map (String.ofList ·.1)

/-- Whether the name lies in the file system. -/
def isFile (u : Uri) : Bool := u.scheme? == some "file"

/-- A name cut in three: `head` is the scheme with the authority, `path` ends at the first `?` or
`#`, and `tail` is the rest. -/
structure Parts where
  head : List Char
  path : List Char
  tail : List Char
  deriving DecidableEq, Repr

/-- Whether a character ends an authority. -/
def endsAuthority (c : Char) : Bool := c == '/' || c == '?' || c == '#'

/-- Whether a character ends a path. -/
def endsPath (c : Char) : Bool := c == '?' || c == '#'

/-- The parts after the head. -/
def Parts.after (head rest : List Char) : Parts :=
  let path := rest.takeWhile (!endsPath ·)
  ⟨head, path, rest.drop path.length⟩

/-- The parts of a sequence of characters. -/
def Parts.ofChars (cs : List Char) : Parts :=
  match splitScheme? cs with
  | none => .after [] cs
  | some (scheme, '/' :: '/' :: rest) =>
    let authority := rest.takeWhile (!endsAuthority ·)
    .after (scheme ++ [':', '/', '/'] ++ authority) (rest.drop authority.length)
  | some (scheme, rest) => .after (scheme ++ [':']) rest

/-- The parts of a name. -/
def parts (u : Uri) : Parts := .ofChars u.text.toList

/-- The path, decoded; as it is written if its bytes are no text. -/
def path (u : Uri) : String := Percent.decode u.parts.path

/-- The characters after the last `/`. -/
def lastSegment (cs : List Char) : List Char := (cs.reverse.takeWhile (· != '/')).reverse

/-- The lower-case extension of the last segment: what follows its last dot, if something stands on
both sides of it. -/
def extension? (u : Uri) : Option String :=
  let backwards := (lastSegment u.parts.path).reverse
  let extension := (backwards.takeWhile (· != '.')).reverse
  match backwards.drop extension.length with
  | '.' :: _ :: _ => if extension.isEmpty then none else some (String.ofList (extension.map Char.toLower))
  | _ => none

/-- The decoded last segment, if there is something in it. -/
def fileName? (u : Uri) : Option String :=
  let name := lastSegment u.parts.path
  if name.isEmpty then none else some (Percent.decode name)

/-- The file that a name stands for. -/
def toFilePath? (u : Uri) : Option Path := if u.isFile then some ⟨u.path⟩ else none

/-- A path with forward separators, each segment in coded form. -/
def encodePath (cs : List Char) : List Char :=
  let cs := cs.map fun c => if c = '\\' then '/' else c
  ['/'].intercalate ((cs.splitOn '/').map fun segment => segment.flatMap Percent.encodeChar)

/-- The name of a file. -/
def ofFilePath (p : Path) : Uri :=
  let cs := encodePath p.text.toList
  let cs := if cs.head? == some '/' then cs else '/' :: cs
  ⟨String.ofList ("file://".toList ++ cs)⟩

end Uri

end LanguageServer
