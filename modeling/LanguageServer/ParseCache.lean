import LanguageServer.Program

/-!
# Cached parses

The parses that compilations share, one per file, each with the version of the text it was made from.
A file that was read from disk has no version.
-/

namespace LanguageServer

/-- A parse with the version of its text. -/
structure CachedParse where
  version : Option Int
  parse : ParsedFile

/-- The parses that are kept. -/
structure ParseCache where
  entries : List (Uri × CachedParse) := []
  deriving Inhabited

namespace ParseCache

/-- The parse of a file, if it was made from a version. -/
def find? (c : ParseCache) (uri : Uri) (version : Option Int) : Option ParsedFile :=
  match c.entries.find? (·.1 == uri) with
  | some (_, e) => if e.version == version then some e.parse else none
  | none => none

/-- The cache without the parse of a file. -/
def erase (c : ParseCache) (uri : Uri) : ParseCache := ⟨c.entries.filter (·.1 != uri)⟩

/-- The cache with a parse in the place of an older one. -/
def insert (c : ParseCache) (uri : Uri) (version : Option Int) (parse : ParsedFile) : ParseCache :=
  ⟨(uri, ⟨version, parse⟩) :: (c.erase uri).entries⟩

/-- Whether a file has a parse. -/
def contains (c : ParseCache) (uri : Uri) : Bool := c.entries.any (·.1 == uri)

/-- The number of parses. -/
def size (c : ParseCache) : Nat := c.entries.length

end ParseCache

end LanguageServer
