/-!
# Pieces of a text

Cutting a text at a character, and taking away its start or its end.
-/

namespace LanguageServer.Text

/-- The pieces of a text between separators; there is always a first piece. -/
def pieces (separator : Char) (s : String) : List String :=
  (s.toList.splitOn separator).map String.ofList

/-- The text without a given start, if it has it. -/
def dropStart? (start s : String) : Option String :=
  if start.toList.isPrefixOf s.toList then some (String.ofList (s.toList.drop start.length)) else none

/-- The text without a given end, if it has it. -/
def dropEnd? (ending s : String) : Option String :=
  if ending.toList.isSuffixOf s.toList then
    some (String.ofList (s.toList.take (s.length - ending.length)))
  else none

end LanguageServer.Text
