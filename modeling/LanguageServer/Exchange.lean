import LanguageServer.Protocol.Params
import LanguageServer.Protocol.Answer

/-!
# Exchanged data

The form in which tokens and places pass between the compiler and other tools. It differs from that
of the editor protocol: a place names its file, and the classes and meanings of tokens are words.
-/

namespace LanguageServer

/-- A token. -/
def Token.ofJson? (j : Json) : Option Token := do
  let r ← j.record? ["token_type", "analyzed_type", "content", "range"]
  return {
    kind := ← r.required? "token_type" (Json.choice? TokenKind.names)
    meaning := ← r.required? "analyzed_type" (Json.choice? Meaning.names)
    content := ← r.required? "content" Json.string?
    range := ← r.required? "range" Range.ofJson? }

/-- A token in exchanged form. -/
def Token.toJson (t : Token) : Json :=
  .obj [("token_type", .str t.kind.name), ("analyzed_type", .str t.meaning.name),
    ("content", .str t.content), ("range", t.range.toJson)]

/-- A place; its file is any text. -/
def Location.ofExchanged? (j : Json) : Option Location := do
  let r ← j.record? ["file", "range"]
  return ⟨← r.required? "file" Uri.lenient?, ← r.required? "range" Range.ofJson?⟩

/-- A place in exchanged form. -/
def Location.toExchanged (l : Location) : Json :=
  .obj [("file", .str l.file.text), ("range", l.range.toJson)]

end LanguageServer
