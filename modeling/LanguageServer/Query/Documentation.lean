import LanguageServer.Query.Symbol
import LanguageServer.Snapshot
import LanguageServer.Text.Blank

/-!
# Documentation

A definition is documented by the comment right before it. The lines of a block comment may start
with a star, which does not belong to the text.
-/

namespace LanguageServer

/-- A line of a block comment without its star. -/
def withoutStar (line : String) : String :=
  let line := Text.trim line
  Text.trimStart ((Text.dropStart? "*" line).getD line)

/-- The text of a comment; nothing for any other token. -/
def commentText? (t : Token) : Option String :=
  match t.kind with
  | .comment => some (Text.trim t.content)
  | .blockComment =>
    some (Text.trim (String.intercalate "\n" ((Text.pieces '\n' t.content).map withoutStar)))
  | _ => none

/-- The text of the comment before a position, if the last token that starts before it is a comment
with something in it. Blanks and line breaks do not count. -/
def commentBefore? (tokens : List Token) (p : Position) : Option String := do
  let t ← (tokens.reverse.filter fun t => t.kind != .blank && t.kind != .lineBreak).find?
    (·.range.start.lt p)
  (commentText? t).filter (!·.isEmpty)

/-- The documentation of a symbol. -/
def Symbol.documentation? (symbol : Symbol) (s : Snapshot) : Option String := do
  let anchor ← symbol.anchor?
  let tokens ← s.tokensOf? anchor.file
  commentBefore? tokens anchor.range.start

end LanguageServer
