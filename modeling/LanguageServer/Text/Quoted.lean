import LanguageServer.Text.Printable

/-!
# Quoted texts and characters

Two written forms with backslash escapes.

* `quoted`: a text between double quotes, as constants are shown. The quote, the backslash, tab,
  line feed, carriage return and the null character have short escapes; a character without a glyph
  and a mark that would join its neighbour are written as `\\u{…}`; all else stands as it is.
* `asciiEscaped`: one character in visible ASCII, as literals are shown.
-/

namespace LanguageServer.Text

/-- A number in base sixteen, in lower case and without leading zeros. -/
def hexadecimal (n : Nat) : String := String.ofList (Nat.toDigits 16 n)

/-- The escape of a character by its code point. -/
def codePointEscape (c : Char) : String := "\\u\x7b" ++ hexadecimal c.toNat ++ "\x7d"

/-- A character of a quoted text. -/
def quotedChar (c : Char) : String :=
  if c = '"' then "\\\""
  else if c = '\\' then "\\\\"
  else if c = '\n' then "\\n"
  else if c = '\r' then "\\r"
  else if c = '\t' then "\\t"
  else if c.toNat = 0 then "\\0"
  else if isExtender c || !isPrintable c then codePointEscape c
  else c.toString

/-- A text between double quotes. -/
def quoted (s : String) : String :=
  "\"" ++ String.join (s.toList.map quotedChar) ++ "\""

/-- A character in visible ASCII: quotes and the backslash are escaped, and everything outside the
visible range is written by its code point or its short escape. -/
def asciiEscaped (c : Char) : String :=
  if c = '\'' then "\\'"
  else if c = '"' then "\\\""
  else if c = '\\' then "\\\\"
  else if c = '\n' then "\\n"
  else if c = '\r' then "\\r"
  else if c = '\t' then "\\t"
  else if 0x20 ≤ c.toNat ∧ c.toNat ≤ 0x7E then c.toString
  else codePointEscape c

end LanguageServer.Text
