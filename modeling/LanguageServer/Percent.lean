import LanguageServer.Text.HexDigit

/-!
# Percent coding

* `encode`: the UTF-8 bytes of a text, the unreserved characters as they are and any other byte as
  `%XX` in upper case;
* `decodeBytes`: the bytes that a coded text stands for; a `%` without two digits after it stands for
  itself;
* `decode`: the text of those bytes, if they are UTF-8.
-/

namespace LanguageServer.Percent

/-- The characters that need no coding: letters, digits and `-_.~`. -/
def isUnreserved (c : Char) : Bool :=
  c.isAlphanum || c == '-' || c == '_' || c == '.' || c == '~'

/-- A coded byte. -/
def encodeByte (b : UInt8) : List Char :=
  ['%', Text.upperHexDigit (b.toNat / 16), Text.upperHexDigit (b.toNat % 16)]

/-- A character, coded if it has to be. -/
def encodeChar (c : Char) : List Char :=
  if isUnreserved c then [c] else (String.utf8EncodeChar c).flatMap encodeByte

/-- A text in coded form. -/
def encode (s : String) : String := String.ofList (s.toList.flatMap encodeChar)

/-- The bytes of a coded text. -/
def decodeBytes : List Char → List UInt8
  | [] => []
  | '%' :: a :: b :: rest =>
    match Text.hexValue? a, Text.hexValue? b with
    | some x, some y => UInt8.ofNat (16 * x + y) :: decodeBytes rest
    | _, _ => 0x25 :: decodeBytes (a :: b :: rest)
  | c :: rest => String.utf8EncodeChar c ++ decodeBytes rest

/-- The text of a sequence of bytes, if they are UTF-8. -/
def ofBytes? (bytes : List UInt8) : Option String := String.fromUTF8? ⟨bytes.toArray⟩

/-- The text that a coded text stands for, if its bytes are UTF-8. -/
def decode? (cs : List Char) : Option String := ofBytes? (decodeBytes cs)

/-- The text that a coded text stands for, and the coded text itself if that is none. -/
def decode (cs : List Char) : String := (decode? cs).getD (String.ofList cs)

end LanguageServer.Percent
