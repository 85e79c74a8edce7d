import LanguageServer.Json
import LanguageServer.Text.HexDigit

/-!
# Writing JSON texts

A value on one line, in ASCII: characters outside it are written as escapes of their code units.
-/

namespace LanguageServer.Json

/-- Four digits of base sixteen. -/
def fourDigits (n : Nat) : String :=
  String.ofList [Text.hexDigit (n / 4096 % 16), Text.hexDigit (n / 256 % 16),
    Text.hexDigit (n / 16 % 16), Text.hexDigit (n % 16)]

/-- The escape of a code unit. -/
def unitEscape (n : Nat) : String := "\\u" ++ fourDigits n

/-- A character of a string. -/
def writeChar (c : Char) : String :=
  let n := c.toNat
  if c = '"' then "\\\""
  else if c = '\\' then "\\\\"
  else if 0x20 ≤ n ∧ n < 0x7F then c.toString
  else if n < 0x10000 then unitEscape n
  else unitEscape (0xD800 + (n - 0x10000) / 0x400) ++ unitEscape (0xDC00 + (n - 0x10000) % 0x400)

/-- A string, between quotes, after what is already written. -/
def writeString (out : String) (s : String) : String :=
  (s.foldl (fun out c => out ++ writeChar c) (out.push '"')).push '"'

/-- A number as it was read. -/
def Numeral.write (n : Numeral) : String :=
  let digits (ds : List Nat) : String := String.join (ds.map toString)
  (if n.negative then "-" else "") ++ digits n.digits ++
    (if n.fraction.isEmpty then "" else "." ++ digits n.fraction) ++
    (match n.exponent with
      | none => ""
      | some e => "e" ++ toString e)

mutual

/-- A value, after what is already written. -/
def write (out : String) : Json → String
  | .null => out ++ "null"
  | .bool true => out ++ "true"
  | .bool false => out ++ "false"
  | .num n => out ++ n.write
  | .str s => writeString out s
  | .broken => out ++ "\"\""
  | .arr items => (writeItems (out.push '[') true items).push ']'
  | .obj members => (writeMembers (out.push (Char.ofNat 0x7B)) true members).push (Char.ofNat 0x7D)

/-- The items of an array; `first` tells that none was written before. -/
def writeItems (out : String) (first : Bool) : List Json → String
  | [] => out
  | j :: js => writeItems (write (if first then out else out.push ',') j) false js

/-- The members of an object; `first` tells that none was written before. -/
def writeMembers (out : String) (first : Bool) : List (String × Json) → String
  | [] => out
  | (name, j) :: ms =>
    writeMembers (write ((writeString (if first then out else out.push ',') name).push ':') j) false ms

end

/-- The text of a value. -/
def toText (j : Json) : String := write "" j

end LanguageServer.Json
