import LanguageServer.Json
import LanguageServer.Text.HexDigit

/-!
# Lexemes of JSON texts

A text is cut into marks and atoms by a machine that reads one character at a time.

* `Lexeme`: a mark, or a value without parts;
* `Scan`: what the machine is in the middle of;
* `Scan.run`, `lexemes?`: all lexemes of a text.
-/

namespace LanguageServer.Json

/-- A mark of punctuation, or a value without parts. -/
inductive Lexeme
  | mark (c : Char)
  | atom (value : Json)

/-- A character of a string, or half of a surrogate pair. -/
abbrev Unit16 := Char ⊕ Nat

/-- The text of a string: halves of a pair are joined, and a half on its own spoils the string. -/
def joinHalves : List Unit16 → Option (List Char)
  | [] => some []
  | .inl c :: rest => (joinHalves rest).map (c :: ·)
  | .inr high :: .inr low :: rest =>
    if high < 0xDC00 ∧ 0xDC00 ≤ low then
      (joinHalves rest).map
        (Char.ofNat (0x10000 + (high - 0xD800) * 0x400 + (low - 0xDC00)) :: ·)
    else none
  | .inr _ :: _ => none

/-- What the machine is in the middle of. Collected characters are in reverse. -/
inductive Scan
  | between
  | word (letters : List Char)
  | number (written : List Char)
  | string (units : List Unit16)
  | escape (units : List Unit16)
  | codeUnit (units : List Unit16) (digits : Nat) (value : Nat)

/-- The character that a short escape stands for. -/
def shortEscape? : Char → Option Char
  | '"' => some '"'
  | '\\' => some '\\'
  | '/' => some '/'
  | 'b' => some (Char.ofNat 8)
  | 'f' => some (Char.ofNat 12)
  | 'n' => some '\n'
  | 'r' => some '\r'
  | 't' => some '\t'
  | _ => none

/-- A code unit that was written as an escape. -/
def ofCodeUnit (n : Nat) : Unit16 :=
  if 0xD800 ≤ n ∧ n < 0xE000 then .inr n else .inl (Char.ofNat n)

/-- The value that a word stands for. -/
def ofWord? (letters : List Char) : Option Json :=
  match String.ofList letters with
  | "null" => some .null
  | "true" => some (.bool true)
  | "false" => some (.bool false)
  | _ => none

/-- The value of a finished string. -/
def ofUnits (units : List Unit16) : Json :=
  match joinHalves units with
  | some cs => .str (String.ofList cs)
  | none => .broken

/-- Whether a character may stand in a number. -/
def isNumeric (c : Char) : Bool :=
  c.isDigit || c == '-' || c == '+' || c == '.' || c == 'e' || c == 'E'

/-- The lexeme that ends at a character outside it, or at the end of the text. -/
def Scan.finish? : Scan → List Lexeme → Option (List Lexeme)
  | .between, out => some out
  | .word letters, out => (ofWord? letters.reverse).map fun j => .atom j :: out
  | .number written, out => (Numeral.read? written.reverse).map fun n => .atom (.num n) :: out
  | _, _ => none

/-- What a character starts between two lexemes. -/
def Scan.start? (c : Char) (out : List Lexeme) : Option (Scan × List Lexeme) :=
  if c == ' ' || c == '\n' || c == '\r' || c == '\t' then some (.between, out)
  else if c == '"' then some (.string [], out)
  else if c.isDigit || c == '-' then some (.number [c], out)
  else if c.isAlpha then some (.word [c], out)
  else if c == '[' || c == ']' || c.toNat == 0x7B || c.toNat == 0x7D || c == ',' || c == ':' then
    some (.between, .mark c :: out)
  else none

/-- One character. -/
def Scan.step? (s : Scan) (c : Char) (out : List Lexeme) : Option (Scan × List Lexeme) :=
  match s with
  | .between => Scan.start? c out
  | .word letters =>
    if c.isAlpha then some (.word (c :: letters), out)
    else (s.finish? out).bind (Scan.start? c)
  | .number written =>
    if isNumeric c then some (.number (c :: written), out)
    else (s.finish? out).bind (Scan.start? c)
  | .string units =>
    if c == '"' then some (.between, .atom (ofUnits units.reverse) :: out)
    else if c == '\\' then some (.escape units, out)
    else if c.toNat < 0x20 then none
    else some (.string (.inl c :: units), out)
  | .escape units =>
    if c == 'u' then some (.codeUnit units 0 0, out)
    else (shortEscape? c).map fun e => (.string (.inl e :: units), out)
  | .codeUnit units digits value =>
    (Text.hexValue? c).map fun d =>
      let value := 16 * value + d
      if digits == 3 then (.string (ofCodeUnit value :: units), out)
      else (.codeUnit units (digits + 1) value, out)

/-- The machine on a whole text; the lexemes come out in reverse. -/
def Scan.run (s : Scan) (out : List Lexeme) : List Char → Option (List Lexeme)
  | [] => s.finish? out
  | c :: cs =>
    match s.step? c out with
    | none => none
    | some (s, out) => s.run out cs

/-- The lexemes of a text, in order. -/
def lexemes? (text : String) : Option (List Lexeme) :=
  (Scan.between.run [] text.toList).map List.reverse

end LanguageServer.Json
