/-!
# UTF-16 code units

Columns of the editor protocol count UTF-16 code units: a character outside the basic plane counts
for two.

* `unitSize`, `unitsOf`, `units16`: how many code units a character and a text have;
* `encodeChar`, `codeUnits`: the code units themselves;
* `splitsPair`: whether a place between code units lies inside a character.
-/

namespace LanguageServer.Text

/-- The number of UTF-16 code units of a character. -/
def unitSize (c : Char) : Nat := if c.toNat < 0x10000 then 1 else 2

/-- The number of UTF-16 code units of a sequence of characters. -/
def unitsOf : List Char → Nat
  | [] => 0
  | c :: cs => unitSize c + unitsOf cs

/-- The number of UTF-16 code units of a text. -/
def units16 (s : String) : Nat := unitsOf s.toList

theorem unitSize_pos (c : Char) : 0 < unitSize c := by
  unfold unitSize; split <;> decide

@[simp] theorem unitsOf_nil : unitsOf [] = 0 := rfl

@[simp] theorem unitsOf_cons (c : Char) (cs : List Char) :
    unitsOf (c :: cs) = unitSize c + unitsOf cs := rfl

@[simp] theorem unitsOf_append (as bs : List Char) :
    unitsOf (as ++ bs) = unitsOf as + unitsOf bs := by
  induction as with
  | nil => simp
  | cons c cs ih => simp [ih, Nat.add_assoc]

@[simp] theorem units16_append (s t : String) : units16 (s ++ t) = units16 s + units16 t := by
  simp [units16]

/-! ### The code units of a text -/

/-- The code units of a character: one, or a high and a low surrogate. -/
def encodeChar (c : Char) : List Nat :=
  if c.toNat < 0x10000 then [c.toNat]
  else [0xD800 + (c.toNat - 0x10000) / 0x400, 0xDC00 + (c.toNat - 0x10000) % 0x400]

/-- The code units of a text. -/
def codeUnits (s : String) : List Nat := s.toList.flatMap encodeChar

/-- Whether a code unit is the first of a pair. -/
def isHighSurrogate (u : Nat) : Bool := 0xD800 ≤ u && u < 0xDC00

/-- Whether a code unit is the second of a pair. -/
def isLowSurrogate (u : Nat) : Bool := 0xDC00 ≤ u && u < 0xE000

/-- Whether a place between code units lies between the two of a pair. -/
def splitsPair (us : List Nat) (i : Nat) : Bool :=
  (us.take i).getLast?.any isHighSurrogate && (us.drop i).head?.any isLowSurrogate

@[simp] theorem codeUnits_append (s t : String) : codeUnits (s ++ t) = codeUnits s ++ codeUnits t := by
  simp [codeUnits]

theorem length_encodeChar (c : Char) : (encodeChar c).length = unitSize c := by
  unfold encodeChar unitSize
  split <;> rfl

@[simp] theorem length_codeUnits (s : String) : (codeUnits s).length = units16 s := by
  unfold codeUnits units16
  induction s.toList with
  | nil => rfl
  | cons c cs ih => rw [List.flatMap_cons, List.length_append, ih, length_encodeChar, unitsOf_cons]

example : codeUnits "a😀" = [0x61, 0xD83D, 0xDE00] ∧ splitsPair (codeUnits "a😀") 2 = true := by decide

end LanguageServer.Text
