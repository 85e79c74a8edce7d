/-!
# Words

Lines, columns and lengths are words of 32 bits on the wire. A count that no word can hold keeps its lower
32 bits only.

* `ofCount`: the word that is left of a count;
* `add?`: sums that are words.
-/

namespace LanguageServer.Word

/-- The number of words. -/
def size : Nat := 0x100000000

/-- The word that is left of a count. -/
def ofCount (n : Nat) : Nat := n % size

/-- The sum of two words, if it is a word. -/
def add? (a b : Nat) : Option Nat := if a + b < size then some (a + b) else none

variable {a b n : Nat}

theorem ofCount_of_lt (h : n < size) : ofCount n = n := Nat.mod_eq_of_lt h

theorem ofCount_le (n : Nat) : ofCount n ≤ n := Nat.mod_le n size

/-- A count that is no word is cut. -/
theorem ofCount_lt (h : size ≤ n) : ofCount n < n :=
  Nat.lt_of_lt_of_le (Nat.mod_lt n (by decide)) h

theorem add?_of_lt (h : a + b < size) : add? a b = some (a + b) := if_pos h

end LanguageServer.Word
