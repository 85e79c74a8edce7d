import LanguageServer.Text.Quoted

/-!
# Integers in several bases

Numbers of 32 bits as the editor shows them. A negative one is written in two's complement, except in
base ten.

* `wrap32`: the number modulo `2 ^ 32`;
* `binaryText`: base two; more than four digits are filled up to whole bytes, each after an
  underscore;
* `hexText`: base sixteen;
* `unitChar?`: the character of a number that is one UTF-16 code unit long.
-/

namespace LanguageServer.Text

/-- A number modulo `2 ^ 32`. -/
def wrap32 (n : Int) : Nat := (n % 0x100000000).toNat

/-- A number as its digits are written: as it is, or in two's complement. -/
def unsigned (n : Int) : Nat := if n < 0 then wrap32 n else n.toNat

/-- Groups of eight, each after an underscore. -/
def bytesOf : List Char → List Char
  | a :: b :: c :: d :: e :: f :: g :: h :: rest =>
    '_' :: a :: b :: c :: d :: e :: f :: g :: h :: bytesOf rest
  | cs => cs

/-- Digits filled up with zeros to a multiple of eight. -/
def padToBytes (digits : List Char) : List Char :=
  List.replicate ((8 - digits.length % 8) % 8) '0' ++ digits

/-- A number in base two. -/
def binaryText (n : Int) : String :=
  let digits := Nat.toDigits 2 (unsigned n)
  if digits.length ≤ 4 then String.ofList digits else String.ofList (bytesOf (padToBytes digits))

/-- A number in base sixteen. -/
def hexText (n : Int) : String := hexadecimal (unsigned n)

/-- The character whose code point a number is, if it is a single code unit and no half of a pair. -/
def unitChar? (n : Int) : Option Char :=
  if 0 ≤ n ∧ n ≤ 0xFFFF ∧ n.toNat.isValidChar then some (Char.ofNat n.toNat) else none

end LanguageServer.Text
