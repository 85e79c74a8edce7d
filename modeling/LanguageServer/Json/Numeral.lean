/-!
# Written numbers

A number of a JSON text, kept as it is written until a reader asks for an integer or for a
floating-point number.

* `Numeral`: sign, digits, fraction and exponent;
* `Numeral.read?`: the number grammar;
* `Numeral.toInt?`: the integer, if it is written as one and fits in 64 bits, with or without sign;
* `Numeral.toDouble?`: the floating-point number: the leading digits that fit in 64 bits, scaled by a
  power of ten in floating-point arithmetic; nothing if that leaves the range.
-/

namespace LanguageServer.Json

/-- A number as it is written: `digits`, then the digits after the point, if there is one, then the
exponent, if there is one. -/
structure Numeral where
  negative : Bool
  digits : List Nat
  fraction : List Nat
  exponent : Option Int
  deriving DecidableEq, Repr

namespace Numeral

/-- The value of a digit. -/
def digit? (c : Char) : Option Nat :=
  if '0' ≤ c ∧ c ≤ '9' then some (c.toNat - 0x30) else none

/-- The number that digits of base ten stand for. -/
def ofDigits (ds : List Nat) : Nat := ds.foldl (fun n d => 10 * n + d) 0

/-- An integer, as it is written. -/
def ofInt (i : Int) : Numeral :=
  { negative := i < 0
    digits := (Nat.toDigits 10 i.natAbs).map (·.toNat - 0x30)
    fraction := []
    exponent := none }

/-- The leading digits of a sequence, and the rest. -/
def spanDigits (cs : List Char) : List Nat × List Char :=
  let ds := cs.takeWhile Char.isDigit
  (ds.filterMap digit?, cs.drop ds.length)

/-- The part after the integer digits: nothing, or an exponent that ends the number. -/
def readExponent? : List Char → Option (Option Int)
  | [] => some none
  | e :: rest =>
    if e = 'e' ∨ e = 'E' then
      let (negative, rest) := match rest with
        | '-' :: r => (true, r)
        | '+' :: r => (false, r)
        | r => (false, r)
      match spanDigits rest with
      | ([], _) => none
      | (ds, []) =>
        let n : Int := ofDigits ds
        some (some (if negative then -n else n))
      | _ => none
    else none

/-- A number without its sign: no digit may follow a leading zero, and a point needs digits on both
sides. -/
def readUnsigned? (negative : Bool) (cs : List Char) : Option Numeral :=
  match spanDigits cs with
  | ([], _) => none
  | (0 :: _ :: _, _) => none
  | (digits, '.' :: rest) =>
    match spanDigits rest with
    | ([], _) => none
    | (fraction, rest) => (readExponent? rest).map (⟨negative, digits, fraction, ·⟩)
  | (digits, rest) => (readExponent? rest).map (⟨negative, digits, [], ·⟩)

/-- The number grammar of JSON. -/
def read? : List Char → Option Numeral
  | '-' :: rest => readUnsigned? true rest
  | cs => readUnsigned? false cs

/-- One more than the greatest integer of 64 bits with a sign, which is `2 ^ 63`. -/
def signedLimit : Nat := 0x8000000000000000

/-- One more than the greatest integer of 64 bits without a sign, which is `2 ^ 64`. -/
def unsignedLimit : Nat := 0x10000000000000000

/-- The integer a number is, if it has neither point nor exponent and lies between `-2 ^ 63` and
`2 ^ 64`. Minus zero is no integer. -/
def toInt? (n : Numeral) : Option Int :=
  if n.fraction.isEmpty && n.exponent.isNone then
    let m := ofDigits n.digits
    if n.negative then
      if 0 < m ∧ m ≤ signedLimit then some (-m) else none
    else if m < unsignedLimit then some m else none
  else none

/-- The leading digits whose number fits in 64 bits, and how many are left over. -/
def significand (start : Nat) : List Nat → Nat × Nat
  | [] => (start, 0)
  | d :: ds =>
    if 10 * start + d < unsignedLimit then significand (10 * start + d) ds
    else (start, ds.length + 1)

/-- Scaling by a power of ten, in steps of at most `10 ^ 308`. -/
def scale (f : Float) (exponent : Int) : Option Float :=
  if 0 ≤ exponent then
    if f == 0 then some f
    else if 308 < exponent then none
    else
      let r := f * Float.ofScientific 1 false exponent.toNat
      if r.isInf then none else some r
  else if f == 0 then some f
  else if exponent < -308 then
    let f := f / 1e308
    if f == 0 then some f
    else if exponent + 308 < -308 then some (f / 1e308)
    else some (f / Float.ofScientific 1 false (-(exponent + 308)).toNat)
  else some (f / Float.ofScientific 1 false (-exponent).toNat)

/-- The bits of the floating-point number that a numeral stands for. -/
def toDouble? (n : Numeral) : Option UInt64 :=
  let (whole, dropped) := significand 0 n.digits
  let (m, left) := significand whole n.fraction
  let exponent : Int := (dropped + left : Nat) - n.fraction.length
  let magnitude := scale m.toUInt64.toFloat (exponent + n.exponent.getD 0)
  magnitude.map fun f => (if n.negative then -f else f).toBits

end Numeral

end LanguageServer.Json
