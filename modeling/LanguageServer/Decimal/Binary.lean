/-!
# Binary floating-point numbers

The interchange formats of 32 and 64 bits, read from their bits.

* `Format`: the widths of the exponent and of the fraction;
* `Value`: what a bit pattern stands for: a sign with `m · 2 ^ q`, an infinity, or no number;
* `Format.decode`: from bits to values.
-/

namespace LanguageServer.Decimal

/-- A floating-point format with an implicit leading bit. -/
structure Format where
  fractionBits : Nat
  exponentBits : Nat

/-- The format of 32 bits. -/
def single : Format := ⟨23, 8⟩

/-- The format of 64 bits. -/
def double : Format := ⟨52, 11⟩

/-- What a bit pattern stands for. In `finite`, the magnitude is `m · 2 ^ q`; `lowestOfBinade` tells
that the magnitude below lies only half as far away as the one above. -/
inductive Value
  | nan
  | infinite (negative : Bool)
  | finite (negative : Bool) (m : Nat) (q : Int) (lowestOfBinade : Bool)
  deriving DecidableEq, Repr

/-- The value of a bit pattern. -/
def Format.decode (f : Format) (bits : Nat) : Value :=
  let fraction := bits % Nat.pow 2 f.fractionBits
  let exponent := bits / Nat.pow 2 f.fractionBits % Nat.pow 2 f.exponentBits
  let negative := bits / Nat.pow 2 (f.fractionBits + f.exponentBits) % 2 == 1
  let lowest : Int := 2 - (Nat.pow 2 (f.exponentBits - 1) : Nat) - f.fractionBits
  if exponent = Nat.pow 2 f.exponentBits - 1 then
    if fraction = 0 then .infinite negative else .nan
  else if exponent = 0 then
    .finite negative fraction lowest false
  else
    .finite negative (Nat.pow 2 f.fractionBits + fraction) (lowest + (exponent - 1 : Nat))
      (fraction == 0 && 1 < exponent)

end LanguageServer.Decimal
