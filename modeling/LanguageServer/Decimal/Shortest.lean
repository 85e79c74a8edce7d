import LanguageServer.Decimal.Binary

/-!
# Shortest decimals

The decimal with the fewest digits that still reads back as a given binary floating-point number;
of several, the nearest to it.

The numbers that read back as `m · 2 ^ q` form an interval around it, whose ends belong to it when
`m` is even. On each grid of the multiples of a power of ten only the two neighbours of the number
have to be tried, and the coarsest grid with a neighbour inside the interval gives the fewest digits.

* `Interval`, `Interval.holds`: the interval, as fractions over one denominator;
* `shortest`: the digits and the exponent;
* `positional`: a decimal without exponent notation;
* `displayBits`: the text of a floating-point number.
-/

namespace LanguageServer.Decimal

/-- The numbers from `low / den` to `high / den`, around `mid / den`. -/
structure Interval where
  low : Nat
  mid : Nat
  high : Nat
  den : Nat
  closed : Bool

/-- The numbers that read back as `m · 2 ^ q`. -/
def Interval.around (m : Nat) (q : Int) (lowestOfBinade : Bool) : Interval :=
  let up := Nat.pow 2 q.toNat
  { low := (4 * m - (if lowestOfBinade then 1 else 2)) * up
    mid := 4 * m * up
    high := (4 * m + 2) * up
    den := 4 * Nat.pow 2 (-q).toNat
    closed := m % 2 = 0 }

/-- Whether `c · 10 ^ p` lies in the interval. -/
def Interval.holds (i : Interval) (c : Nat) (p : Int) : Bool :=
  let x := c * Nat.pow 10 p.toNat * i.den
  let scale := Nat.pow 10 (-p).toNat
  if i.closed then i.low * scale ≤ x && x ≤ i.high * scale
  else i.low * scale < x && x < i.high * scale

/-- The neighbour of the middle on the multiples of `10 ^ p`, where one lies in the interval; of two,
the nearer one, and the upper one of two that are equally near. -/
def Interval.onGrid (i : Interval) (p : Int) : Option Nat :=
  let num := i.mid * Nat.pow 10 (-p).toNat
  let den := i.den * Nat.pow 10 p.toNat
  let below := num / den
  match i.holds below p && 0 < below, i.holds (below + 1) p with
  | true, true => some (if 2 * (num % den) < den then below else below + 1)
  | true, false => some below
  | false, true => some (below + 1)
  | false, false => none

/-- The number of decimal digits of a positive number. -/
def digitCount (n : Nat) : Nat := (Nat.toDigits 10 n).length

/-- The shortest decimal `c · 10 ^ p` that reads back as `m · 2 ^ q`, for a positive `m`. Twenty-one
grids are enough: the first is too coarse by at most a factor of a hundred, and seventeen digits
always read back. -/
def shortest (m : Nat) (q : Int) (lowestOfBinade : Bool) : Nat × Int :=
  let i := Interval.around m q lowestOfBinade
  let top : Int := digitCount i.mid - digitCount i.den + 1
  let hit := (List.range 21).findSome? fun (k : Nat) =>
    (i.onGrid (top - k)).map fun c => (c, top - k)
  hit.getD (m * Nat.pow 2 q.toNat, 0)

/-- `c · 10 ^ p` without exponent notation, and without a point when it is an integer. -/
def positional (c : Nat) (p : Int) : String :=
  if 0 ≤ p then toString (c * Nat.pow 10 p.toNat)
  else
    let places := (-p).toNat
    let scale := Nat.pow 10 places
    let fraction := Nat.toDigits 10 (c % scale)
    toString (c / scale) ++ "." ++
      String.ofList (List.replicate (places - fraction.length) '0' ++ fraction)

/-- The text of a value: the shortest decimal, signed also when it is zero. -/
def Value.display : Value → String
  | .nan => "NaN"
  | .infinite negative => if negative then "-inf" else "inf"
  | .finite negative m q lowestOfBinade =>
    let magnitude :=
      if m = 0 then "0"
      else
        let (c, p) := shortest m q lowestOfBinade
        positional c p
    if negative then "-" ++ magnitude else magnitude

/-- The text of the floating-point number with the given bits. -/
def displayBits (f : Format) (bits : Nat) : String := (f.decode bits).display

end LanguageServer.Decimal
