import Lispbox.Decimal.Binary
/-!
# Shortest decimals

Of the decimals that read back as a given double, `shortest` chooses one with the fewest digits, and
of those the one nearest to the double; where two are equally near, `Tie` decides.

The reals that read back as `m · 2^q` form an interval around it: half a unit to either side, a
quarter below where `m` is a power of two and the neighbour is nearer, ends included when `m` is
even. A grid of decimals with a given number of digits meets the interval only if one of the two
grid points next to the double does, so these two are tested, for 1, 2, … 17 digits.
-/
namespace Lispbox.Decimal

/-- Which of two equally near decimals is chosen. -/
inductive Tie where
  | up
  | toEven
  deriving DecidableEq, Repr

/-- A decimal `digits · 10^exponent`. -/
structure Scientific where
  digits : Nat
  exponent : Int
  deriving DecidableEq, Repr

/-- A number, the bounds of an interval around it, and whether the bounds belong to it, all over one
denominator. -/
structure Interval where
  low : Nat
  value : Nat
  high : Nat
  den : Nat
  closed : Bool
  deriving DecidableEq, Repr

/-- The reals that read back as `m · 2^q`. -/
def Interval.of (m : Nat) (q : Int) : Interval :=
  let below := if m = twoTo 52 ∧ -1074 < q then 4 * m - 1 else 4 * m - 2
  let up := twoTo q.toNat
  ⟨below * up, 4 * m * up, (4 * m + 2) * up, 4 * twoTo (-q).toNat, m % 2 = 0⟩

/-- The interval and the grid of multiples of `10^k`, as numbers over one denominator. -/
def Interval.scale (i : Interval) (k : Int) : Interval × Nat :=
  let down := tenTo (-k).toNat
  ({ i with low := i.low * down, value := i.value * down, high := i.high * down },
    i.den * tenTo k.toNat)

/-- The number (over the interval's denominator) belongs to the interval. -/
def Interval.has (i : Interval) (x : Nat) : Bool :=
  if i.closed then i.low ≤ x && x ≤ i.high else i.low < x && x < i.high

/-- How many decimal digits the number has. -/
def digitCount (n : Nat) : Nat := (Nat.toDigits 10 n).length

/-- The exponent `e` with `10^(e-1) ≤ value < 10^e`. -/
def Interval.magnitude (i : Interval) : Int :=
  if i.den ≤ i.value then digitCount (i.value / i.den)
  else 1 - (digitCount ((i.den + i.value - 1) / i.value - 1) : Int)

/-- The nearest of the multiples of `10^k` next to the value that lie in the interval, if any. -/
def Interval.onGrid (i : Interval) (tie : Tie) (k : Int) : Option Nat :=
  let (s, unit) := i.scale k
  let c := s.value / unit
  let lower := s.value - c * unit
  let upper := (c + 1) * unit - s.value
  match s.has (c * unit), s.has ((c + 1) * unit) with
  | true, true =>
    if lower < upper then some c
    else if upper < lower then some (c + 1)
    else match tie with
      | .up => some (c + 1)
      | .toEven => if c % 2 = 0 then some c else some (c + 1)
  | true, false => some c
  | false, true => some (c + 1)
  | false, false => none

/-- The first grid with a point in the interval, from `n` digits on. -/
def Interval.search (i : Interval) (tie : Tie) (n : Nat) : Nat → Scientific
  | 0 => ⟨0, 0⟩
  | grids + 1 =>
    let k := i.magnitude - n
    match i.onGrid tie k with
    | some c => ⟨c, k⟩
    | none => i.search tie (n + 1) grids

/-- Moves the zeros at the end of the digits into the exponent; `steps` bounds their number. -/
def Scientific.normalize (s : Scientific) : Nat → Scientific
  | 0 => s
  | steps + 1 =>
    if s.digits ≠ 0 ∧ s.digits % 10 = 0 then
      Scientific.normalize ⟨s.digits / 10, s.exponent + 1⟩ steps
    else s

/-- The shortest decimal that reads back as `m · 2^q`, for positive `m`. -/
def shortest (tie : Tie) (m : Nat) (q : Int) : Scientific :=
  ((Interval.of m q).search tie 1 17).normalize 20

end Lispbox.Decimal
