import Lispbox.Integer.Power
/-!
# Doubles as exact numbers

A finite double is `± m · 2^q` with `m < 2^53` and `-1074 ≤ q ≤ 971`. `parts` reads these numbers
off the 64 bits, `nearestBits` writes the double nearest to a quotient of natural numbers, where a
half goes to the even neighbour. All arithmetic is exact.
-/
namespace Lispbox.Decimal

/-- What the bits of a double stand for. -/
inductive Parts where
  | nan
  | infinite (negative : Bool)
  | finite (negative : Bool) (m : Nat) (q : Int)
  deriving DecidableEq, Repr

/-- The number that the bits of a double stand for. -/
def parts (bits : UInt64) : Parts :=
  let b := bits.toNat
  let negative := b / twoTo 63 == 1
  let exponent : Nat := b / twoTo 52 % 2048
  let fraction : Nat := b % twoTo 52
  if exponent = 2047 then (if fraction = 0 then .infinite negative else .nan)
  else if exponent = 0 then .finite negative fraction (-1074)
  else .finite negative (fraction + twoTo 52) ((exponent : Int) - 1075)

/-- The quotient rounded to a whole number, a half to the even neighbour. -/
def roundQuotient (num den : Nat) : Nat :=
  let whole := num / den
  let rest := num % den
  if 2 * rest < den then whole
  else if den < 2 * rest then whole + 1
  else if whole % 2 = 0 then whole else whole + 1

/-- The bits of infinity. -/
def infiniteBits : Nat := 2047 * twoTo 52

/-- The bits of the double nearest to `num / den`; infinity from half a unit past the largest
finite double on. -/
def nearestBits (num den : Nat) : Nat :=
  if num = 0 then 0
  else
    let k : Int := (num.log2 : Int) - den.log2
    -- `num / den` lies between `2^(k-1)` and `2^(k+1)`
    let scaled (q : Int) : Nat × Nat :=
      if 0 ≤ q then (num, den * twoTo q.toNat) else (num * twoTo (-q).toNat, den)
    let low := scaled (k - 53)
    let q := max (-1074) (if low.1 / low.2 < twoTo 53 then k - 53 else k - 52)
    let fitted := scaled q
    min infiniteBits (roundQuotient fitted.1 fitted.2 + (q + 1074).toNat * twoTo 52)

/-- The double with the given sign and the bits of its magnitude. -/
def withSign (negative : Bool) (magnitude : Nat) : Float :=
  Float.ofBits (UInt64.ofNat (if negative then magnitude + twoTo 63 else magnitude))

/-- The double nearest to `± num / den`. -/
def ofQuotient (negative : Bool) (num den : Nat) : Float :=
  withSign negative (nearestBits num den)

/-- The remainder of division toward zero, exact, with the sign of the dividend; not a number for an
infinite dividend or a zero divisor. -/
def remainder (x y : Float) : Float :=
  match parts x.toBits, parts y.toBits with
  | .finite s m q, .finite _ n r =>
    if n = 0 then 0.0 / 0.0
    else
      let unit := min q r
      let a := m * twoTo (q - unit).toNat
      let b := n * twoTo (r - unit).toNat
      let rest := a % b
      if 0 ≤ unit then ofQuotient s (rest * twoTo unit.toNat) 1
      else ofQuotient s rest (twoTo (-unit).toNat)
  | .finite _ _ _, .infinite _ => x
  | _, _ => 0.0 / 0.0

/-- The double without its fraction, if it is finite. -/
def whole? (x : Float) : Option Int :=
  match parts x.toBits with
  | .finite negative m q =>
    let n : Int := m * twoTo q.toNat / twoTo (-q).toNat
    some (if negative then -n else n)
  | _ => none

end Lispbox.Decimal
