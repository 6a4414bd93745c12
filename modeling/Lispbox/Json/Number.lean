import Lispbox.Decimal.Reading
import Lispbox.Integer.Power
import Lispbox.Json.Basic
/-!
# Numbers of JSON texts

A number without a point and an exponent is whole if it fits in 64 bits, signed or unsigned, and
minus zero is a double. All other numbers are doubles, computed from at most 64 bits of the digits
and one power of ten; digits beyond these are dropped.
-/
namespace Lispbox.Json

/-- The pieces of a number in a text. -/
structure NumberText where
  negative : Bool
  whole : List Char
  fraction : Option (List Char)
  /-- The sign of the exponent and its digits. -/
  exponent : Option (Bool × List Char)
  deriving DecidableEq, Repr

/-- Takes digits while the significand fits; the result has the digits that are left over. -/
def takeDigits (significand : Nat) : List Char → Nat × List Char
  | [] => (significand, [])
  | c :: cs =>
    let next := 10 * significand + (c.toNat - '0'.toNat)
    if next < word64 then takeDigits next cs else (significand, c :: cs)

/-- `significand · 10^exponent` by one multiplication or division with a power of ten, or nothing if
that is out of range. `rounds` bounds the divisions needed for an exponent below `-308`. -/
def scaleDouble (exponent : Int) (x : Float) : Nat → Option Float
  | 0 => some x
  | rounds + 1 =>
    if exponent.natAbs ≤ 308 then
      let power := Decimal.ofScientific false 1 exponent.natAbs
      if 0 ≤ exponent then
        let y := x * power
        if y.isInf then none else some y
      else some (x / power)
    else if x == 0.0 then some x
    else if 0 ≤ exponent then none
    else scaleDouble (exponent + 308) (x / Decimal.ofScientific false 1 308) rounds

/-- The double of a significand and an exponent. -/
def double? (negative : Bool) (significand : Nat) (exponent : Int) : Option Float :=
  (scaleDouble exponent (Decimal.ofQuotient false significand 1) 8).map fun x =>
    if negative then -x else x

/-- The double of a significand, an exponent found so far and the exponent part of the text.
Exponents of more than 31 bits are not told from infinity. -/
def withExponent? (negative : Bool) (significand : Nat) (exponent : Int) :
    Option (Bool × List Char) → Option Float
  | none => double? negative significand exponent
  | some (down, digits) =>
    let n := Text.cappedValue word31 digits
    if word31 ≤ n then
      if significand ≠ 0 ∧ !down then none else some (if negative then -0.0 else 0.0)
    else
      double? negative significand (if down then exponent - n else exponent + n)

/-- The value of a number; nothing if it is out of range. -/
def NumberText.value? (t : NumberText) : Option Json :=
  let (significand, dropped) := takeDigits 0 t.whole
  if dropped.isEmpty && t.fraction.isNone && t.exponent.isNone then
    if !t.negative then some (.whole significand)
    else if 0 < significand && significand ≤ word63 then some (.whole (-(significand : Int)))
    else some (.float (-(Decimal.ofQuotient false significand 1)))
  else
    let exponent : Int := dropped.length
    let (significand, exponent) := match t.fraction with
      | none => (significand, exponent)
      | some digits =>
        let (more, left) := takeDigits significand digits
        (more, exponent - ((digits.length - left.length : Nat) : Int))
    (withExponent? t.negative significand exponent t.exponent).map .float

end Lispbox.Json
