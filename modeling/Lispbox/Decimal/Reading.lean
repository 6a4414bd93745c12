import Lispbox.Decimal.Binary
import Lispbox.Text.Digits
/-!
# Doubles from decimal text

`ofDigits` is the double nearest to `digits · 10^exponent`. Exponents that lead past every finite
double, or below every positive one, are recognised from the number of digits before the power is
computed, and of very many digits the last ones count only by whether they are zero. `ofText` reads
the text forms of a number that a script may convert: a sign, digits with at most one point, an
exponent, or one of the words for infinity and for what is not a number.
-/
namespace Lispbox.Decimal
open Lispbox.Text (cappedValue digitsValue isDigits significant splitSign)

/-- The double nearest to `± n · 10^exponent`. -/
def ofScientific (negative : Bool) (n : Nat) (exponent : Int) : Float :=
  if 0 ≤ exponent then ofQuotient negative (n * tenTo exponent.toNat) 1
  else ofQuotient negative n (tenTo (-exponent).toNat)

/-- The number of digits that are kept. A double has at most 767 digits, and so has the middle
between two neighbours. -/
def keptDigits : Nat := 800

/-- The double nearest to `± digits · 10^exponent`. -/
def ofDigits (negative : Bool) (digits : List Char) (exponent : Int) : Float :=
  let ds := significant digits
  -- `10^(magnitude-1) ≤ digits · 10^exponent < 10^magnitude`
  let magnitude : Int := ds.length + exponent
  if ds.isEmpty || magnitude < -400 then withSign negative 0
  else if 320 < magnitude then withSign negative infiniteBits
  else
    let head := ds.take keptDigits
    let tail := ds.drop keptDigits
    let exponent := exponent + tail.length
    if tail.all (· == '0') then ofScientific negative (digitsValue head) exponent
    -- the tail is more than nothing and less than a unit of the last digit that is kept
    else ofScientific negative (10 * digitsValue head + 1) (exponent - 1)

/-- An exponent is read up to the digit that takes it to this limit. -/
def exponentLimit : Nat := 65536

/-- The exponent part that follows the digits of a number: nothing, or `e`, an optional sign and
digits. -/
def readExponent : List Char → Option Int
  | [] => some 0
  | c :: cs =>
    if c = 'e' ∨ c = 'E' then
      let (negative, digits) := splitSign cs
      if isDigits digits then
        let n : Int := cappedValue exponentLimit digits
        some (if negative then -n else n)
      else none
    else none

/-- A number without its sign: digits with at most one point and at least one digit, then an
exponent. -/
def readUnsigned (negative : Bool) (cs : List Char) : Option Float :=
  let whole := cs.takeWhile Char.isDigit
  let afterWhole := cs.dropWhile Char.isDigit
  let (fraction, rest) := match afterWhole with
    | '.' :: r => (r.takeWhile Char.isDigit, r.dropWhile Char.isDigit)
    | r => ([], r)
  if whole.isEmpty && fraction.isEmpty then none
  else (readExponent rest).map fun e =>
    ofDigits negative (whole ++ fraction) (e - fraction.length)

/-- The double written as a whole and a fractional part. -/
def ofParts (negative : Bool) (whole fraction : List Char) : Float :=
  ofDigits negative (whole ++ fraction) (-(fraction.length : Int))

/-- The double that a text stands for. -/
def ofText (s : String) : Option Float :=
  let (negative, cs) := splitSign s.toList
  let word := String.ofList (cs.map Char.toLower)
  if word = "inf" ∨ word = "infinity" then some (withSign negative infiniteBits)
  else if word = "nan" then some (0.0 / 0.0)
  else readUnsigned negative cs

end Lispbox.Decimal
