import Lispbox.Decimal.Shortest
/-!
# The text of a double

A `Style` holds the decisions that one output makes about numbers; `Style.render` writes a double by
it, from the shortest decimal that reads back. Zero counts as one digit before the point.
-/
namespace Lispbox.Decimal

/-- How one output writes doubles. -/
structure Style where
  /-- Which of two equally near shortest decimals is written. -/
  tie : Tie
  /-- Whole numbers with at most this many digits end in `.0`. -/
  wholeDigits : Nat
  /-- Numbers with a digit count before the point above the first and up to the second bound are
  written without an exponent; all numbers are if there are no bounds. -/
  positional : Option (Int × Int)
  deriving DecidableEq, Repr

/-- The decimal without an exponent, from its digits and the number of those before the point. -/
def Style.plain (s : Style) (digits : String) (before : Int) : String :=
  let n : Int := digits.length
  if n ≤ before then
    let whole := digits ++ String.ofList (List.replicate (before - n).toNat '0')
    if before ≤ s.wholeDigits then whole ++ ".0" else whole
  else if 0 < before then
    String.ofList (digits.toList.take before.toNat) ++ "."
      ++ String.ofList (digits.toList.drop before.toNat)
  else "0." ++ String.ofList (List.replicate (-before).toNat '0') ++ digits

/-- The decimal with one digit before the point and a signed exponent. -/
def Style.scientific (digits : String) (before : Int) : String :=
  let first := String.ofList (digits.toList.take 1)
  let rest := String.ofList (digits.toList.drop 1)
  let exponent := before - 1
  first ++ (if rest.isEmpty then "" else "." ++ rest) ++ "e"
    ++ (if 0 ≤ exponent then "+" ++ toString exponent.toNat else "-" ++ toString (-exponent).toNat)

/-- The text of a decimal in the style. -/
def Style.magnitude (s : Style) (d : Scientific) : String :=
  let digits := toString d.digits
  let before : Int := digits.length + d.exponent
  match s.positional with
  | none => s.plain digits before
  | some (low, high) =>
    if low < before ∧ before ≤ high then s.plain digits before
    else Style.scientific digits before

/-- The text of what the bits of a double stand for. -/
def Style.renderParts (s : Style) : Parts → String
  | .nan => "nan"
  | .infinite negative => if negative then "-inf" else "inf"
  | .finite negative m q =>
    let magnitude := if m = 0 then s.plain "0" 1 else s.magnitude (shortest s.tie m q)
    if negative then "-" ++ magnitude else magnitude

/-- The text of a double in the style. -/
def Style.render (s : Style) (x : Float) : String :=
  s.renderParts (parts x.toBits)

/-- Literals of a source: no exponent and no point in whole numbers. -/
def Style.literal : Style := ⟨.up, 0, none⟩

/-- Values shown by a script: no exponent, and whole numbers below `10^16` show a point. -/
def Style.display : Style := ⟨.up, 16, none⟩

/-- Numbers of JSON texts. -/
def Style.json : Style := ⟨.toEven, 16, some (-5, 16)⟩

end Lispbox.Decimal
