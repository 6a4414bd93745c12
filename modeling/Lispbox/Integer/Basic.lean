import Lispbox.Integer.Power
import Lispbox.Text.Digits
/-!
# 64-bit integers

Scripts compute with signed 64-bit integers. A result is first computed exactly and then has to fit.

* `fit?_eq_some_iff`: what fits is kept unchanged, and nothing else fits.
* `fit?_cappedValue`: digits past 64 bits do not decide what fits.
-/
namespace Lispbox.Integer
open Lispbox.Text (cappedValue digitsValue isDigits splitSign)

/-- The exact result as a 64-bit integer, if it lies in the range. -/
def fit? (n : Int) : Option Int64 :=
  if -9223372036854775808 ≤ n ∧ n < 9223372036854775808 then some (Int64.ofInt n) else none

theorem fit?_eq_some_iff {n : Int} {w : Int64} : fit? n = some w ↔ w.toInt = n := by
  unfold fit?
  constructor
  · intro h
    split at h
    · next hn =>
      cases h
      exact Int64.toInt_ofInt_of_le hn.1 hn.2
    · cases h
  · rintro rfl
    have h1 := Int64.minValue_le_toInt w
    have h2 := Int64.toInt_lt w
    rw [if_pos ⟨by simpa using h1, by simpa using h2⟩]
    simp

/-- A number with a sign. -/
def signed (negative : Bool) (n : Nat) : Int := if negative then -n else n

theorem fit?_cappedValue (negative : Bool) (digits : List Char) :
    fit? (signed negative (cappedValue word64 digits)) =
      fit? (signed negative (digitsValue digits)) := by
  by_cases h : digitsValue digits < word64
  · rw [Text.cappedValue_of_lt h]
  · have hd : word64 ≤ digitsValue digits := Nat.le_of_not_lt h
    have hc := Text.le_cappedValue hd
    have hw : word64 = 18446744073709551616 := rfl
    unfold fit? signed
    rw [if_neg, if_neg] <;> split <;> omega

/-- The number written as an optional sign and digits; none for any other text. A number beyond 64
bits is told only to be out of range. -/
def ofSigned? (cs : List Char) : Option Int :=
  let (negative, digits) := splitSign cs
  if isDigits digits then some (signed negative (cappedValue word64 digits)) else none

/-- The 64-bit integer written as an optional sign and digits. -/
def ofText? (s : String) : Option Int64 :=
  (ofSigned? s.toList).bind fit?

end Lispbox.Integer
