/-!
# Decimal digits

* `cappedValue_of_lt`, `le_cappedValue`: a value below the limit is exact, any other reaches the
  limit.
* `digitsValue_significant`: zeros in front do not count.
-/
namespace Lispbox.Text

/-- The value of the decimal digits. -/
def digitsValue (cs : List Char) : Nat :=
  cs.foldl (fun n c => 10 * n + (c.toNat - '0'.toNat)) 0

/-- At least one character, and only decimal digits. -/
def isDigits (cs : List Char) : Bool :=
  !cs.isEmpty && cs.all Char.isDigit

/-- The value of the digits up to the one that takes it to the limit; further digits are passed
over. -/
def cappedValue (limit : Nat) (cs : List Char) : Nat :=
  cs.foldl (fun n c => if n < limit then 10 * n + (c.toNat - '0'.toNat) else n) 0

theorem le_foldl_digits (cs : List Char) (n : Nat) :
    n ≤ cs.foldl (fun n c => 10 * n + (c.toNat - '0'.toNat)) n := by
  induction cs generalizing n with
  | nil => simp
  | cons c cs ih =>
    have := ih (10 * n + (c.toNat - '0'.toNat))
    simp only [List.foldl_cons]
    omega

theorem cappedValue_of_lt {limit : Nat} {cs : List Char} (h : digitsValue cs < limit) :
    cappedValue limit cs = digitsValue cs := by
  unfold cappedValue digitsValue at *
  generalize 0 = n at *
  induction cs generalizing n with
  | nil => rfl
  | cons c cs ih =>
    have hn := le_foldl_digits cs (10 * n + (c.toNat - '0'.toNat))
    simp only [List.foldl_cons] at h ⊢
    rw [if_pos (by omega)]
    exact ih _ h

theorem le_cappedValue {limit : Nat} {cs : List Char} (h : limit ≤ digitsValue cs) :
    limit ≤ cappedValue limit cs := by
  unfold cappedValue digitsValue at *
  generalize 0 = n at *
  induction cs generalizing n with
  | nil => exact h
  | cons c cs ih =>
    simp only [List.foldl_cons] at h ⊢
    split
    · exact ih _ h
    · next hn =>
      have hle := le_foldl_digits cs n
      exact ih n (by omega)

/-- The digits without the zeros in front of them. -/
def significant (cs : List Char) : List Char := cs.dropWhile (· == '0')

theorem digitsValue_significant (cs : List Char) :
    digitsValue (significant cs) = digitsValue cs := by
  induction cs with
  | nil => rfl
  | cons c cs ih =>
    by_cases h : c = '0'
    · subst h
      simpa [significant, digitsValue] using ih
    · simp [significant, h]

/-- A sign at the start, if there is one: whether it is a minus, and what follows. -/
def splitSign : List Char → Bool × List Char
  | '-' :: cs => (true, cs)
  | '+' :: cs => (false, cs)
  | cs => (false, cs)

end Lispbox.Text
