import Mathlib.Data.Rat.Floor
import Lispbox.Native.Call

/-!
# Integer arithmetic is exact

A number fits if it is a 64-bit integer (`Integer.Fits`). What a builtin computes from integers is
either exact or an overflow: `Native.IsExact` compares a call with the numbers on the way to its
result, which are computed without bound.

Quotients are rounded to the floor, and the floor is that of the rational quotient. Words divide in
another way, they drop the fraction; `wordQuotient` and `wordRest` are the quotient and the rest by
operations on words, adjusted to the floor afterwards, and no adjustment leaves the range
(`dividesExactly`).

* `floor_eq`: the quotient that goes with a rest on the side of the divisor.
* `toInt_wordQuotient`, `toInt_wordRest`: division by words is division at the floor.
* `exactly_foldlM`: sums, differences and products of any length.
* `integers_exact`: the builtins on integers.
-/
namespace Lispbox

/-! ## Numbers that fit -/

namespace Integer

/-- The number is a 64-bit integer. -/
def Fits (n : Int) : Prop := ∃ w : Int64, w.toInt = n

theorem fits_toInt (w : Int64) : Fits w.toInt := ⟨w, rfl⟩

theorem toInt_bounds (w : Int64) :
    -9223372036854775808 ≤ w.toInt ∧ w.toInt < 9223372036854775808 :=
  ⟨w.minValue_le_toInt, w.toInt_lt⟩

theorem fits_iff {n : Int} : Fits n ↔ -9223372036854775808 ≤ n ∧ n < 9223372036854775808 := by
  constructor
  · rintro ⟨w, rfl⟩
    exact toInt_bounds w
  · rintro ⟨hlow, hhigh⟩
    exact ⟨Int64.ofInt n, Int64.toInt_ofInt_of_le hlow hhigh⟩

theorem checked_toInt (w : Int64) : checked w.toInt = .ok w := by
  rw [checked, fit?_eq_some_iff.mpr rfl]

theorem fit?_of_not_fits {n : Int} (h : ¬ Fits n) : fit? n = none :=
  Option.eq_none_iff_forall_ne_some.mpr fun w hw => h ⟨w, fit?_eq_some_iff.mp hw⟩

theorem checked_of_not_fits {n : Int} (h : ¬ Fits n) : checked n = .error .overflow := by
  rw [checked, fit?_of_not_fits h]

theorem toInt_ne_zero {y : Int64} (hy : y ≠ 0) : y.toInt ≠ 0 :=
  fun h => hy (Int64.toInt_inj.mp h)

/-! ## Division by words -/

/-- The rest is less than the divisor, and on the same side of zero. -/
def IsRest (y r : Int) : Prop := 0 ≤ r ∧ r < y ∨ y < r ∧ r ≤ 0

theorem floor_eq {x y q r : Int} (h : y * q + r = x) (hr : IsRest y r) : ⌊(x : ℚ) / y⌋ = q := by
  have hnext : (q + 1) * y = y * q + y := by ring
  have hcomm := Int.mul_comm q y
  rw [Int.floor_eq_iff]
  rcases hr with hr | hr
  · have hy : (0 : ℚ) < y := by exact_mod_cast (by omega : (0 : Int) < y)
    rw [le_div_iff₀ hy, div_lt_iff₀ hy]
    exact ⟨by exact_mod_cast (by omega : q * y ≤ x), by exact_mod_cast (by omega : x < (q + 1) * y)⟩
  · have hy : (y : ℚ) < 0 := by exact_mod_cast (by omega : y < (0 : Int))
    rw [le_div_iff_of_neg hy, div_lt_iff_of_neg hy]
    exact ⟨by exact_mod_cast (by omega : x ≤ q * y), by exact_mod_cast (by omega : (q + 1) * y < x)⟩

theorem isRest_fmod {x y : Int} (hy : y ≠ 0) : IsRest y (x.fmod y) := by
  rcases Int.lt_or_gt_of_ne hy with hneg | hpos
  · have hlow := Int.fmod_nonneg_of_pos (-x) (Int.neg_pos_of_neg hneg)
    have hhigh := Int.fmod_lt_of_pos (-x) (Int.neg_pos_of_neg hneg)
    rw [Int.neg_fmod_neg] at hlow hhigh
    exact .inr ⟨by omega, by omega⟩
  · exact .inl ⟨Int.fmod_nonneg_of_pos x hpos, Int.fmod_lt_of_pos x hpos⟩

theorem floor_eq_fdiv (x : Int) {y : Int} (hy : y ≠ 0) : ⌊(x : ℚ) / y⌋ = x.fdiv y :=
  floor_eq (Int.mul_fdiv_add_fmod x y) (isRest_fmod hy)

/-- The rest is that of the quotient at the floor. -/
theorem fmod_eq {x y q r : Int} (hy : y ≠ 0) (h : y * q + r = x) (hr : IsRest y r) :
    x.fmod y = r := by
  have hq : x.fdiv y = q := (floor_eq_fdiv x hy).symm.trans (floor_eq h hr)
  have hrest := Int.mul_fdiv_add_fmod x y
  rw [hq] at hrest
  omega

/-- The quotient of words: the fraction is dropped, so it is one too many if there is a rest and the
signs differ. -/
def wordQuotient (x y : Int64) : Int64 :=
  if x % y ≠ 0 ∧ (x < 0 ↔ ¬ y < 0) then x / y - 1 else x / y

/-- The rest of words: it has the sign of the dividend, and is moved to the side of the divisor. -/
def wordRest (x y : Int64) : Int64 :=
  if x % y ≠ 0 ∧ (x % y < 0 ↔ ¬ y < 0) then x % y + y else x % y

/-- The quotient with the fraction dropped, and its rest. -/
structure Truncated (x y q r : Int) : Prop where
  sum : y * q + r = x
  small : r.natAbs < y.natAbs
  nonneg : 0 ≤ x → 0 ≤ r
  nonpos : x ≤ 0 → r ≤ 0
  le : q.natAbs ≤ x.natAbs

theorem truncated (x : Int) {y : Int} (hy : y ≠ 0) : Truncated x y (x.tdiv y) (x.tmod y) where
  sum := Int.mul_tdiv_add_tmod x y
  small := by
    rw [Int.natAbs_tmod]
    exact Nat.mod_lt _ (Int.natAbs_pos.mpr hy)
  nonneg := Int.tmod_nonneg y
  nonpos h := by
    have hneg := Int.tmod_nonneg y (Int.neg_nonneg_of_nonpos h)
    rw [Int.neg_tmod] at hneg
    omega
  le := Int.natAbs_tdiv_le_natAbs x y

/-- The signs differ, and there is a rest. -/
def Crosses (x y r : Int) : Prop := r ≠ 0 ∧ (x < 0 ↔ ¬ y < 0)

theorem Truncated.adjusted {x y q r : Int} (h : Truncated x y q r) (hc : Crosses x y r) :
    y * (q - 1) + (r + y) = x ∧ IsRest y (r + y) := by
  obtain ⟨hr, hsigns⟩ := hc
  have hsum := h.sum
  have hsmall := h.small
  have hnonneg := h.nonneg
  have hnonpos := h.nonpos
  refine ⟨by rw [Int.mul_sub]; omega, ?_⟩
  unfold IsRest
  omega

theorem Truncated.unadjusted {x y q r : Int} (h : Truncated x y q r) (hc : ¬ Crosses x y r) :
    IsRest y r := by
  have hsmall := h.small
  have hnonneg := h.nonneg
  have hnonpos := h.nonpos
  unfold Crosses at hc
  unfold IsRest
  omega

/-- The least quotient is reached by division by one only, and leaves no rest. -/
theorem Truncated.fits_pred {x y q r : Int} (h : Truncated x y q r) (hc : Crosses x y r)
    (hx : Fits x) : Fits (q - 1) := by
  obtain ⟨hr, hsigns⟩ := hc
  have hle := h.le
  have hsmall := h.small
  have hnonpos := h.nonpos
  have hsum := h.sum
  rw [fits_iff] at hx ⊢
  by_cases hq : q = -9223372036854775808
  · subst hq
    omega
  · omega

theorem Truncated.fits_add {x y q r : Int} (h : Truncated x y q r) (hc : Crosses x y r)
    (hy : Fits y) : Fits (r + y) := by
  have hrest := (h.adjusted hc).2
  unfold IsRest at hrest
  rw [fits_iff] at hy ⊢
  omega

/-- No operation on words leaves the range in a division, but for the one quotient that does not fit
itself; and the quotient and the rest are those at the floor. -/
structure DividesExactly (x y : Int64) : Prop where
  rest : (x % y).toInt = x.toInt.tmod y.toInt
  restMoved : x % y ≠ 0 ∧ (x % y < 0 ↔ ¬ y < 0) → (x % y + y).toInt = (x % y).toInt + y.toInt
  floorMod : floorMod x y = .ok (wordRest x y)
  quotient : ¬ (x = Int64.minValue ∧ y = -1) → (x / y).toInt = x.toInt.tdiv y.toInt
  quotientMoved : ¬ (x = Int64.minValue ∧ y = -1) → x % y ≠ 0 ∧ (x < 0 ↔ ¬ y < 0) →
    (x / y - 1).toInt = (x / y).toInt - 1
  floorDiv : ¬ (x = Int64.minValue ∧ y = -1) → floorDiv x y = .ok (wordQuotient x y)

theorem toInt_add_of_fits {x y : Int64} (h : Fits (x.toInt + y.toInt)) :
    (x + y).toInt = x.toInt + y.toInt := by
  rw [fits_iff] at h
  rw [Int64.toInt_add, Int.bmod_eq_of_le (by omega) (by omega)]

theorem toInt_pred_of_fits {x : Int64} (h : Fits (x.toInt - 1)) : (x - 1).toInt = x.toInt - 1 := by
  rw [fits_iff] at h
  rw [Int64.toInt_sub, Int64.toInt_one, Int.bmod_eq_of_le (by omega) (by omega)]

theorem toInt_quotient {x y : Int64} (h : ¬ (x = Int64.minValue ∧ y = -1)) :
    (x / y).toInt = x.toInt.tdiv y.toInt := by
  by_cases hx : x = Int64.minValue
  · exact Int64.toInt_div_of_ne_right x y fun hy => h ⟨hx, hy⟩
  · exact Int64.toInt_div_of_ne_left x y hx

theorem isNegative_iff (x : Int64) : x < 0 ↔ x.toInt < 0 := by
  rw [Int64.lt_iff_toInt_lt, Int64.toInt_zero]

theorem rest_ne_zero_iff (x y : Int64) : x % y ≠ 0 ↔ x.toInt.tmod y.toInt ≠ 0 := by
  rw [← Int64.toInt_mod, ← Int64.toInt_zero, Ne, Ne, Int64.toInt_inj]

theorem crosses_iff (x y : Int64) :
    x % y ≠ 0 ∧ (x < 0 ↔ ¬ y < 0) ↔ Crosses x.toInt y.toInt (x.toInt.tmod y.toInt) := by
  rw [rest_ne_zero_iff, isNegative_iff, isNegative_iff]
  rfl

/-- A rest that is not zero has the sign of the dividend. -/
theorem crosses_iff_rest {x y : Int64} (hy : y ≠ 0) :
    x % y ≠ 0 ∧ (x % y < 0 ↔ ¬ y < 0) ↔ Crosses x.toInt y.toInt (x.toInt.tmod y.toInt) := by
  have ht := truncated x.toInt (toInt_ne_zero hy)
  have hnonneg := ht.nonneg
  have hnonpos := ht.nonpos
  rw [rest_ne_zero_iff, isNegative_iff, isNegative_iff, Int64.toInt_mod]
  unfold Crosses
  omega

theorem toInt_moved (x : Int64) {y : Int64} (hy : y ≠ 0)
    (hc : Crosses x.toInt y.toInt (x.toInt.tmod y.toInt)) :
    (x % y + y).toInt = (x % y).toInt + y.toInt := by
  refine toInt_add_of_fits ?_
  rw [Int64.toInt_mod]
  exact (truncated x.toInt (toInt_ne_zero hy)).fits_add hc (fits_toInt y)

theorem toInt_lowered {x y : Int64} (hy : y ≠ 0) (hq : ¬ (x = Int64.minValue ∧ y = -1))
    (hc : Crosses x.toInt y.toInt (x.toInt.tmod y.toInt)) :
    (x / y - 1).toInt = (x / y).toInt - 1 := by
  refine toInt_pred_of_fits ?_
  rw [toInt_quotient hq]
  exact (truncated x.toInt (toInt_ne_zero hy)).fits_pred hc (fits_toInt x)

theorem toInt_wordRest (x : Int64) {y : Int64} (hy : y ≠ 0) :
    (wordRest x y).toInt = x.toInt.fmod y.toInt := by
  have hy' := toInt_ne_zero hy
  have ht := truncated x.toInt hy'
  symm
  rw [wordRest]
  split
  · next hc =>
    have hc' := (crosses_iff_rest hy).mp hc
    rw [toInt_moved x hy hc', Int64.toInt_mod]
    exact fmod_eq hy' (ht.adjusted hc').1 (ht.adjusted hc').2
  · next hc =>
    rw [Int64.toInt_mod]
    exact fmod_eq hy' ht.sum (ht.unadjusted (mt (crosses_iff_rest hy).mpr hc))

theorem toInt_wordQuotient {x y : Int64} (hy : y ≠ 0) (hq : ¬ (x = Int64.minValue ∧ y = -1)) :
    (wordQuotient x y).toInt = x.toInt.fdiv y.toInt := by
  have hy' := toInt_ne_zero hy
  have ht := truncated x.toInt hy'
  rw [← floor_eq_fdiv _ hy', wordQuotient]
  symm
  split
  · next hc =>
    have hc' := (crosses_iff x y).mp hc
    rw [toInt_lowered hy hq hc', toInt_quotient hq]
    exact floor_eq (ht.adjusted hc').1 (ht.adjusted hc').2
  · next hc =>
    rw [toInt_quotient hq]
    exact floor_eq ht.sum (ht.unadjusted (mt (crosses_iff x y).mpr hc))

theorem dividesExactly (x : Int64) {y : Int64} (hy : y ≠ 0) : DividesExactly x y where
  rest := Int64.toInt_mod x y
  restMoved hc := toInt_moved x hy ((crosses_iff_rest hy).mp hc)
  floorMod := by rw [floorMod, if_neg hy, ← toInt_wordRest x hy, checked_toInt]
  quotient := toInt_quotient
  quotientMoved hq hc := toInt_lowered hy hq ((crosses_iff x y).mp hc)
  floorDiv hq := by rw [floorDiv, if_neg hy, ← toInt_wordQuotient hy hq, checked_toInt]

end Integer

/-! ## Calls -/

namespace Native

open Integer

/-- The result is the last of the numbers on the way to it, if all of them fit; otherwise it is an
overflow. -/
structure Exactly (r : Except Cause Value) (way : List Int) : Prop where
  result : (∀ n ∈ way, Fits n) → ∃ w : Int64, way.getLast? = some w.toInt ∧ r = .ok (.integer w)
  overflow : (∃ n ∈ way, ¬ Fits n) → r = .error .integerOverflow

/-- The call of a builtin with integers has the last of the numbers on the way as its result, if all
of them fit; otherwise it overflows. -/
structure IsExact (n : Native) (args : List Int64) (way : List Int) : Prop where
  result : (∀ r ∈ way, Fits r) → ∃ w : Int64, way.getLast? = some w.toInt ∧
    n.call (args.map .integer) = pure (.integer w)
  overflow : (∃ r ∈ way, ¬ Fits r) →
    n.call (args.map .integer) = Script.raise .integerOverflow

theorem Exactly.isExact {n : Native} {args : List Int64} {way : List Int} {r : Except Cause Value}
    (hr : Exactly r way) (h : n.compute? (args.map .integer) = some r) : n.IsExact args way where
  result hfits := by
    obtain ⟨w, hlast, rfl⟩ := hr.result hfits
    exact ⟨w, hlast, call_of_compute h⟩
  overflow hnot := by
    rw [call_of_compute h, hr.overflow hnot]
    rfl

theorem exactly_checked (n : Int) : Exactly (integerResult (checked n)) [n] where
  result h := by
    obtain ⟨w, rfl⟩ := h n (by simp)
    exact ⟨w, rfl, by rw [checked_toInt]; rfl⟩
  overflow h := by
    rw [checked_of_not_fits (by simpa using h)]
    rfl

/-- The numbers on the way of an operation from left to right, the first one included. -/
def wayOf (op : Int → Int → Int) (x : Int64) (xs : List Int64) : List Int :=
  (xs.map Int64.toInt).scanl op x.toInt

theorem wayOf_cons (op : Int → Int → Int) (x y : Int64) (ys : List Int64) :
    wayOf op x (y :: ys) = x.toInt :: (ys.map Int64.toInt).scanl op (op x.toInt y.toInt) := by
  rw [wayOf, List.map_cons, List.scanl_cons]

/-- By induction on the operands: the exact result so far is the next operand on the left as long as
it fits, and once it does not, nothing is computed any more. -/
theorem exactly_foldlM {step : Value → Value → Except Cause Value} {op : Int → Int → Int}
    (hstep : ∀ x y : Int64,
      step (.integer x) (.integer y) = integerResult (checked (op x.toInt y.toInt)))
    (x : Int64) (xs : List Int64) :
    Exactly ((xs.map Value.integer).foldlM step (.integer x)) (wayOf op x xs) := by
  induction xs generalizing x with
  | nil => exact ⟨fun _ => ⟨x, rfl, rfl⟩, fun ⟨n, hn, hnot⟩ =>
      absurd (List.mem_singleton.mp hn ▸ fits_toInt x) hnot⟩
  | cons y ys ih =>
    rw [wayOf_cons, List.map_cons, List.foldlM_cons, hstep]
    by_cases hfits : Fits (op x.toInt y.toInt)
    · obtain ⟨w, hw⟩ := hfits
      rw [← hw, checked_toInt]
      have hrest := ih w
      refine ⟨fun hall => ?_, fun ⟨n, hn, hnot⟩ => ?_⟩
      · obtain ⟨v, hlast, hv⟩ := hrest.result fun n hn => hall n (List.mem_cons_of_mem _ hn)
        rw [wayOf, List.getLast?_scanl] at hlast
        exact ⟨v, by rw [List.getLast?_cons, List.getLast?_scanl, Option.getD_some, hlast], hv⟩
      · rcases List.mem_cons.mp hn with rfl | hn
        · exact absurd (fits_toInt x) hnot
        · exact hrest.overflow ⟨n, hn, hnot⟩
    · rw [checked_of_not_fits hfits]
      refine ⟨fun hall => absurd (hall _ ?_) hfits, fun _ => rfl⟩
      cases ys <;> simp

/-! ### Division -/

/-- The quotient of two integers, rounded to the floor. -/
def floorOf (x y : Int64) : Int := ⌊(x.toInt : ℚ) / y.toInt⌋

theorem floorOf_eq (x : Int64) {y : Int64} (hy : y ≠ 0) : floorOf x y = x.toInt.fdiv y.toInt :=
  floor_eq_fdiv x.toInt (toInt_ne_zero hy)

theorem isExact_floorDiv (x : Int64) {y : Int64} (hy : y ≠ 0) :
    IsExact .floorDiv [x, y] [floorOf x y] := by
  refine (exactly_checked (floorOf x y)).isExact ?_
  change some (integerResult (Integer.floorDiv x y)) = _
  rw [Integer.floorDiv, if_neg hy, floorOf_eq x hy]

/-- One quotient of integers is no integer of 64 bits. -/
theorem fits_floorOf (x : Int64) {y : Int64} (hy : y ≠ 0) :
    Fits (floorOf x y) ↔ ¬ (x = Int64.minValue ∧ y = -1) := by
  constructor
  · rintro hfits ⟨rfl, rfl⟩
    rw [floorOf_eq _ hy, fits_iff] at hfits
    exact absurd hfits (by decide)
  · intro hq
    rw [floorOf_eq x hy, ← toInt_wordQuotient hy hq]
    exact fits_toInt _

theorem call_modulo (x : Int64) {y : Int64} (hy : y ≠ 0) :
    ∃ r : Int64, Native.modulo.call [.integer x, .integer y] = pure (.integer r) ∧
      x.toInt = y.toInt * floorOf x y + r.toInt ∧ IsRest y.toInt r.toInt := by
  have hrest := toInt_wordRest x hy
  have hresult : Native.modulo.compute? [.integer x, .integer y] =
      some (.ok (.integer (wordRest x y))) := by
    change some (integerResult (Integer.floorMod x y)) = _
    rw [(dividesExactly x hy).floorMod]
    rfl
  refine ⟨wordRest x y, call_of_compute hresult, ?_, ?_⟩
  · rw [floorOf_eq x hy, hrest, Int.mul_fdiv_add_fmod]
  · rw [hrest]
    exact isRest_fmod (toInt_ne_zero hy)

/-- A value is no exception. -/
theorem pure_ne_raise (v : Value) (c : Cause) : (pure v : Script Value) ≠ Script.raise c := by
  intro h
  cases congrFun h (Machine.start ⟨"", "", []⟩)

theorem overflow_ne_division :
    (Script.raise .integerOverflow : Script Value) ≠ Script.raise .integerDivisionByZero := by
  intro h
  injection congrFun h (Machine.start ⟨"", "", []⟩) with h
  injection h with h
  injection h with h
  injection h with h
  exact absurd h (by decide)

theorem floorDiv_by_zero_iff (x y : Int64) :
    Native.floorDiv.call [.integer x, .integer y] = Script.raise .integerDivisionByZero ↔
      y = 0 := by
  refine ⟨fun h => ?_, fun h => h ▸ rfl⟩
  by_contra hy
  have hexact := isExact_floorDiv x hy
  by_cases hfits : Fits (floorOf x y)
  · obtain ⟨w, -, hw⟩ := hexact.result (by simpa using hfits)
    exact pure_ne_raise _ _ (hw.symm.trans h)
  · exact overflow_ne_division ((hexact.overflow (by simpa using hfits)).symm.trans h)

theorem modulo_by_zero_iff (x y : Int64) :
    Native.modulo.call [.integer x, .integer y] = Script.raise .integerDivisionByZero ↔ y = 0 := by
  refine ⟨fun h => ?_, fun h => h ▸ rfl⟩
  by_contra hy
  obtain ⟨r, hr, -⟩ := call_modulo x hy
  exact pure_ne_raise _ _ (hr.symm.trans h)

/-! ### Magnitude -/

theorem compute_abs (v : Value) : Native.abs.compute? [v] = some (magnitude v) :=
  congrArg some (pure_bind v magnitude)

theorem isExact_abs (x : Int64) : IsExact .abs [x] [|x.toInt|] := by
  rw [Int.abs_eq_natAbs]
  exact (exactly_checked x.toInt.natAbs).isExact (compute_abs (.integer x))

theorem fits_abs (x : Int64) : Fits |x.toInt| ↔ x ≠ Int64.minValue := by
  have hbounds := toInt_bounds x
  have hmin : x = Int64.minValue ↔ x.toInt = -9223372036854775808 := by
    rw [← Int64.toInt_inj, Int64.toInt_minValue]
    norm_num
  rw [Int.abs_eq_natAbs, fits_iff, Ne, hmin]
  omega

end Native

open Integer Native

/-- Integers are computed exactly, or not at all.

Sums, differences and products are those from left to right, a difference of one number is the
number with the other sign, and there is none of no numbers. Division gives the quotient at the
floor and its rest; only the quotient of the least integer by -1 does not fit, and only division by
zero has no result. The magnitude fits but for the least integer. No step of a division by words
leaves the range. -/
theorem integers_exact :
    (∀ x xs, IsExact .add (x :: xs) (wayOf (· + ·) x xs)) ∧ IsExact .add [] [0] ∧
    (∀ x xs, IsExact .mul (x :: xs) (wayOf (· * ·) x xs)) ∧ IsExact .mul [] [1] ∧
    (∀ x y ys, IsExact .sub (x :: y :: ys) (wayOf (· - ·) x (y :: ys))) ∧
    (∀ x : Int64, IsExact .sub [x] [-x.toInt]) ∧
    Native.sub.call [] = Script.raise (.tooFew "-" 1 0) ∧
    (∀ x y : Int64,
      (Native.floorDiv.call [.integer x, .integer y] = Script.raise .integerDivisionByZero ↔
        y = 0) ∧
      (Native.modulo.call [.integer x, .integer y] = Script.raise .integerDivisionByZero ↔
        y = 0)) ∧
    (∀ x y : Int64, y ≠ 0 →
      IsExact .floorDiv [x, y] [floorOf x y] ∧
      (Fits (floorOf x y) ↔ ¬ (x = Int64.minValue ∧ y = -1)) ∧
      (∃ r : Int64, Native.modulo.call [.integer x, .integer y] = pure (.integer r) ∧
        x.toInt = y.toInt * floorOf x y + r.toInt ∧ IsRest y.toInt r.toInt) ∧
      DividesExactly x y) ∧
    (∀ x : Int64, IsExact .abs [x] [|x.toInt|] ∧ (Fits |x.toInt| ↔ x ≠ Int64.minValue)) ∧
    (Exception.ofCause .integerOverflow).name = "OverflowError" ∧
    (Exception.ofCause .integerDivisionByZero).name = "ZeroDivisionError" := by
  have none_way (w : Int64) : Exactly (.ok (.integer w)) [w.toInt] :=
    ⟨fun _ => ⟨w, rfl, rfl⟩, fun ⟨n, hn, hnot⟩ =>
      absurd (List.mem_singleton.mp hn ▸ fits_toInt w) hnot⟩
  refine ⟨fun x xs => ?_, (none_way 0).isExact rfl, fun x xs => ?_, (none_way 1).isExact rfl,
    fun x y ys => ?_, fun x => ?_, rfl,
    fun x y => ⟨floorDiv_by_zero_iff x y, modulo_by_zero_iff x y⟩,
    fun x y hy => ⟨isExact_floorDiv x hy, fits_floorOf x hy, call_modulo x hy, dividesExactly x hy⟩,
    fun x => ⟨isExact_abs x, fits_abs x⟩, by decide, by decide⟩
  · exact (exactly_foldlM (fun _ _ => rfl) x xs).isExact rfl
  · exact (exactly_foldlM (fun _ _ => rfl) x xs).isExact rfl
  · exact (exactly_foldlM (fun _ _ => rfl) x (y :: ys)).isExact rfl
  · exact (exactly_checked _).isExact rfl

namespace Integers

/-- The sum does not fit on the way although it fits at the end; the least integer divided by -1
has a rest, but no quotient; and a rest is on the side of the divisor. -/
theorem integers_exact_least :
    Native.add.call [.integer Int64.maxValue, .integer 1, .integer (-1)] =
        Script.raise .integerOverflow ∧
      Native.floorDiv.call [.integer Int64.minValue, .integer (-1)] =
        Script.raise .integerOverflow ∧
      (∃ r : Int64, Native.modulo.call [.integer 7, .integer (-2)] = pure (.integer r) ∧
        IsRest (-2) r.toInt) ∧
      DividesExactly Int64.minValue (-1) := by
  obtain ⟨hadd, -, -, -, -, -, -, -, hdivision, -⟩ := integers_exact
  obtain ⟨hquotient, hfits, -, hwords⟩ := hdivision Int64.minValue (-1) (by decide)
  obtain ⟨-, -, ⟨r, hr, -, hrest⟩, -⟩ := hdivision 7 (-2) (by decide)
  refine ⟨(hadd Int64.maxValue [1, -1]).overflow ⟨9223372036854775808, by decide, ?_⟩,
    hquotient.overflow ⟨_, List.mem_singleton.mpr rfl, ?_⟩, ⟨r, hr, hrest⟩, hwords⟩
  · rw [fits_iff]
    decide
  · rw [hfits]
    decide

end Integers
end Lispbox
