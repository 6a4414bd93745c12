import Lispbox.Proofs.Native.Integers

/-!
# The members of a range

A range has the members of an arithmetic progression that come before the stop in the direction of
the step (`Ranges.IsBefore`). The distance from the start to the stop is kept within 64 bits, so a
range never sees a stop that is further away than `Ranges.farthest`: its members are those before
`Ranges.reach`, and with a stop beyond some of them are lost. Nothing else on the way to the members
leaves the range of 64 bits (`Ranges.StaysWithin`).

* `lt_steps_iff`: how many multiples of a step are less than a distance.
* `hasMembers_rangeCount`: the number of members that a range is given.
* `range_exact`: the members of a range, or why there are none.
-/
namespace Lispbox

open Integer (Fits fits_iff toInt_bounds toInt_ne_zero)
open Sequence (maxLength clamp rangeCount progression rangeItems)

namespace Ranges

/-- The greatest distance between a start and a stop that a range can tell from a greater one. -/
def farthest : Int := 9223372036854775807

/-- The number comes before the stop, in the direction of the step. -/
def IsBefore (stop step n : Int) : Prop := if 0 < step then n < stop else stop < n

/-- The first `count` numbers of the progression come before the stop, and no others. -/
def HasMembers (start stop step : Int) (count : Nat) : Prop :=
  ∀ i : Nat, i < count ↔ IsBefore stop step (start + i * step)

/-- The first numbers of an arithmetic progression. -/
def members (start step : Int) (count : Nat) : List Int :=
  (List.range count).map fun i : Nat => start + i * step

/-- The way from the start to the stop, in the direction of the step. -/
def distance (start stop step : Int) : Int := if 0 < step then stop - start else start - stop

/-- The stop, or the number at the greatest distance from the start if the stop is beyond. -/
def reach (start stop step : Int) : Int :=
  if 0 < step then min stop (start + farthest) else max stop (start - farthest)

/-! ## Counting -/

/-- How many multiples of the step, from zero on, are less than the distance. -/
def steps (distance step : Int) : Nat :=
  if distance ≤ 0 then 0 else ((distance - 1) / step + 1).toNat

theorem lt_steps_iff {d a : Int} (ha : 0 < a) (i : Nat) : i < steps d a ↔ i * a < d := by
  have hpos : 0 ≤ i * a := Int.mul_nonneg (by omega) (by omega)
  unfold steps
  split
  · omega
  · have hdiv : (i : Int) ≤ (d - 1) / a ↔ i * a ≤ d - 1 := Int.le_ediv_iff_mul_le ha
    omega

theorem steps_le {d a : Int} (hd : d ≤ farthest) : steps d a ≤ farthest := by
  unfold steps
  split
  · decide
  · have hquotient := Int.ediv_le_self a (show 0 ≤ d - 1 by omega)
    unfold farthest at *
    omega

theorem steps_of_nonpos {d : Int} (h : d ≤ 0) (a : Int) : steps d a = 0 := if_pos h

/-- A step that covers every distance there is may as well be shorter by one. -/
theorem steps_clamp {d a : Int} (hd : d ≤ farthest) (ha : 0 < a) (hle : a ≤ farthest + 1) :
    steps d (clamp a) = steps d a := by
  unfold farthest at hd hle
  unfold clamp
  by_cases h : a = 9223372036854775808
  · unfold steps
    split
    · rfl
    · rw [Int.ediv_eq_zero_of_lt (by omega) (by omega),
        Int.ediv_eq_zero_of_lt (by omega) (by omega)]
  · congr 1
    omega

theorem isBefore_iff {step : Int} (hstep : step ≠ 0) (start stop : Int) (i : Nat) :
    IsBefore stop step (start + i * step) ↔ i * |step| < distance start stop step := by
  unfold IsBefore distance
  rcases Int.lt_or_gt_of_ne hstep with hneg | hpos
  · rw [abs_of_neg hneg, if_neg (by omega), if_neg (by omega), Int.mul_neg]
    omega
  · rw [abs_of_pos hpos, if_pos hpos, if_pos hpos]
    omega

theorem hasMembers_steps {step : Int} (hstep : step ≠ 0) (start stop : Int) :
    HasMembers start stop step (steps (distance start stop step) |step|) := fun i => by
  rw [isBefore_iff hstep, lt_steps_iff (abs_pos.mpr hstep)]

theorem HasMembers.unique {start stop step : Int} {m n : Nat} (hm : HasMembers start stop step m)
    (hn : HasMembers start stop step n) : m = n := by
  have hlow := (hm n).trans (hn n).symm
  have hhigh := (hm m).trans (hn m).symm
  omega

theorem distance_reach (start stop step : Int) :
    distance start (reach start stop step) step = min (distance start stop step) farthest := by
  unfold distance reach
  split <;> omega

theorem reach_eq {start stop step : Int} (h : distance start stop step ≤ farthest) :
    reach start stop step = stop := by
  unfold distance at h
  unfold reach
  split <;> simp_all <;> omega

/-- What comes before the number that is reached comes before the stop. -/
theorem isBefore_of_reach {start stop step n : Int} (h : IsBefore (reach start stop step) step n) :
    IsBefore stop step n := by
  unfold IsBefore reach at *
  split_ifs at * <;> omega

theorem le_of_reach {start stop step : Int} {count kept : Nat}
    (hcount : HasMembers start stop step count)
    (hkept : HasMembers start (reach start stop step) step kept) : kept ≤ count := by
  by_contra hlt
  have hbefore := isBefore_of_reach ((hkept count).mp (by omega))
  have hmember := (hcount count).mpr hbefore
  omega

/-- The span that the members are counted from. -/
def span (start stop step : Int64) : Int := clamp (distance start.toInt stop.toInt step.toInt)

theorem span_bounds (start stop step : Int64) :
    -9223372036854775808 ≤ span start stop step ∧ span start stop step ≤ farthest := by
  unfold span clamp farthest
  omega

theorem rangeCount_eq (start stop step : Int64) :
    rangeCount start stop step = steps (span start stop step) (clamp step.toInt.natAbs) := by
  unfold rangeCount steps span distance
  split <;> rfl

theorem abs_le (step : Int64) : |step.toInt| ≤ farthest + 1 := by
  have hbounds := toInt_bounds step
  rw [Int.abs_eq_natAbs]
  unfold farthest
  omega

theorem rangeCount_eq_steps (start stop : Int64) {step : Int64} (hstep : step ≠ 0) :
    rangeCount start stop step = steps (span start stop step) |step.toInt| := by
  rw [rangeCount_eq, ← Int.abs_eq_natAbs]
  exact steps_clamp (span_bounds start stop step).2 (abs_pos.mpr (toInt_ne_zero hstep))
    (abs_le step)

theorem hasMembers_rangeCount (start stop : Int64) {step : Int64} (hstep : step ≠ 0) :
    HasMembers start.toInt (reach start.toInt stop.toInt step.toInt) step.toInt
      (rangeCount start stop step) := by
  have hexact := hasMembers_steps (toInt_ne_zero hstep) start.toInt
    (reach start.toInt stop.toInt step.toInt)
  rw [distance_reach] at hexact
  rw [rangeCount_eq_steps start stop hstep, span, clamp]
  by_cases hpos : distance start.toInt stop.toInt step.toInt ≤ 0
  · rw [steps_of_nonpos (by omega)] at hexact
    rwa [steps_of_nonpos (by omega)]
  · convert hexact using 2
    unfold farthest
    omega

/-! ## Members -/

/-- By induction on the number of members, from the last one on. -/
theorem progression_eq (start step : Int) (count : Nat) (after : List Int64) :
    progression start step count after =
      (List.range count).map (fun i : Nat => Int64.ofInt (start + i * step)) ++ after := by
  induction count generalizing after with
  | zero => rfl
  | succ count ih => simp [progression, ih, List.range_succ]

/-- Nothing on the way to the members of a range leaves the range of 64 bits. -/
structure StaysWithin (start stop step : Int64) (count : Nat) : Prop where
  kept : Fits (span start stop step)
  last : 0 < span start stop step → Fits (span start stop step - 1)
  quotient : 0 < span start stop step →
    Fits ((span start stop step - 1) / clamp step.toInt.natAbs)
  size : Fits count
  offset : ∀ i : Nat, i < count → Fits (i * step.toInt)
  member : ∀ i : Nat, i < count → Fits (start.toInt + i * step.toInt)

theorem member_bounds {start stop step : Int64} {i : Nat}
    (h : IsBefore (reach start.toInt stop.toInt step.toInt) step.toInt
      (start.toInt + i * step.toInt)) :
    Fits (i * step.toInt) ∧ Fits (start.toInt + i * step.toInt) := by
  have hstart := toInt_bounds start
  have hstop := toInt_bounds stop
  unfold IsBefore reach farthest at h
  rw [fits_iff, fits_iff]
  split at h
  · have hpos : 0 ≤ i * step.toInt := Int.mul_nonneg (by omega) (by omega)
    omega
  · have hneg : i * step.toInt ≤ 0 := Int.mul_nonpos_of_nonneg_of_nonpos (by omega) (by omega)
    omega

theorem staysWithin (start stop : Int64) {step : Int64} (hstep : step ≠ 0) :
    StaysWithin start stop step (rangeCount start stop step) := by
  obtain ⟨hlow, hhigh⟩ := span_bounds start stop step
  have hmembers := hasMembers_rangeCount start stop hstep
  have hcount : rangeCount start stop step ≤ farthest :=
    rangeCount_eq_steps start stop hstep ▸ steps_le hhigh
  unfold farthest at hhigh hcount
  refine ⟨fits_iff.mpr (by omega), fun hpos => fits_iff.mpr (by omega), fun hpos => ?_,
    fits_iff.mpr (by omega), fun i hi => (member_bounds ((hmembers i).mp hi)).1,
    fun i hi => (member_bounds ((hmembers i).mp hi)).2⟩
  have hclamp : 0 ≤ clamp step.toInt.natAbs := by
    unfold clamp
    omega
  have hquotient := Int.ediv_le_self (clamp step.toInt.natAbs)
    (show 0 ≤ span start stop step - 1 by omega)
  have hnonneg := Int.ediv_nonneg (show 0 ≤ span start stop step - 1 by omega) hclamp
  exact fits_iff.mpr (by omega)

theorem call_range (start stop step : Int64) :
    Native.range.call [.integer start, .integer stop, .integer step] =
      Script.ofCause
        ((rangeItems start stop step).map fun items => .list (items.map .integer)) := by
  refine Native.call_of_compute (n := .range) ?_
  change some (rangeItems start stop step >>= fun items =>
    Except.ok (Value.list (items.map .integer))) = _
  cases rangeItems start stop step <;> rfl

theorem call_of_items {start stop step : Int64} {items : List Int64}
    (h : rangeItems start stop step = .ok items) :
    Native.range.call [.integer start, .integer stop, .integer step] =
      pure (.list (items.map .integer)) := by
  rw [call_range, h]
  rfl

theorem call_of_cause {start stop step : Int64} {c : Cause}
    (h : rangeItems start stop step = .error c) :
    Native.range.call [.integer start, .integer stop, .integer step] = Script.raise c := by
  rw [call_range, h]
  rfl

theorem range_of_le {start stop step : Int64} (hstep : step ≠ 0)
    (hle : rangeCount start stop step ≤ maxLength) :
    ∃ items : List Int64,
      items.map Int64.toInt = members start.toInt step.toInt (rangeCount start stop step) ∧
      Native.range.call [.integer start, .integer stop, .integer step] =
        pure (.list (items.map .integer)) := by
  refine ⟨progression start.toInt step.toInt (rangeCount start stop step) [], ?_,
    call_of_items ?_⟩
  · rw [progression_eq, List.append_nil, List.map_map]
    refine List.map_congr_left fun i hi => ?_
    have hfits := (staysWithin start stop hstep).member i (List.mem_range.mp hi)
    rw [fits_iff] at hfits
    exact Int64.toInt_ofInt_of_le hfits.1 hfits.2
  · rw [rangeItems, if_neg hstep]
    exact if_neg (by omega)

theorem range_of_lt {start stop step : Int64} (hstep : step ≠ 0)
    (hlt : maxLength < rangeCount start stop step) :
    Native.range.call [.integer start, .integer stop, .integer step] =
      Script.raise .rangeTooLarge := by
  refine call_of_cause ?_
  rw [rangeItems, if_neg hstep]
  exact if_pos hlt

end Ranges

open Ranges

/-- A range is the list of the numbers of the progression that come before the stop, if these are no
more than a list is built of, and otherwise there is none.

The stop counts only up to the greatest distance: of the `count` numbers before it the first `kept`
are before the number that is reached, all of them if the distance fits in 64 bits. -/
theorem range_exact (start stop step : Int64) (hstep : step ≠ 0) :
    ∃ count kept : Nat,
      HasMembers start.toInt stop.toInt step.toInt count ∧
      HasMembers start.toInt (reach start.toInt stop.toInt step.toInt) step.toInt kept ∧
      kept ≤ count ∧
      (distance start.toInt stop.toInt step.toInt ≤ farthest → kept = count) ∧
      (kept ≤ maxLength → ∃ items : List Int64,
        items.map Int64.toInt = members start.toInt step.toInt kept ∧
        Native.range.call [.integer start, .integer stop, .integer step] =
          pure (.list (items.map .integer))) ∧
      (maxLength < kept →
        Native.range.call [.integer start, .integer stop, .integer step] =
          Script.raise .rangeTooLarge) ∧
      StaysWithin start stop step kept ∧
      (Exception.ofCause .rangeTooLarge).name = "ValueError" := by
  have hcount := hasMembers_steps (toInt_ne_zero hstep) start.toInt stop.toInt
  have hkept := hasMembers_rangeCount start stop hstep
  refine ⟨_, _, hcount, hkept, le_of_reach hcount hkept, fun hnear => ?_, range_of_le hstep,
    range_of_lt hstep, staysWithin start stop hstep, by decide⟩
  rw [reach_eq hnear] at hkept
  exact hkept.unique hcount

namespace Ranges

theorem hasMembers_down :
    HasMembers Int64.maxValue.toInt 0 (-4611686018427387904) 2 := fun i => by
  unfold IsBefore
  rw [if_neg (by decide), Int64.toInt_maxValue]
  omega

/-- From the greatest integer down to zero, which is as far away as a range can tell. -/
theorem range_exact_down :
    (-4611686018427387904 : Int64) ≠ 0 ∧ ∃ items : List Int64,
      items.map Int64.toInt = [9223372036854775807, 4611686018427387903] ∧
      Native.range.call [.integer Int64.maxValue, .integer 0, .integer (-4611686018427387904)] =
        pure (.list (items.map .integer)) := by
  obtain ⟨count, kept, hcount, -, -, hnear, hitems, -⟩ :=
    range_exact Int64.maxValue 0 (-4611686018427387904) (by decide)
  obtain rfl : count = 2 := hcount.unique hasMembers_down
  obtain rfl : kept = 2 := hnear (by decide)
  exact ⟨by decide, hitems (by decide)⟩

/-- Zero is the third member of a range that is told to stop after it, but the stop is too far
away. -/
theorem members_lost :
    HasMembers Int64.minValue.toInt 1 4611686018427387904 3 ∧ 3 ≤ maxLength ∧
      Native.range.call [.integer Int64.minValue, .integer 1, .integer 4611686018427387904] =
        pure (.list [.integer Int64.minValue, .integer (-4611686018427387904)]) := by
  refine ⟨fun i => ?_, by decide, ?_⟩
  · unfold IsBefore
    rw [if_pos (by decide), Int64.toInt_minValue]
    omega
  · rw [call_range]
    rfl

end Ranges
end Lispbox
