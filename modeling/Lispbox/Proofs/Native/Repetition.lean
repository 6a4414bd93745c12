import Lispbox.Native.Call

/-!
# Copies of a sequence

Multiplication by an integer copies a text or a list. How often is checked beforehand, through the
length of all copies together (`Sequence.repeatedLength`); then the copies are put behind each
other, one in each round (`appendCopies`), and no round asks the host for anything.

The check bounds the rounds by `Sequence.maxLength` if there is something to copy. Copies of an
empty sequence have no length, however many there are, and the rounds are not bounded.

* `repeatList_eq_appendCopies`, `repeatText_eq_copyText`: copies are made in rounds.
* `copies_bounded`: what is copied, how often, and what is refused.
-/
namespace Lispbox

open Sequence (maxLength repeatedLength repeatList repeatText copyText)

namespace Copies

/-- Puts copies of the items behind what is there, one in each round. -/
def appendCopies {α : Type} (items : List α) : Nat → List α → List α
  | 0, before => before
  | n + 1, before => appendCopies items n (before ++ items)

theorem appendCopies_eq {α : Type} (items : List α) (times : Nat) (before : List α) :
    appendCopies items times before = before ++ (List.replicate times items).flatten := by
  induction times generalizing before with
  | zero => simp [appendCopies]
  | succ times ih => simp [appendCopies, ih, List.replicate_succ]

theorem repeatList_eq_appendCopies {α : Type} (items : List α) (times : Nat) :
    repeatList items times = appendCopies items times [] := by
  rw [appendCopies_eq, List.nil_append, repeatList]
  cases items with
  | nil => simp
  | cons x xs => rfl

theorem copyText_empty (times : Nat) (before : String) : copyText "" times before = before := by
  induction times generalizing before with
  | zero => rfl
  | succ times ih => rw [copyText, ih, String.append_empty]

theorem repeatText_eq_copyText (s : String) (times : Nat) :
    repeatText s times = copyText s times "" := by
  rw [repeatText]
  split
  · next h => rw [String.isEmpty_iff.mp h, copyText_empty]
  · rfl

/-! ## The check -/

/-- How often a sequence is copied if it is multiplied by the integer. -/
def timesOf (n : Int64) : Nat := n.toInt.toNat

theorem timesOf_eq (n : Int64) : (timesOf n : Int) = max n.toInt 0 := by
  unfold timesOf
  omega

theorem repeatedLength_of_le {length : Nat} {n : Int64} (h : length * timesOf n ≤ maxLength) :
    repeatedLength length n = .ok (timesOf n, length * timesOf n) := if_pos h

theorem repeatedLength_of_lt {length : Nat} {n : Int64} (h : maxLength < length * timesOf n) :
    repeatedLength length n = .error .repetitionTooLong := if_neg (Nat.not_le.mpr h)

/-- The copies together are not too long, and there are not too many rounds unless the sequence is
empty. -/
structure IsWithin (length : Nat) (n : Int64) (times total : Nat) : Prop where
  total_le : total ≤ maxLength
  total_eq : (total : Int) = length * max n.toInt 0
  times_eq : (times : Int) = max n.toInt 0
  times_le : 0 < length → times ≤ maxLength

theorem isWithin_of_ok {length times total : Nat} {n : Int64}
    (h : repeatedLength length n = .ok (times, total)) : IsWithin length n times total := by
  rcases Nat.lt_or_ge maxLength (length * timesOf n) with hlt | hle
  · rw [repeatedLength_of_lt hlt] at h
    cases h
  · rw [repeatedLength_of_le hle] at h
    cases h
    exact ⟨hle, by rw [Int.natCast_mul, timesOf_eq], timesOf_eq n,
      fun hpos => Nat.le_trans (Nat.le_mul_of_pos_left _ hpos) hle⟩

/-- The result is made in as many rounds as the check allows for, or the check refuses because the
copies together would be too long. -/
structure IsCopied (length : Nat) (n : Int64) (rounds : Nat → Value) (r : Except Cause Value) :
    Prop where
  copied : length * max n.toInt 0 ≤ maxLength →
    ∃ times total, repeatedLength length n = .ok (times, total) ∧ r = .ok (rounds times)
  refused : maxLength < length * max n.toInt 0 → r = .error .repetitionTooLong

theorem isCopied_of_check {length : Nat} {n : Int64} {rounds : Nat → Value}
    {r : Except Cause Value}
    (hok : ∀ times total, repeatedLength length n = .ok (times, total) → r = .ok (rounds times))
    (herror : ∀ c, repeatedLength length n = .error c → r = .error c) :
    IsCopied length n rounds r where
  copied h := by
    rw [← timesOf_eq] at h
    have hcheck := repeatedLength_of_le (by exact_mod_cast h)
    exact ⟨_, _, hcheck, hok _ _ hcheck⟩
  refused h := by
    rw [← timesOf_eq] at h
    exact herror _ (repeatedLength_of_lt (by exact_mod_cast h))

theorem isCopied_list (items : List Value) (n : Int64) :
    IsCopied items.length n (fun times => .list (appendCopies items times []))
      (Native.repeatedList items n) := by
  refine isCopied_of_check (fun times total h => ?_) fun c h => ?_ <;>
    rw [Native.repeatedList, h]
  · rw [← repeatList_eq_appendCopies]
    rfl
  · rfl

theorem isCopied_text (s : String) (n : Int64) :
    IsCopied s.utf8ByteSize n (fun times => .text (copyText s times ""))
      (Native.repeatedText s n) := by
  refine isCopied_of_check (fun times total h => ?_) fun c h => ?_ <;>
    rw [Native.repeatedText, h]
  · rw [← repeatText_eq_copyText]
    rfl
  · rfl

end Copies

open Copies

/-- Multiplication of a sequence by an integer copies it in rounds, and the copies are checked
before that: together they are not longer than sequences are built, and unless there is nothing to
copy there are no more rounds than that. Each further factor is another such multiplication. -/
theorem copies_bounded (length : Nat) (n : Int64) :
    (∀ times total : Nat,
      repeatedLength length n = .ok (times, total) → IsWithin length n times total) ∧
    (∀ (items : List Value) (r : Except Cause Value), items.length = length →
      r = Native.mulValues (.list items) (.integer n) ∨
        r = Native.mulValues (.integer n) (.list items) →
      IsCopied length n (fun times => .list (appendCopies items times [])) r) ∧
    (∀ (s : String) (r : Except Cause Value), s.utf8ByteSize = length →
      r = Native.mulValues (.text s) (.integer n) ∨ r = Native.mulValues (.integer n) (.text s) →
      IsCopied length n (fun times => .text (copyText s times "")) r) ∧
    (∀ (v : Value) (vs : List Value),
      Native.mul.call (v :: vs) = Script.ofCause (vs.foldlM Native.mulValues v)) ∧
    (Exception.ofCause .repetitionTooLong).name = "OverflowError" := by
  refine ⟨fun _ _ h => isWithin_of_ok h, fun items r hlength h => ?_, fun s r hlength h => ?_,
    fun v vs => Native.call_of_compute rfl, by decide⟩
  · subst hlength
    rcases h with rfl | rfl <;> exact isCopied_list items n
  · subst hlength
    rcases h with rfl | rfl <;> exact isCopied_text s n

namespace Copies

/-- Five million copies of two items are just not too many. -/
theorem copies_bounded_pair :
    repeatedLength 2 5000000 = .ok (5000000, 10000000) ∧ IsWithin 2 5000000 5000000 10000000 ∧
      Native.mulValues (.integer 5000000) (.list [.nil, .nil]) =
        .ok (.list (appendCopies [.nil, .nil] 5000000 [])) := by
  obtain ⟨hwithin, hlist, -⟩ := copies_bounded 2 5000000
  have hok : repeatedLength 2 5000000 = .ok (5000000, 10000000) := rfl
  obtain ⟨times, total, hcheck, hcopied⟩ :=
    (hlist [.nil, .nil] _ rfl (.inr rfl)).copied (by decide)
  cases hok.symm.trans hcheck
  exact ⟨hok, hwithin _ _ hok, hcopied⟩

/-- There is nothing to copy, and the rounds are not bounded. -/
theorem rounds_of_empty :
    repeatedLength 0 10000001 = .ok (10000001, 0) ∧ maxLength < 10000001 ∧
      Native.mul.call [.list [], .integer 10000001] =
        pure (.list (appendCopies [] 10000001 [])) := by
  refine ⟨rfl, by decide, ?_⟩
  rw [← repeatList_eq_appendCopies]
  rfl

end Copies
end Lispbox
