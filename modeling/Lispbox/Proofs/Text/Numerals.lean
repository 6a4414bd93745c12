import Lispbox.Proofs.Text.Runs
import Lispbox.Text.Digits

/-!
# Decimal numerals

The digits of a natural number, where other text follows them: a reader that takes digits as long as
there are any takes these, and they have the value of the number. A whole number is such digits
behind an optional minus.

* `takeWhile_toDigits`, `dropWhile_toDigits`: where the digits end.
* `digitsValue_toDigits`: their value.
* `toList_toString_int`: the text of a whole number.
* `toString_int_append_inj`: the number can be told from a text that begins with it.
-/
namespace Lispbox.Text

variable {rest : List Char}

/-- No digit follows. -/
def NoDigit (cs : List Char) : Prop := ∀ c ∈ cs.head?, c.isDigit = false

theorem isDigit_of_mem_toDigits {n : Nat} {c : Char} (h : c ∈ Nat.toDigits 10 n) :
    c.isDigit = true :=
  Nat.isDigit_of_mem_toDigits (by decide) (by decide) h

theorem isDigits_of_all {ds : List Char} (hne : ds ≠ []) (h : ∀ c ∈ ds, c.isDigit = true) :
    isDigits ds = true := by
  rw [isDigits, List.isEmpty_eq_false_iff.mpr hne, List.all_eq_true.mpr h]
  rfl

theorem lineFeed_not_mem_toDigits (n : Nat) : '\n' ∉ Nat.toDigits 10 n := fun h =>
  absurd (isDigit_of_mem_toDigits h) (by decide)

theorem digitsValue_toDigits (n : Nat) : digitsValue (Nat.toDigits 10 n) = n :=
  Nat.ofDigitChars_toDigits (by decide) (by decide)

theorem takeWhile_toDigits (n : Nat) (h : NoDigit rest) :
    (Nat.toDigits 10 n ++ rest).takeWhile Char.isDigit = Nat.toDigits 10 n :=
  takeWhile_run (fun _ => isDigit_of_mem_toDigits) h

theorem dropWhile_toDigits (n : Nat) (h : NoDigit rest) :
    (Nat.toDigits 10 n ++ rest).dropWhile Char.isDigit = rest :=
  dropWhile_run (fun _ => isDigit_of_mem_toDigits) h

theorem toDigits_isEmpty (n : Nat) : (Nat.toDigits 10 n).isEmpty = false :=
  List.isEmpty_eq_false_iff.mpr Nat.toDigits_ne_nil

theorem toDigits_first (n : Nat) : ∃ c cs, Nat.toDigits 10 n = c :: cs ∧ c.isDigit = true := by
  obtain ⟨c, cs, hdigits⟩ := List.exists_cons_of_ne_nil (Nat.toDigits_ne_nil (n := n) (b := 10))
  exact ⟨c, cs, hdigits, isDigit_of_mem_toDigits (n := n) (by simp [hdigits])⟩

/-- A numeral and what follows it can be told from the text of both: the numeral ends where no digit
follows. -/
theorem toDigits_append_inj {m n : Nat} {r s : List Char} (hr : NoDigit r) (hs : NoDigit s)
    (h : Nat.toDigits 10 m ++ r = Nat.toDigits 10 n ++ s) : m = n ∧ r = s := by
  obtain ⟨hdigits, hrest⟩ := run_unique h (fun _ => isDigit_of_mem_toDigits) hr
    (fun _ => isDigit_of_mem_toDigits) hs
  have hvalue := congrArg digitsValue hdigits
  rw [digitsValue_toDigits, digitsValue_toDigits] at hvalue
  exact ⟨hvalue, hrest⟩

theorem minus_ne_toDigits (n : Nat) (r s : List Char) : '-' :: r ≠ Nat.toDigits 10 n ++ s := by
  obtain ⟨c, cs, hdigits, hc⟩ := toDigits_first n
  rw [hdigits]
  rintro ⟨⟩
  exact absurd hc (by decide)

/-! ## Whole numbers -/

theorem toList_toString_int (n : Int) :
    (toString n).toList = (if n < 0 then ['-'] else []) ++ Nat.toDigits 10 n.natAbs := by
  cases n with
  | ofNat n =>
    have htext : toString (Int.ofNat n) = toString n := rfl
    have hsign : ¬ Int.ofNat n < 0 := by simp
    rw [htext, if_neg hsign]
    simp
  | negSucc n =>
    have htext : toString (Int.negSucc n) = "-" ++ toString (n + 1) := rfl
    rw [htext, if_pos (Int.negSucc_lt_zero n)]
    simp

/-- The first character of a whole number. -/
theorem toString_int_first (n : Int) :
    ∃ c cs, (toString n).toList = c :: cs ∧ (c = '-' ∨ c.isDigit = true) := by
  obtain ⟨c, cs, hdigits, hc⟩ := toDigits_first n.natAbs
  rw [toList_toString_int]
  split
  · exact ⟨_, _, rfl, .inl rfl⟩
  · exact ⟨c, cs, hdigits, .inr hc⟩

/-- A whole number and what follows it can be told from the text of both. -/
theorem toString_int_append_inj {m n : Int} {r s : List Char} (hr : NoDigit r) (hs : NoDigit s)
    (h : (toString m).toList ++ r = (toString n).toList ++ s) : m = n ∧ r = s := by
  rw [toList_toString_int, toList_toString_int, List.append_assoc, List.append_assoc] at h
  by_cases hm : m < 0 <;> by_cases hn : n < 0
  · rw [if_pos hm, if_pos hn] at h
    obtain ⟨habs, hrest⟩ := toDigits_append_inj hr hs (List.cons.inj h).2
    exact ⟨by omega, hrest⟩
  · rw [if_pos hm, if_neg hn] at h
    exact absurd h (minus_ne_toDigits _ _ _)
  · rw [if_neg hm, if_pos hn] at h
    exact absurd h.symm (minus_ne_toDigits _ _ _)
  · rw [if_neg hm, if_neg hn] at h
    obtain ⟨habs, hrest⟩ := toDigits_append_inj hr hs h
    exact ⟨by omega, hrest⟩

end Lispbox.Text
