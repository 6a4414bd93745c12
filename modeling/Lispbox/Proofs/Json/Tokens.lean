import Lispbox.Json.Printer
import Lispbox.Json.Reader
import Lispbox.Proofs.Text.Numerals

/-!
# Strings and whole numbers in JSON texts

* `readQuoted_quote`: a quoted string is read up to its closing quote and no further.
* `readNumber_int`: a whole number is read if nothing follows that would belong to a number.
* `NumberText.value?_ofInt`: the text of a number within 64 bits has that number.
-/
namespace Lispbox.Json
open Lispbox.Text

/-! ## Strings -/

/-- The two digits of a control character. -/
theorem hex4?_control : ∀ n < 32, hex4? '0' '0' (hexDigit (n / 16)) (hexDigit n) = some n := by
  decide

theorem readQuoted_short {c d : Char} (h : shortEscape? c = some d) (q : Quoted)
    (cs : List Char) : readQuoted q ('\\' :: c :: cs) = readQuoted (q.push d) cs := by
  have hu : c ≠ 'u' := by
    rintro rfl
    cases h
  rw [readQuoted, h]
  rintro _ _ _ _ _ heq _
  exact hu heq

theorem readQuoted_unit {w x y z : Char} {n : Nat} (h : hex4? w x y z = some n) (q : Quoted)
    (cs : List Char) :
    readQuoted q ('\\' :: 'u' :: w :: x :: y :: z :: cs) = readQuoted (q.unit n) cs := by
  rw [readQuoted, h]

theorem readQuoted_plain {c : Char} (hquote : c ≠ '"') (hescape : c ≠ '\\')
    (hlow : ¬ c.toNat < 0x20) (q : Quoted) (cs : List Char) :
    readQuoted q (c :: cs) = readQuoted (q.push c) cs := by
  rw [readQuoted, if_neg (not_or.mpr ⟨hescape, hlow⟩)]
  · exact fun h => hquote h
  · rintro _ _ _ _ _ h _
    exact hescape h
  · rintro _ _ h _
    exact hescape h

theorem readQuoted_escapeChar (c : Char) (seen cs : List Char) :
    readQuoted ⟨seen, none, true⟩ (escapeChar c ++ cs) = readQuoted ⟨c :: seen, none, true⟩ cs := by
  unfold escapeChar
  split
  · subst_vars; exact readQuoted_short (c := '"') rfl _ cs
  split
  · subst_vars; exact readQuoted_short (c := '\\') rfl _ cs
  split
  · subst_vars; exact readQuoted_short (c := 'b') rfl _ cs
  split
  · subst_vars; exact readQuoted_short (c := 'f') rfl _ cs
  split
  · subst_vars; exact readQuoted_short (c := 'n') rfl _ cs
  split
  · subst_vars; exact readQuoted_short (c := 'r') rfl _ cs
  split
  · subst_vars; exact readQuoted_short (c := 't') rfl _ cs
  split
  · next hlow =>
    have hunit : Quoted.unit ⟨seen, none, true⟩ c.toNat = ⟨c :: seen, none, true⟩ := by
      rw [Quoted.unit, if_neg (by omega), if_neg (by omega), Char.ofNat_toNat]
      rfl
    exact hunit ▸ readQuoted_unit (hex4?_control c.toNat hlow) _ cs
  · exact readQuoted_plain ‹_› ‹_› ‹_› _ cs

/-- A quoted string is read from behind its opening quote. -/
theorem readQuoted_quote (s : String) (rest : List Char) :
    readQuoted ⟨[], none, true⟩ (s.toList.flatMap escapeChar ++ '"' :: rest) =
      some (some s, rest) := by
  have hall (cs seen : List Char) :
      readQuoted ⟨seen, none, true⟩ (cs.flatMap escapeChar ++ '"' :: rest) =
        some (some (String.ofList (seen.reverse ++ cs)), rest) := by
    induction cs generalizing seen with
    | nil => rw [List.append_nil]; rfl
    | cons c cs ih =>
      rw [List.flatMap_cons, List.append_assoc, readQuoted_escapeChar, ih, List.reverse_cons,
        List.append_assoc, List.singleton_append]
  rw [hall, List.reverse_nil, List.nil_append, String.ofList_toList]

theorem toList_quote (s : String) :
    (quote s).toList = '"' :: (s.toList.flatMap escapeChar ++ ['"']) := by
  simp [quote]

/-! ## Numbers -/

/-- The number ends here: nothing follows that would belong to it. -/
def Ends (cs : List Char) : Prop :=
  ∀ c ∈ cs.head?, c.isDigit = false ∧ c ≠ '.' ∧ c ≠ 'e' ∧ c ≠ 'E'

theorem takeDigits_of_lt {significand : Nat} {cs : List Char}
    (h : cs.foldl (fun n c => 10 * n + (c.toNat - '0'.toNat)) significand < word64) :
    takeDigits significand cs =
      (cs.foldl (fun n c => 10 * n + (c.toNat - '0'.toNat)) significand, []) := by
  induction cs generalizing significand with
  | nil => rfl
  | cons c cs ih =>
    have hle := le_foldl_digits cs (10 * significand + (c.toNat - '0'.toNat))
    rw [List.foldl_cons] at h
    rw [takeDigits, if_pos (Nat.lt_of_le_of_lt hle h), ih h, List.foldl_cons]

theorem takeDigits_toDigits {n : Nat} (h : n < word64) :
    takeDigits 0 (Nat.toDigits 10 n) = (n, []) := by
  have hvalue : (Nat.toDigits 10 n).foldl (fun n c => 10 * n + (c.toNat - '0'.toNat)) 0 = n :=
    digitsValue_toDigits n
  rw [takeDigits_of_lt (by rwa [hvalue]), hvalue]

/-- The text of a whole number. -/
def NumberText.ofInt (n : Int) : NumberText :=
  ⟨decide (n < 0), Nat.toDigits 10 n.natAbs, none, none⟩

theorem NumberText.value?_ofInt {n : Int} (hlow : -(word63 : Int) ≤ n) (hhigh : n < word64) :
    (NumberText.ofInt n).value? = some (.whole n) := by
  have hwide : word63 < word64 := by decide
  have hdigits : takeDigits 0 (Nat.toDigits 10 n.natAbs) = (n.natAbs, []) :=
    takeDigits_toDigits (by omega)
  rw [value?, ofInt, hdigits]
  dsimp only
  by_cases hn : n < 0
  · have hrange : (decide (0 < n.natAbs) && decide (n.natAbs ≤ word63)) = true := by
      rw [Bool.and_eq_true, decide_eq_true_iff, decide_eq_true_iff]
      omega
    have habs : -(n.natAbs : Int) = n := by omega
    simp only [List.isEmpty_nil, hn, decide_true, Bool.not_true, hrange, habs]
    rfl
  · have habs : (n.natAbs : Int) = n := Int.natAbs_of_nonneg (Int.not_lt.mp hn)
    simp only [List.isEmpty_nil, hn, decide_false, habs]
    rfl

/-- Only zero begins with the digit zero. -/
theorem toDigits_head {n : Nat} (hn : 0 < n) : (Nat.toDigits 10 n).head? ≠ some '0' := by
  induction n using Nat.strongRecOn with
  | ind n ih =>
    rw [Nat.toDigits_eq_if (by decide)]
    split
    · next hsmall =>
      have hdigit : ∀ m < 10, 0 < m → [Nat.digitChar m].head? ≠ some '0' := by decide
      exact hdigit n hsmall hn
    · next hlarge =>
      rw [List.head?_append, List.head?_eq_some_head Nat.toDigits_ne_nil, Option.some_or,
        ← List.head?_eq_some_head]
      exact ih (n / 10) (by omega) (by omega)

theorem not_leadingZero (n : Nat) :
    ¬ (1 < (Nat.toDigits 10 n).length ∧ (Nat.toDigits 10 n).head? = some '0') := by
  rintro ⟨hlength, hhead⟩
  rcases Nat.eq_zero_or_pos n with rfl | hn
  · exact absurd hlength (by decide)
  · exact toDigits_head hn hhead

theorem someDigits_toDigits (n : Nat) {rest : List Char} (h : Ends rest) :
    someDigits (Nat.toDigits 10 n ++ rest) = some (Nat.toDigits 10 n, rest) := by
  have hdigit : NoDigit rest := fun c hc => (h c hc).1
  rw [someDigits, takeWhile_toDigits n hdigit, dropWhile_toDigits n hdigit, toDigits_isEmpty]
  rfl

theorem readExponent_of_ends {rest : List Char} (h : Ends rest) :
    readExponent rest = some (none, rest) := by
  cases rest with
  | nil => rfl
  | cons c rest =>
    obtain ⟨-, -, hlower, hupper⟩ := h c rfl
    rw [readExponent, if_neg (not_or.mpr ⟨hlower, hupper⟩)]

/-- Digits behind an optional sign are a whole number. -/
theorem readNumber_digits (negative : Bool) (n : Nat) {rest : List Char} (h : Ends rest) :
    readNumber ((if negative then ['-'] else []) ++ (Nat.toDigits 10 n ++ rest)) =
      some (.number ⟨negative, Nat.toDigits 10 n, none, none⟩, rest) := by
  have hunsigned (cs : List Char) (hcs : Nat.toDigits 10 n ++ rest = '-' :: cs) : False :=
    minus_ne_toDigits n cs rest hcs.symm
  have hpoint (cs : List Char) (hcs : rest = '.' :: cs) : False :=
    (h '.' (by rw [hcs]; rfl)).2.1 rfl
  cases negative with
  | true =>
    rw [if_pos rfl, List.singleton_append, readNumber, someDigits_toDigits n h]
    simp only [Option.bind_eq_bind, Option.bind_some, if_neg (not_leadingZero n),
      readExponent_of_ends h]
    rfl
  | false =>
    rw [if_neg (by decide), List.nil_append, readNumber, someDigits_toDigits n h]
    · simp only [Option.bind_eq_bind, Option.bind_some, if_neg (not_leadingZero n),
        readExponent_of_ends h]
      rfl
    · exact hunsigned

theorem readNumber_int (n : Int) {rest : List Char} (h : Ends rest) :
    readNumber ((toString n).toList ++ rest) = some (.number (.ofInt n), rest) := by
  have hread := readNumber_digits (decide (n < 0)) n.natAbs h
  simp only [decide_eq_true_eq] at hread
  rw [toList_toString_int, List.append_assoc, hread, NumberText.ofInt]

end Lispbox.Json
