import Lispbox.Form.Token
import Lispbox.Proofs.Text.Runs

/-!
# How words are spelled

`Atom.Spelled` says which words stand for which atom, one case for each kind of word. Symbols are
what is left: they are none of the others, and a number that is out of range is no symbol either.

* `Atom.ofWord_eq_ok_iff`: the scanner takes a word for an atom exactly if the atom is spelled so.
* `Decimal.ofText_pointed`: the value of a number with a point is what its text stands for.
-/
namespace Lispbox
open Lispbox.Text (cappedValue digitsValue isDigits splitSign)

/-- What may stand in front of the digits of a number. -/
inductive Sign where
  | none
  | plus
  | minus
  deriving DecidableEq, Repr

namespace Sign

/-- The sign as it is written. -/
def chars : Sign → List Char
  | .none => []
  | .plus => ['+']
  | .minus => ['-']

/-- The number behind the sign is negative. -/
def isMinus : Sign → Bool
  | .minus => true
  | _ => false

end Sign

/-- An optional sign and digits. -/
def IsWhole (word : List Char) : Prop :=
  ∃ (sign : Sign) (digits : List Char), word = sign.chars ++ digits ∧ isDigits digits = true

/-- An optional sign, digits, a point and digits. -/
def IsPointed (word : List Char) : Prop :=
  ∃ (sign : Sign) (whole fraction : List Char), word = sign.chars ++ (whole ++ '.' :: fraction) ∧
    isDigits whole = true ∧ isDigits fraction = true

/-- The words that stand for a value of their own. -/
def reservedWords : List (List Char) := ["true".toList, "false".toList, "nil".toList]

/-- The atom is spelled as the given word. -/
inductive Atom.Spelled : List Char → Atom → Prop where
  | keyword {name : List Char} : name ≠ [] → Spelled (':' :: name) (.keyword (String.ofList name))
  | integer (sign : Sign) {digits : List Char} {n : Int64} : isDigits digits = true →
      n.toInt = Integer.signed sign.isMinus (digitsValue digits) →
      Spelled (sign.chars ++ digits) (.integer n)
  | float {word : List Char} {x : Float} : IsPointed word →
      Decimal.ofText (String.ofList word) = some x → Spelled word (.float x)
  | yes : Spelled "true".toList (.boolean true)
  | no : Spelled "false".toList (.boolean false)
  | nil : Spelled "nil".toList .nil
  | symbol {word : List Char} : word.head? ≠ some ':' → ¬ IsWhole word → ¬ IsPointed word →
      word ∉ reservedWords → Spelled word (.symbol (String.ofList word))

/-! ## Numbers -/

theorem digits_head {ds : List Char} (h : isDigits ds = true) :
    ∃ c cs, ds = c :: cs ∧ c.isDigit = true := by
  cases ds with
  | nil => cases h
  | cons c cs =>
    simp only [isDigits, List.isEmpty_cons, Bool.not_false, Bool.true_and, List.all_cons,
      Bool.and_eq_true] at h
    exact ⟨c, cs, rfl, h.1⟩

theorem digits_all {ds : List Char} (h : isDigits ds = true) : ∀ c ∈ ds, c.isDigit = true := by
  simp only [isDigits, Bool.and_eq_true, List.all_eq_true] at h
  exact h.2

theorem splitSign_of_digit (sign : Sign) {c : Char} (cs : List Char) (hc : c.isDigit = true) :
    splitSign (sign.chars ++ c :: cs) = (sign.isMinus, c :: cs) := by
  cases sign with
  | none =>
    simp only [Sign.chars, List.nil_append, splitSign]
    split
    · next h => cases h; cases hc
    · next h => cases h; cases hc
    · rfl
  | plus => rfl
  | minus => rfl

theorem exists_sign (word : List Char) :
    ∃ sign : Sign, word = sign.chars ++ (splitSign word).2 ∧ sign.isMinus = (splitSign word).1 := by
  unfold splitSign
  split
  · exact ⟨.minus, rfl, rfl⟩
  · exact ⟨.plus, rfl, rfl⟩
  · exact ⟨.none, rfl, rfl⟩

theorem ofSigned?_signed (sign : Sign) {ds : List Char} (h : isDigits ds = true) :
    Integer.ofSigned? (sign.chars ++ ds) =
      some (Integer.signed sign.isMinus (cappedValue word64 ds)) := by
  obtain ⟨c, cs, rfl, hc⟩ := digits_head h
  unfold Integer.ofSigned?
  rw [splitSign_of_digit sign cs hc]
  dsimp only
  rw [if_pos h]

theorem ofSigned?_eq_some {word : List Char} {n : Int} (h : Integer.ofSigned? word = some n) :
    ∃ (sign : Sign) (ds : List Char), word = sign.chars ++ ds ∧ isDigits ds = true ∧
      n = Integer.signed sign.isMinus (cappedValue word64 ds) := by
  obtain ⟨sign, hword, hminus⟩ := exists_sign word
  unfold Integer.ofSigned? at h
  dsimp only at h
  split at h
  · next hds =>
    cases h
    exact ⟨sign, _, hword, hds, by rw [hminus]⟩
  · cases h

theorem ofSigned?_eq_none {word : List Char} (h : ¬ IsWhole word) :
    Integer.ofSigned? word = none := by
  cases hn : Integer.ofSigned? word with
  | none => rfl
  | some n =>
    obtain ⟨sign, ds, hword, hds, -⟩ := ofSigned?_eq_some hn
    exact absurd ⟨sign, ds, hword, hds⟩ h

/-- Up to the first character that is no digit, a run of digits is what it is. -/
theorem takeWhile_digits {ds : List Char} (rest : List Char) (hds : isDigits ds = true)
    (hrest : ∀ c ∈ rest.head?, c.isDigit = false) : (ds ++ rest).takeWhile Char.isDigit = ds :=
  Text.takeWhile_run (digits_all hds) hrest

theorem dropWhile_digits {ds : List Char} (rest : List Char) (hds : isDigits ds = true)
    (hrest : ∀ c ∈ rest.head?, c.isDigit = false) : (ds ++ rest).dropWhile Char.isDigit = rest :=
  Text.dropWhile_run (digits_all hds) hrest

theorem point_not_digit (fraction : List Char) :
    ∀ c ∈ ('.' :: fraction).head?, c.isDigit = false := by
  intro c hc
  cases hc
  rfl

theorem pointParts?_pointed (sign : Sign) {whole fraction : List Char}
    (hwhole : isDigits whole = true) (hfraction : isDigits fraction = true) :
    pointParts? (sign.chars ++ (whole ++ '.' :: fraction)) =
      some (sign.isMinus, whole, fraction) := by
  have htake := takeWhile_digits _ hwhole (point_not_digit fraction)
  have hdrop := dropWhile_digits _ hwhole (point_not_digit fraction)
  obtain ⟨c, cs, rfl, hc⟩ := digits_head hwhole
  unfold pointParts?
  rw [List.cons_append] at htake hdrop ⊢
  rw [splitSign_of_digit sign _ hc]
  simp only [hdrop, htake, hwhole, hfraction, Bool.and_self, ↓reduceIte]

theorem pointParts?_eq_some {word whole fraction : List Char} {negative : Bool}
    (h : pointParts? word = some (negative, whole, fraction)) :
    ∃ sign : Sign, word = sign.chars ++ (whole ++ '.' :: fraction) ∧ sign.isMinus = negative ∧
      isDigits whole = true ∧ isDigits fraction = true := by
  obtain ⟨sign, hword, hminus⟩ := exists_sign word
  unfold pointParts? at h
  generalize splitSign word = parts at h hword hminus
  obtain ⟨isNegative, ds⟩ := parts
  dsimp only at h
  split at h
  · next hdrop =>
    split at h
    · next hdigits =>
      rw [Bool.and_eq_true] at hdigits
      have hsplit := List.takeWhile_append_dropWhile (p := Char.isDigit) (l := ds)
      rw [hdrop] at hsplit
      cases h
      exact ⟨sign, by rw [hsplit]; exact hword, hminus, hdigits⟩
    · cases h
  · cases h

theorem pointParts?_eq_none {word : List Char} (h : ¬ IsPointed word) :
    pointParts? word = none := by
  cases hparts : pointParts? word with
  | none => rfl
  | some parts =>
    obtain ⟨sign, hword, -, hwhole, hfraction⟩ := pointParts?_eq_some hparts
    exact absurd ⟨sign, _, _, hword, hwhole, hfraction⟩ h

/-- A whole number is followed by no point. -/
theorem ofSigned?_pointed {word : List Char} (h : IsPointed word) :
    Integer.ofSigned? word = none := by
  obtain ⟨sign, whole, fraction, rfl, hwhole, -⟩ := h
  obtain ⟨c, cs, rfl, hc⟩ := digits_head hwhole
  unfold Integer.ofSigned?
  rw [List.cons_append, splitSign_of_digit sign _ hc]
  dsimp only
  rw [if_neg]
  intro hall
  have := digits_all hall '.' (by simp)
  cases this

/-- The text of a number with a point stands for the double that is made from its parts. -/
theorem Decimal.ofText_pointed (sign : Sign) {whole fraction : List Char}
    (hwhole : isDigits whole = true) (hfraction : isDigits fraction = true) :
    Decimal.ofText (String.ofList (sign.chars ++ (whole ++ '.' :: fraction))) =
      some (Decimal.ofParts sign.isMinus whole fraction) := by
  have htake := takeWhile_digits _ hwhole (point_not_digit fraction)
  have hdrop := dropWhile_digits _ hwhole (point_not_digit fraction)
  have hfull := takeWhile_digits [] hfraction (by simp)
  have hnone := dropWhile_digits [] hfraction (by simp)
  rw [List.append_nil] at hfull hnone
  have hsplit : splitSign (sign.chars ++ (whole ++ '.' :: fraction)) =
      (sign.isMinus, whole ++ '.' :: fraction) := by
    obtain ⟨c, cs, rfl, hc⟩ := digits_head hwhole
    exact splitSign_of_digit sign _ hc
  -- a point is in none of the words for infinity and for what is no number
  have hword : ∀ s : String, '.' ∉ s.toList →
      String.ofList ((whole ++ '.' :: fraction).map Char.toLower) ≠ s := by
    rintro s hs rfl
    rw [String.toList_ofList] at hs
    exact hs (List.mem_map.2 ⟨'.', by simp, rfl⟩)
  unfold ofText
  rw [String.toList_ofList, hsplit]
  dsimp only
  rw [if_neg (by
      rintro (h | h)
      · exact hword "inf" (by decide) h
      · exact hword "infinity" (by decide) h), if_neg (hword "nan" (by decide))]
  unfold readUnsigned
  rw [htake, hdrop]
  simp only [hfull, hnone]
  rw [if_neg]
  · simp only [readExponent, Option.map_some, ofParts, Int.zero_sub]
  · obtain ⟨c, cs, rfl, -⟩ := digits_head hwhole
    simp

/-! ## Words -/

theorem sign_head (sign : Sign) {c : Char} (cs : List Char) (hc : c.isDigit = true) :
    (sign.chars ++ c :: cs).head? ≠ some ':' := by
  cases sign with
  | none =>
    intro h
    cases h
    cases hc
  | plus => nofun
  | minus => nofun

namespace Atom

/-- What a word stands for that is no keyword. -/
theorem ofWord_of_head {word : List Char} (h : word.head? ≠ some ':') :
    ofWord word =
      match Integer.ofSigned? word with
      | some n =>
        match Integer.fit? n with
        | some w => .ok (.integer w)
        | none => .error .integerOutOfRange
      | none =>
        match pointParts? word with
        | some (negative, whole, fraction) => .ok (.float (Decimal.ofParts negative whole fraction))
        | none =>
          match String.ofList word with
          | "true" => .ok (.boolean true)
          | "false" => .ok (.boolean false)
          | "nil" => .ok .nil
          | name => .ok (.symbol name) := by
  unfold ofWord
  split
  · exact absurd rfl h
  · exact absurd rfl h
  · rfl

theorem spelled_of_ofWord {word : List Char} {a : Atom} (h : ofWord word = .ok a) :
    Spelled word a := by
  by_cases hhead : word.head? = some ':'
  · obtain ⟨name, rfl⟩ := List.head?_eq_some_iff.1 hhead
    cases name with
    | nil => cases h
    | cons c cs =>
      cases h
      exact .keyword (List.cons_ne_nil c cs)
  · rw [ofWord_of_head hhead] at h
    split at h
    · next n hn =>
      obtain ⟨sign, ds, rfl, hds, rfl⟩ := ofSigned?_eq_some hn
      rw [Integer.fit?_cappedValue] at h
      split at h
      · next w hw =>
        cases h
        exact .integer sign hds (Integer.fit?_eq_some_iff.1 hw)
      · cases h
    · next hsigned =>
      split at h
      · next negative whole fraction hparts =>
        obtain ⟨sign, rfl, rfl, hwhole, hfraction⟩ := pointParts?_eq_some hparts
        cases h
        exact .float ⟨sign, whole, fraction, rfl, hwhole, hfraction⟩
          (Decimal.ofText_pointed sign hwhole hfraction)
      · next hparts =>
        have hwhole : ¬ IsWhole word := by
          rintro ⟨sign, ds, rfl, hds⟩
          rw [ofSigned?_signed sign hds] at hsigned
          cases hsigned
        have hpointed : ¬ IsPointed word := by
          rintro ⟨sign, whole, fraction, rfl, hw, hf⟩
          rw [pointParts?_pointed sign hw hf] at hparts
          cases hparts
        have hword {s : String} (hs : String.ofList word = s) : word = s.toList := by
          rw [← hs, String.toList_ofList]
        split at h
        · next hs => rw [hword hs]; cases h; exact .yes
        · next hs => rw [hword hs]; cases h; exact .no
        · next hs => rw [hword hs]; cases h; exact .nil
        · next htrue hfalse hnil =>
          cases h
          refine .symbol hhead hwhole hpointed ?_
          simp only [reservedWords, List.mem_cons, List.not_mem_nil, or_false]
          rintro (rfl | rfl | rfl)
          · exact htrue (String.ofList_toList)
          · exact hfalse (String.ofList_toList)
          · exact hnil (String.ofList_toList)

theorem ofWord_of_spelled {word : List Char} {a : Atom} (h : Spelled word a) :
    ofWord word = .ok a := by
  cases h with
  | @keyword name hname =>
    cases name with
    | nil => exact absurd rfl hname
    | cons c cs => rfl
  | @integer sign ds n hds hn =>
    obtain ⟨c, cs, rfl, hc⟩ := digits_head hds
    rw [ofWord_of_head (sign_head sign cs hc), ofSigned?_signed sign hds]
    dsimp only
    rw [Integer.fit?_cappedValue, Integer.fit?_eq_some_iff.2 hn]
  | @float _ x hpointed hx =>
    obtain ⟨sign, whole, fraction, rfl, hwhole, hfraction⟩ := id hpointed
    rw [Decimal.ofText_pointed sign hwhole hfraction] at hx
    cases hx
    have hhead : (sign.chars ++ (whole ++ '.' :: fraction)).head? ≠ some ':' := by
      obtain ⟨c, cs, rfl, hc⟩ := digits_head hwhole
      exact sign_head sign _ hc
    rw [ofWord_of_head hhead, ofSigned?_pointed hpointed, pointParts?_pointed sign hwhole hfraction]
  | yes => rfl
  | no => rfl
  | nil => rfl
  | symbol hhead hwhole hpointed hreserved =>
    have hword {s : String} (hs : String.ofList word = s) : word = s.toList := by
      rw [← hs, String.toList_ofList]
    simp only [reservedWords, List.mem_cons, List.not_mem_nil, or_false, not_or] at hreserved
    rw [ofWord_of_head hhead, ofSigned?_eq_none hwhole, pointParts?_eq_none hpointed]
    dsimp only
    split
    · next hs => exact absurd (hword hs) hreserved.1
    · next hs => exact absurd (hword hs) hreserved.2.1
    · next hs => exact absurd (hword hs) hreserved.2.2
    · rfl

/-- A word is taken for an atom exactly if that is how the atom is spelled. -/
theorem ofWord_eq_ok_iff {word : List Char} {a : Atom} : ofWord word = .ok a ↔ Spelled word a :=
  ⟨spelled_of_ofWord, ofWord_of_spelled⟩

end Atom
end Lispbox
