import Lispbox.Proofs.Form.Scanning
import Lispbox.Proofs.Form.Word
import Lispbox.Proofs.Native.Integers
import Lispbox.Proofs.Text.Numerals

/-!
# Integers and their texts

An optional sign and digits are read in two places: a source may consist of them, and the builtin
`int` converts a text of them, with or without blanks around it. The two agree. If the number fits
in 64 bits it is what both give (`IntegerTexts.ReadsAs`), however many zeros are in front, and
otherwise both refuse it (`IntegerTexts.IsRefused`); the source is not taken for a float or a symbol
instead. What an integer is displayed as is such a text.

* `Atom.ofWord_beyond`: a number that does not fit is no word of the language.
* `trim_enclosed`: blanks around a word are passed over.
* `integers_read_back`: the number is read back from every text of it.
-/
namespace Lispbox

open Integer (Fits signed fit?_eq_some_iff fit?_cappedValue fit?_of_not_fits)
open Text (isBlank isDigits digitsValue dropBlankEnd)

/-! ## Words -/

theorem Text.not_blank_of_digit {c : Char} (h : c.isDigit = true) : isBlank c = false := by
  obtain ⟨hlow, hhigh⟩ := Char.isDigit_iff_toNat.mp h
  have hzero : '0'.toNat = 48 := rfl
  have hnine : '9'.toNat = 57 := rfl
  simp only [isBlank, Text.blankRanges, List.any_cons, List.any_nil, Bool.or_false,
    Bool.or_eq_false_iff, Bool.and_eq_false_iff, decide_eq_false_iff_not]
  omega

theorem symbolChar_of_digit {c : Char} (h : c.isDigit = true) : isSymbolChar c = true := by
  by_contra hc
  rcases not_symbolChar (Bool.eq_false_iff.mpr hc) with rfl | rfl | rfl | rfl | hblank
  · exact absurd h (by decide)
  · exact absurd h (by decide)
  · exact absurd h (by decide)
  · exact absurd h (by decide)
  · have hboth := (Text.isBlank_of_isAsciiBlank hblank).symm.trans (Text.not_blank_of_digit h)
    cases hboth

variable {sign : Sign} {digits : List Char}

/-- A number that does not fit is no other word either. -/
theorem Atom.ofWord_beyond (h : isDigits digits = true)
    (hbeyond : ¬ Fits (signed sign.isMinus (digitsValue digits))) :
    Atom.ofWord (sign.chars ++ digits) = .error .integerOutOfRange := by
  obtain ⟨c, cs, rfl, hc⟩ := digits_head h
  rw [Atom.ofWord_of_head (sign_head sign cs hc), ofSigned?_signed sign h]
  dsimp only
  rw [fit?_cappedValue, fit?_of_not_fits hbeyond]

theorem forall_mem_signed {p : Char → Prop} (hplus : p '+') (hminus : p '-')
    (hdigit : ∀ c : Char, c.isDigit = true → p c) (h : isDigits digits = true) :
    ∀ c ∈ sign.chars ++ digits, p c := by
  intro c hc
  rcases List.mem_append.mp hc with hc | hc
  · cases sign with
    | none => cases hc
    | plus => exact List.mem_singleton.mp hc ▸ hplus
    | minus => exact List.mem_singleton.mp hc ▸ hminus
  · exact hdigit c (digits_all h c hc)

theorem signed_ne_nil (sign : Sign) (h : isDigits digits = true) : sign.chars ++ digits ≠ [] := by
  obtain ⟨c, cs, rfl, -⟩ := digits_head h
  exact List.append_ne_nil_of_right_ne_nil _ (List.cons_ne_nil c cs)

/-! ## Sources of one word -/

theorem parse_word {word : List Char} {a : Atom} (hne : word ≠ [])
    (hchars : ∀ c ∈ word, isSymbolChar c = true) (ha : Atom.ofWord word = .ok a) (file : String)
    (maxDepth : Nat) :
    parse (String.ofList word) file maxDepth = .ok [.atom ⟨1, 1⟩ a] := by
  have hread : Reader.reads maxDepth ⟨.start, .blank, ⟨[], []⟩⟩ (word ++ []) = _ :=
    Reader.reads_word hne hchars fun _ h => by cases h
  rw [List.append_nil, ha, ← String.toList_ofList (l := word)] at hread
  have hforms : readForms maxDepth (String.ofList word) = .ok [.atom .start a] := hread
  rw [parse, hforms]
  rfl

theorem parse_refused {word : List Char} {flaw : Flaw} (hne : word ≠ [])
    (hchars : ∀ c ∈ word, isSymbolChar c = true) (hflaw : Atom.ofWord word = .error flaw)
    (file : String) (maxDepth : Nat) :
    parse (String.ofList word) file maxDepth =
      .error (.at file (String.ofList word) (Pos.start.afterAll (String.ofList word).toList)
        flaw.message) := by
  have hread : Reader.reads maxDepth ⟨.start, .blank, ⟨[], []⟩⟩ (word ++ []) = _ :=
    Reader.reads_word hne hchars fun _ h => by cases h
  rw [List.append_nil, hflaw, ← String.toList_ofList (l := word)] at hread
  have hforms : readForms maxDepth (String.ofList word) =
      .error (Pos.start.afterAll (String.ofList word).toList, flaw) := hread
  rw [parse, hforms]
  rfl

/-! ## Blanks around a word -/

namespace Text

/-- Nothing but blanks. -/
def IsBlanks (s : String) : Prop := ∀ c ∈ s.toList, isBlank c = true

theorem dropWhile_blank {c : Char} (hc : isBlank c = false) (cs : List Char) :
    (c :: cs).dropWhile isBlank = c :: cs :=
  List.dropWhile_cons_of_neg (by simp [hc])

/-- Blanks are taken off at both ends, up to the first character that is none. -/
theorem trim_enclosed {before after word : String} (hbefore : IsBlanks before)
    (hafter : IsBlanks after) (hne : word.toList ≠ [])
    (hword : ∀ c ∈ word.toList, isBlank c = false) : trim (before ++ word ++ after) = word := by
  have hstart : (word.toList ++ after.toList).dropWhile isBlank =
      word.toList ++ after.toList := by
    obtain ⟨c, cs, hc⟩ := List.exists_cons_of_ne_nil hne
    rw [hc, List.cons_append]
    exact dropWhile_blank (hword c (by simp [hc])) _
  have hend : word.toList.reverse.dropWhile isBlank = word.toList.reverse := by
    obtain ⟨c, cs, hc⟩ := List.exists_cons_of_ne_nil (List.reverse_ne_nil_iff.mpr hne)
    rw [hc]
    exact dropWhile_blank (hword c (List.mem_reverse.mp (by simp [hc]))) _
  rw [trim, String.toList_append, String.toList_append, List.append_assoc,
    List.dropWhile_append_of_pos hbefore, hstart, dropBlankEnd, List.reverse_append,
    List.dropWhile_append_of_pos fun c hc => hafter c (List.mem_reverse.mp hc), hend,
    List.reverse_reverse, String.ofList_toList]

end Text

open Text (IsBlanks trim_enclosed not_blank_of_digit)

theorem toInteger_text (s : String) :
    Native.toInteger (.text s) =
      (Integer.ofText? (Text.trim s)).elim (.error (.badIntegerText (quoteText s)))
        fun n => .ok (.integer n) := by
  unfold Native.toInteger
  dsimp only
  cases Integer.ofText? (Text.trim s) <;> rfl

theorem call_int (v : Value) : Native.int.call [v] = Script.ofCause (Native.toInteger v) :=
  Native.call_of_compute (congrArg some (pure_bind v Native.toInteger))

namespace IntegerTexts

/-- The text is read as the integer, and converted to it with any blanks around it. -/
structure ReadsAs (text : String) (n : Int64) : Prop where
  parsed : ∀ (file : String) (maxDepth : Nat),
    parse text file maxDepth = .ok [.atom ⟨1, 1⟩ (.integer n)]
  converted : ∀ before after : String, IsBlanks before → IsBlanks after →
    Native.int.call [.text (before ++ text ++ after)] = pure (.integer n)

/-- The text is refused by the reader, behind the word, and with any blanks around it by the
conversion. -/
structure IsRefused (text : String) : Prop where
  parsed : ∀ (file : String) (maxDepth : Nat), parse text file maxDepth =
    .error (.at file text (Pos.start.afterAll text.toList) "integer literal out of range")
  converted : ∀ before after : String, IsBlanks before → IsBlanks after →
    Native.int.call [.text (before ++ text ++ after)] =
      Script.raise (.badIntegerText (quoteText (before ++ text ++ after)))

theorem ofText?_signed (sign : Sign) {digits : List Char} (h : isDigits digits = true) :
    Integer.ofText? (String.ofList (sign.chars ++ digits)) =
      Integer.fit? (signed sign.isMinus (digitsValue digits)) := by
  rw [Integer.ofText?, String.toList_ofList, ofSigned?_signed sign h, Option.bind_some,
    fit?_cappedValue]

theorem trim_signed (sign : Sign) {digits : List Char} (h : isDigits digits = true)
    {before after : String} (hbefore : IsBlanks before) (hafter : IsBlanks after) :
    Text.trim (before ++ String.ofList (sign.chars ++ digits) ++ after) =
      String.ofList (sign.chars ++ digits) := by
  refine trim_enclosed hbefore hafter ?_ ?_ <;> rw [String.toList_ofList]
  · exact signed_ne_nil sign h
  · exact forall_mem_signed (by decide) (by decide) (fun _ => not_blank_of_digit) h

theorem readsAs_signed (sign : Sign) {digits : List Char} (h : isDigits digits = true) {n : Int64}
    (hn : n.toInt = signed sign.isMinus (digitsValue digits)) :
    ReadsAs (String.ofList (sign.chars ++ digits)) n where
  parsed := parse_word (signed_ne_nil sign h)
    (forall_mem_signed (by decide) (by decide) (fun _ => symbolChar_of_digit) h)
    (Atom.ofWord_of_spelled (.integer sign h hn))
  converted before after hbefore hafter := by
    rw [call_int, toInteger_text, trim_signed sign h hbefore hafter, ofText?_signed sign h,
      fit?_eq_some_iff.mpr hn]
    rfl

theorem isRefused_signed (sign : Sign) {digits : List Char} (h : isDigits digits = true)
    (hbeyond : ¬ Fits (signed sign.isMinus (digitsValue digits))) :
    IsRefused (String.ofList (sign.chars ++ digits)) where
  parsed := parse_refused (signed_ne_nil sign h)
    (forall_mem_signed (by decide) (by decide) (fun _ => symbolChar_of_digit) h)
    (Atom.ofWord_beyond h hbeyond)
  converted before after hbefore hafter := by
    rw [call_int, toInteger_text, trim_signed sign h hbefore hafter, ofText?_signed sign h,
      fit?_of_not_fits hbeyond]
    rfl

/-- An integer is displayed as digits, behind a minus if it is negative. -/
theorem display_integer (n : Int64) : ∃ (sign : Sign) (digits : List Char),
    (Value.integer n).display = String.ofList (sign.chars ++ digits) ∧ isDigits digits = true ∧
      n.toInt = signed sign.isMinus (digitsValue digits) := by
  have hdisplay : (Value.integer n).display = (Value.integer n).repr := rfl
  have hdigits : isDigits (Nat.toDigits 10 n.toInt.natAbs) = true :=
    Text.isDigits_of_all Nat.toDigits_ne_nil fun _ => Text.isDigit_of_mem_toDigits
  refine ⟨if n.toInt < 0 then .minus else .none, _, ?_, hdigits, ?_⟩
  · rw [hdisplay, Value.repr, ← String.toList_inj, Text.toList_toString_int, String.toList_ofList]
    split <;> rfl
  · rw [Text.digitsValue_toDigits]
    split <;> simp only [Sign.isMinus, signed, if_true, Bool.false_eq_true, if_false] <;> omega

end IntegerTexts

open IntegerTexts

/-- What an integer is displayed as is read as the integer, and converted to it.

So is every other text of an optional sign and digits whose number fits in 64 bits. If the number
does not fit, a source of the text is refused, and its conversion raises a `ValueError`. -/
theorem integers_read_back :
    (∀ n : Int64, ReadsAs (Value.integer n).display n) ∧
    (∀ (sign : Sign) (digits : List Char), isDigits digits = true →
      (∀ n : Int64, n.toInt = signed sign.isMinus (digitsValue digits) →
        ReadsAs (String.ofList (sign.chars ++ digits)) n) ∧
      (¬ Fits (signed sign.isMinus (digitsValue digits)) →
        IsRefused (String.ofList (sign.chars ++ digits)))) ∧
    ∀ quoted : String, (Exception.ofCause (.badIntegerText quoted)).name = "ValueError" := by
  refine ⟨fun n => ?_, fun sign digits h => ⟨fun n => readsAs_signed sign h,
    isRefused_signed sign h⟩, fun _ => rfl⟩
  obtain ⟨sign, digits, htext, h, hn⟩ := display_integer n
  rw [htext]
  exact readsAs_signed sign h hn

namespace IntegerTexts

/-- The least integer, with a zero in front, and the number below it. -/
theorem integers_read_back_least :
    ReadsAs "-09223372036854775808" Int64.minValue ∧ IsRefused "-9223372036854775809" := by
  have hleast := (integers_read_back.2.1 .minus "09223372036854775808".toList (by decide)).1
    Int64.minValue (by decide)
  have hbelow := (integers_read_back.2.1 .minus "9223372036854775809".toList (by decide)).2
    (by rw [Integer.fits_iff]; decide)
  exact ⟨hleast, hbelow⟩

end IntegerTexts
end Lispbox
