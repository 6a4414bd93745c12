import Lispbox.Form.Bytes
import Lispbox.Proofs.Text.Lines
import Lispbox.Proofs.Text.Runs

/-!
# Cursors between characters

A source is a list of characters, and its bytes are theirs (`utf8`). A cursor that stands between
two characters is told by the characters on its two sides (`Cursor.between`). The steps of a cursor
lead from such places to such places again, since what they look for does not tell the bytes of one
character apart (`Coarse`): every character from 128 on is to them what each of its bytes is.

* `utf8EncodeChar_cases`: how bytes and characters that are below 128 go together.
* `advance_between`, `advanceWhile_between`: where the steps lead.
* `slice_between`: between two such cursors there is a part of the source, and what it is.
-/
namespace Lispbox

variable {p : Char → Bool} {before word cs : List Char} {c ch : Char} {source : String}

/-! ## Bytes of characters -/

/-- The bytes of characters. -/
def utf8 (cs : List Char) : List UInt8 := cs.flatMap String.utf8EncodeChar

theorem utf8_cons (c : Char) (cs : List Char) :
    utf8 (c :: cs) = String.utf8EncodeChar c ++ utf8 cs := List.flatMap_cons

theorem utf8_append (cs ds : List Char) : utf8 (cs ++ ds) = utf8 cs ++ utf8 ds :=
  List.flatMap_append

theorem toByteArray_eq_utf8 (cs : List Char) :
    (String.ofList cs).toByteArray = (utf8 cs).toByteArray := String.toByteArray_ofList

theorem length_utf8 (cs : List Char) : (utf8 cs).length = (String.ofList cs).utf8ByteSize := by
  rw [← String.size_toByteArray, toByteArray_eq_utf8, List.size_toByteArray]

theorem length_le_utf8 (cs : List Char) : cs.length ≤ (utf8 cs).length := by
  induction cs with
  | nil => exact Nat.le_refl _
  | cons c cs ih =>
    have hc := c.utf8Size_pos
    rw [utf8_cons, List.length_append, String.length_utf8EncodeChar, List.length_cons]
    omega

/-- The bytes of characters are those of a text. -/
theorem fromUTF8?_utf8 (cs : List Char) :
    String.fromUTF8? ⟨(utf8 cs).toArray⟩ = some (String.ofList cs) := by
  have hbytes : (⟨(utf8 cs).toArray⟩ : ByteArray) = (String.ofList cs).toByteArray := by
    rw [toByteArray_eq_utf8, ByteArray.ext_iff, List.data_toByteArray]
  rw [hbytes, String.fromUTF8?, dif_pos (String.ofList cs).isValidUTF8]
  rfl

/-- A character below 128 is one byte, which is looked at as the character itself. The bytes of any
other character are all looked at as characters from 128 on. -/
theorem utf8EncodeChar_cases (c : Char) :
    (c.toNat < 128 ∧ String.utf8EncodeChar c = [c.toUInt8] ∧ Char.ofUInt8 c.toUInt8 = c) ∨
      (128 ≤ c.toNat ∧ ∀ b ∈ String.utf8EncodeChar c, 128 ≤ (Char.ofUInt8 b).toNat) := by
  have hval : c.val.toNat = c.toNat := rfl
  by_cases hc : c.toNat < 128
  · refine .inl ⟨hc, ?_, ?_⟩
    · exact String.utf8EncodeChar_eq_singleton (Char.utf8Size_eq_one_iff.mpr
        (UInt32.le_iff_toNat_le.mpr (Nat.le_of_lt_succ hc)))
    · refine Char.ext (UInt32.toNat_inj.mp ?_)
      show c.val.toUInt8.toUInt32.toNat = c.val.toNat
      rw [UInt8.toNat_toUInt32, UInt32.toNat_toUInt8]
      omega
  · refine .inr ⟨Nat.le_of_not_lt hc, fun b hb => ?_⟩
    show 128 ≤ b.toNat
    have hlead (n : Nat) (hn : 128 ≤ n ∧ n < 256) (hb : b = UInt8.ofNat n) : 128 ≤ b.toNat := by
      rw [hb, UInt8.toNat_ofNat']
      omega
    unfold String.utf8EncodeChar at hb
    simp only [hval] at hb
    rw [if_neg (by omega)] at hb
    split at hb
    · simp only [List.mem_cons, List.not_mem_nil, or_false] at hb
      rcases hb with hb | hb <;> exact hlead _ (by omega) hb
    · split at hb
      · simp only [List.mem_cons, List.not_mem_nil, or_false] at hb
        rcases hb with hb | hb | hb <;> exact hlead _ (by omega) hb
      · simp only [List.mem_cons, List.not_mem_nil, or_false] at hb
        rcases hb with hb | hb | hb | hb <;> exact hlead _ (by omega) hb

theorem utf8EncodeChar_of_lt (h : c.toNat < 128) :
    String.utf8EncodeChar c = [c.toUInt8] ∧ Char.ofUInt8 c.toUInt8 = c :=
  ((utf8EncodeChar_cases c).resolve_right fun h' => Nat.not_lt.mpr h'.1 h).2

theorem byte_eq_iff (h : ch.toNat < 128) {b : UInt8} (hb : b ∈ String.utf8EncodeChar c) :
    Char.ofUInt8 b = ch ↔ c = ch := by
  rcases utf8EncodeChar_cases c with ⟨-, hencode, hsame⟩ | ⟨hc, hbytes⟩
  · rw [hencode, List.mem_singleton] at hb
    rw [hb, hsame]
  · have hbyte := hbytes b hb
    constructor
    · rintro rfl
      omega
    · rintro rfl
      omega

/-- The property does not tell characters from 128 on apart. -/
def Coarse (p : Char → Bool) : Prop := ∃ v, ∀ c : Char, 128 ≤ c.toNat → p c = v

/-- Such a property sees a character in each of its bytes. -/
theorem Coarse.byte (hp : Coarse p) {b : UInt8} (hb : b ∈ String.utf8EncodeChar c) :
    (p ∘ Char.ofUInt8) b = p c := by
  obtain ⟨v, hv⟩ := hp
  rw [Function.comp_apply]
  rcases utf8EncodeChar_cases c with ⟨-, hencode, hsame⟩ | ⟨hc, hbytes⟩
  · rw [hencode, List.mem_singleton] at hb
    rw [hb, hsame]
  · rw [hv c hc, hv _ (hbytes b hb)]

theorem beq_ascii (hc : 128 ≤ c.toNat) (hch : ch.toNat < 128) : (c == ch) = false := by
  rw [beq_eq_false_iff_ne]
  rintro rfl
  omega

theorem coarse_isSymbolChar : Coarse isSymbolChar :=
  ⟨true, fun c hc => by simp [isSymbolChar, Text.isAsciiBlank, beq_ascii hc]⟩

theorem coarse_isAsciiBlank : Coarse Text.isAsciiBlank :=
  ⟨false, fun c hc => by simp [Text.isAsciiBlank, beq_ascii hc]⟩

theorem coarse_isDigit : Coarse Char.isDigit := by
  refine ⟨false, fun c hc => Bool.eq_false_iff.mpr fun hdigit => ?_⟩
  have hnine : c.toNat ≤ 57 := (Char.isDigit_iff_toNat.mp hdigit).2
  omega

theorem coarse_ne (h : ch.toNat < 128) : Coarse (· != ch) :=
  ⟨true, fun _ hc => bne_iff_ne.mpr (beq_eq_false_iff_ne.mp (beq_ascii hc h))⟩

/-- Where the bytes of the characters end that are as required. -/
theorem Coarse.head (hp : Coarse p) (h : ∀ c ∈ cs.head?, p c = false) :
    ∀ b ∈ (utf8 cs).head?, (p ∘ Char.ofUInt8) b = false := by
  cases cs with
  | nil => exact fun b hb => by cases hb
  | cons c cs =>
    intro b hb
    obtain ⟨b', bs, hbytes⟩ := List.exists_cons_of_ne_nil (String.utf8EncodeChar_ne_nil (c := c))
    rw [utf8_cons, hbytes] at hb
    cases hb
    rw [hp.byte (hbytes ▸ List.mem_cons_self)]
    exact h c rfl

theorem Coarse.all (hp : Coarse p) (h : ∀ c ∈ word, p c = true) :
    ∀ b ∈ utf8 word, (p ∘ Char.ofUInt8) b = true := by
  intro b hb
  obtain ⟨c, hc, hb⟩ := List.mem_flatMap.mp hb
  rw [hp.byte hb]
  exact h c hc

/-! ## Places -/

theorem Pos.afterByte_encode (pos : Pos) (c : Char) :
    (String.utf8EncodeChar c).foldl afterByte pos = pos.after c := by
  rcases utf8EncodeChar_cases c with ⟨hc, hencode, hsame⟩ | ⟨hc, hbytes⟩
  · have hsize : c.utf8Size = 1 := by rw [← String.length_utf8EncodeChar, hencode]; rfl
    rw [hencode, List.foldl_cons, List.foldl_nil, afterByte, hsame, after, hsize]
  · have hrun (bs : List UInt8) (pos : Pos) (h : ∀ b ∈ bs, 128 ≤ (Char.ofUInt8 b).toNat) :
        bs.foldl afterByte pos = ⟨pos.line, pos.column + bs.length⟩ := by
      induction bs generalizing pos with
      | nil => rfl
      | cons b bs ih =>
        obtain ⟨hb, hbs⟩ := List.forall_mem_cons.mp h
        have hne : Char.ofUInt8 b ≠ '\n' := fun heq => absurd (heq ▸ hb) (by decide)
        rw [List.foldl_cons, afterByte, if_neg hne, ih _ hbs, List.length_cons]
        simp only [mk.injEq, true_and]
        omega
    have hne : c ≠ '\n' := fun heq => absurd (heq ▸ hc) (by decide)
    rw [hrun _ pos hbytes, String.length_utf8EncodeChar, after, if_neg hne]

theorem Pos.afterBytes_utf8 (pos : Pos) (cs : List Char) :
    (utf8 cs).foldl afterByte pos = pos.afterAll cs := by
  induction cs generalizing pos with
  | nil => rfl
  | cons c cs ih =>
    rw [utf8_cons, List.foldl_append, afterByte_encode, ih]
    rfl

namespace Cursor

/-- The cursor between two parts of a source. -/
def between (before cs : List Char) : Cursor := ⟨(utf8 before).length, .behind before, utf8 cs⟩

theorem start_eq (source : String) : start source = between [] source.toList := by
  have hbytes : source.toUTF8.data.toList = utf8 source.toList := by
    rw [String.toUTF8_eq_toByteArray, ← String.ofList_toList (s := source), toByteArray_eq_utf8,
      List.toList_data_toByteArray, String.ofList_toList]
  rw [start, hbytes]
  rfl

/-- Behind the bytes of some characters, the cursor is between characters again. -/
theorem between_append (before word cs : List Char) :
    (⟨(utf8 before).length + (utf8 word).length, (utf8 word).foldl Pos.afterByte (.behind before),
      utf8 cs⟩ : Cursor) = between (before ++ word) cs := by
  rw [Pos.afterBytes_utf8, Pos.afterAll_behind, ← List.length_append, ← utf8_append]
  rfl

theorem advanceWhile_between (before : List Char) (hp : Coarse p) (hword : ∀ c ∈ word, p c = true)
    (hcs : ∀ c ∈ cs.head?, p c = false) :
    (between before (word ++ cs)).advanceWhile p = between (before ++ word) cs := by
  rw [advanceWhile, between, utf8_append, Text.takeWhile_run (hp.all hword) (hp.head hcs),
    Text.dropWhile_run (hp.all hword) (hp.head hcs)]
  exact between_append before word cs

/-- The cursor at a character that is one byte, and behind it. -/
theorem between_ascii (h : c.toNat < 128) (before cs : List Char) :
    between before (c :: cs) =
        ⟨(utf8 before).length, .behind before, c.toUInt8 :: utf8 cs⟩ ∧
      between (before ++ [c]) cs =
        ⟨(utf8 before).length + 1, (Pos.behind before).afterByte c.toUInt8, utf8 cs⟩ := by
  obtain ⟨hencode, -⟩ := utf8EncodeChar_of_lt h
  have hone : utf8 [c] = [c.toUInt8] := by rw [utf8_cons, hencode]; rfl
  rw [← between_append, hone, between, utf8_cons, hencode]
  exact ⟨rfl, rfl⟩

theorem advance_between (h : c.toNat < 128) :
    (between before (c :: cs)).advance = between (before ++ [c]) cs := by
  obtain ⟨hcursor, hbehind⟩ := between_ascii h before cs
  rw [hcursor, hbehind]
  rfl

theorem current_nil : (between before []).current = none := rfl

/-- The cursor sees the character behind it, if that is below 128. -/
theorem current_ascii (h : c.toNat < 128) : (between before (c :: cs)).current = some c := by
  rw [(between_ascii h before cs).1, current, List.head?_cons, Option.map_some,
    (utf8EncodeChar_of_lt h).2]

theorem current_cons (before : List Char) (c : Char) (cs : List Char) :
    ∃ b ∈ String.utf8EncodeChar c,
      (between before (c :: cs)).current = some (Char.ofUInt8 b) := by
  obtain ⟨b, bs, hbytes⟩ := List.exists_cons_of_ne_nil (String.utf8EncodeChar_ne_nil (c := c))
  refine ⟨b, hbytes ▸ List.mem_cons_self, ?_⟩
  rw [current, between, utf8_cons, hbytes]
  rfl

theorem current_eq_iff (h : ch.toNat < 128) :
    (between before cs).current = some ch ↔ cs.head? = some ch := by
  cases cs with
  | nil => simp [current_nil]
  | cons c cs =>
    obtain ⟨b, hb, hcurrent⟩ := current_cons before c cs
    rw [hcurrent, List.head?_cons, Option.some_inj, Option.some_inj, byte_eq_iff h hb]

theorem any_current (hp : Coarse p) : (between before cs).current.any p = cs.head?.any p := by
  cases cs with
  | nil => rfl
  | cons c cs =>
    obtain ⟨b, hb, hcurrent⟩ := current_cons before c cs
    rw [hcurrent]
    exact hp.byte hb

theorem peek_between (h : c.toNat < 128) :
    (between before (c :: cs)).peek = (between (before ++ [c]) cs).current := by
  rw [(between_ascii h before cs).1]
  rfl

/-- Cursors in a row are told apart by their offsets. -/
theorem index_eq_iff (before word cs ds : List Char) :
    (between (before ++ word) cs).index = (between before ds).index ↔ word = [] := by
  have hlength := length_le_utf8 word
  rw [between, between, utf8_append, List.length_append]
  constructor
  · intro h
    exact List.eq_nil_of_length_eq_zero (by dsimp only at h; omega)
  · rintro rfl
    rfl

end Cursor

/-! ## Parts of a source -/

theorem isValid_utf8 (h : source.toList = before ++ cs) :
    String.Pos.Raw.IsValid source ⟨(utf8 before).length⟩ := by
  refine String.Pos.Raw.isValid_iff_exists_append.mpr
    ⟨String.ofList before, String.ofList cs, ?_, ?_⟩
  · rw [← String.ofList_append, ← h, String.ofList_toList]
  · rw [length_utf8]
    rfl

theorem slice?_utf8 (h : source.toList = before ++ (word ++ cs)) :
    Text.slice? source (utf8 before).length (utf8 (before ++ word)).length =
      some (String.ofList word) := by
  have hstop : source.toList = before ++ word ++ cs := by rw [h, List.append_assoc]
  have hlength : (utf8 (before ++ word)).length = (utf8 before).length + (utf8 word).length := by
    rw [utf8_append, List.length_append]
  have hbytes : source.toByteArray =
      (utf8 before).toByteArray ++ (utf8 word).toByteArray ++ (utf8 cs).toByteArray := by
    rw [← String.ofList_toList (s := source), hstop, toByteArray_eq_utf8, utf8_append, utf8_append,
      List.toByteArray_append, List.toByteArray_append]
  unfold Text.slice?
  rw [dif_pos ⟨by omega, isValid_utf8 h, isValid_utf8 hstop⟩, Option.some_inj,
    ← String.toByteArray_inj, String.toByteArray_extract, toByteArray_eq_utf8]
  show source.toByteArray.extract ((utf8 before).length + 0) (utf8 (before ++ word)).length = _
  rw [hbytes, hlength, ByteArray.append_assoc,
    ByteArray.extract_append_size_add' List.size_toByteArray.symm,
    ByteArray.extract_append_eq_left List.size_toByteArray.symm]

theorem ByteReader.slice_between {ds : List Char} (h : source.toList = before ++ (word ++ cs)) :
    slice source (.between before ds) (.between (before ++ word) cs) =
      .ok (String.ofList word) := by
  rw [slice, Cursor.between, Cursor.between]
  dsimp only
  rw [slice?_utf8 h]

end Lispbox
