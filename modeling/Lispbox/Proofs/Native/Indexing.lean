import Lispbox.Proofs.Native.Integers

/-!
# Indexes of sequences

The items of a list are its values, those of a text its characters, each as a text of its own. `len`
counts them and `nth` gives one of them, and the two agree on how many there are
(`Indexing.Indexed`): `nth` has a value exactly at the indexes from `-n` up to `n`, where `n` is
what `len` gives, and the items at `0`, `1`, …, `n - 1` make up the sequence.

A length is a number of 64 bits, as memory has no more addresses. Under this assumption, and for the
least index too, an index and a length are added without leaving the range.

* `index?_inside`, `index?_outside`: the place that an index stands for.
* `indexed`: what follows for a sequence that is indexed through its items.
* `indexes_exact`: lists and texts.
-/
namespace Lispbox

open Integer (Fits fits_iff toInt_bounds toInt_add_of_fits)
open Sequence (index? index?_of_lt)

namespace Indexing

/-- The index is one of a sequence of the given length; negative ones count from the end. -/
def InBounds (length : Int) (i : Int64) : Prop := -length ≤ i.toInt ∧ i.toInt < length

/-- What `nth` gives at an index. -/
def nth (x : Value) (i : Int64) : Script Value := Native.nth.call [x, .integer i]

/-- The items of the sequence `x` are what `len` counts and what `nth` gives at the indexes within
the bounds; at all others it raises the exception of the cause `c`. -/
structure Indexed (x : Value) (c : Cause) (n : Int64) (items : List Value) : Prop where
  count : n.toInt = items.length
  length : Native.len.call [x] = pure (.integer n)
  found_iff : ∀ i : Int64, (∃ v, nth x i = pure v) ↔ InBounds n.toInt i
  outside : ∀ i : Int64, ¬ InBounds n.toInt i → nth x i = Script.raise c
  sum : ∀ i : Int64, i.toInt < 0 → (i + n).toInt = i.toInt + n.toInt
  fromEnd : ∀ i : Int64, i.toInt < 0 → InBounds n.toInt i → nth x i = nth x (i + n)
  collected : (List.range items.length).map (fun k : Nat => nth x (Int64.ofNat k)) = items.map pure

/-! ## Places -/

theorem index?_inside {i : Int64} {length : Nat} (h : InBounds length i) :
    ∃ k < length, index? i length = some k := by
  obtain ⟨hlow, hhigh⟩ := h
  unfold index?
  dsimp only
  split
  · rw [if_pos (by omega)]
    exact ⟨_, by omega, rfl⟩
  · rw [if_pos (by omega)]
    exact ⟨_, by omega, rfl⟩

theorem index?_outside {i : Int64} {length : Nat} (h : ¬ InBounds length i) :
    index? i length = none := by
  unfold InBounds at h
  unfold index?
  dsimp only
  split <;> rw [if_neg (by omega)]

/-- A negative index stands for the place of the index that is greater by the length. -/
theorem index?_fromEnd {i j : Int64} {length : Nat} (hneg : i.toInt < 0)
    (h : InBounds length i) (hj : j.toInt = i.toInt + length) :
    index? i length = index? j length := by
  obtain ⟨hlow, -⟩ := h
  have hnonneg : ¬ j.toInt < 0 := by omega
  unfold index?
  rw [if_pos hneg, if_neg hnonneg, hj]

theorem toInt_ofNat_of_fits {k : Nat} (h : Fits k) : (Int64.ofNat k).toInt = k := by
  rw [fits_iff] at h
  exact Int64.toInt_ofNat_of_lt (by omega)

theorem index?_ofNat {k length : Nat} (hk : k < length) (h : Fits length) :
    index? (Int64.ofNat k) length = some k := by
  have hfits : Fits k := by
    rw [fits_iff] at h ⊢
    omega
  have hint := toInt_ofNat_of_fits hfits
  rw [index?_of_lt (by omega) (by omega), hint]
  rfl

/-! ## Items -/

/-- The item at the place that an index stands for. -/
def itemOf (items : List Value) (c : Cause) (i : Int64) : Except Cause Value :=
  ((index? i items.length).bind (items[·]?)).elim (.error c) .ok

variable {x : Value} {c : Cause} {items : List Value}

theorem itemOf_eq {i : Int64} {k : Nat} (h : index? i items.length = some k)
    (hk : k < items.length) : itemOf items c i = .ok items[k] := by
  rw [itemOf, h, Option.bind_some, List.getElem?_eq_getElem hk]
  rfl

theorem itemOf_outside {i : Int64} (h : index? i items.length = none) :
    itemOf items c i = .error c := by
  rw [itemOf, h]
  rfl

theorem nth_eq (x : Value) (i : Int64) : nth x i = Script.ofCause (Native.itemAt x (.integer i)) :=
  Native.call_of_compute rfl

theorem nth_list (items : List Value) (i : Int64) :
    nth (.list items) i = Script.ofCause (itemOf items .listIndex i) := by
  rw [nth_eq, Native.itemAt, itemOf]
  cases (index? i items.length).bind (items[·]?) <;> rfl

/-- The characters of a text, each as a text of its own. -/
def characters (s : String) : List Value := s.toList.map fun c => .text (String.singleton c)

theorem length_characters (s : String) : (characters s).length = s.length := by
  rw [characters, List.length_map, String.length_toList]

theorem len_list (items : List Value) :
    Native.len.call [.list items] = pure (.integer (Int64.ofNat items.length)) := rfl

theorem len_text (s : String) :
    Native.len.call [.text s] = pure (.integer (Int64.ofNat (characters s).length)) := by
  rw [length_characters]
  rfl

theorem nth_text (s : String) (i : Int64) :
    nth (.text s) i = Script.ofCause (itemOf (characters s) .textIndex i) := by
  rw [nth_eq, Native.itemAt, itemOf, length_characters]
  cases index? i s.length with
  | none => rfl
  | some k =>
    rw [Option.bind_some, Option.bind_some, characters, List.getElem?_map]
    cases s.toList[k]? <;> rfl

/-- It is enough that the items are counted and looked up at the places of the indexes. -/
theorem indexed (hsize : Fits items.length)
    (hlength : Native.len.call [x] = pure (.integer (Int64.ofNat items.length)))
    (hnth : ∀ i, nth x i = Script.ofCause (itemOf items c i)) :
    Indexed x c (Int64.ofNat items.length) items := by
  have hcount := toInt_ofNat_of_fits hsize
  have hfound (i : Int64) (h : InBounds items.length i) : ∃ v, nth x i = pure v := by
    obtain ⟨k, hk, hindex⟩ := index?_inside h
    exact ⟨items[k], by rw [hnth, itemOf_eq hindex hk]; rfl⟩
  have houtside (i : Int64) (h : ¬ InBounds items.length i) : nth x i = Script.raise c := by
    rw [hnth, itemOf_outside (index?_outside h)]
    rfl
  have hsum (i : Int64) (h : i.toInt < 0) :
      (i + Int64.ofNat items.length).toInt = i.toInt + (Int64.ofNat items.length).toInt := by
    have hi := toInt_bounds i
    rw [fits_iff] at hsize
    refine toInt_add_of_fits (fits_iff.mpr ?_)
    omega
  refine ⟨hcount, hlength, fun i => ?_, fun i => ?_, hsum, fun i hneg h => ?_, ?_⟩
  · rw [hcount]
    refine ⟨fun ⟨v, hv⟩ => ?_, hfound i⟩
    by_contra h
    exact Native.pure_ne_raise v c (hv.symm.trans (houtside i h))
  · rw [hcount]
    exact houtside i
  · rw [hcount] at h
    rw [hnth, hnth, itemOf, itemOf, index?_fromEnd hneg h (by rw [hsum i hneg, hcount])]
  · refine List.ext_getElem (by simp) fun k hk _ => ?_
    rw [List.length_map, List.length_range] at hk
    rw [List.getElem_map, List.getElem_range, List.getElem_map, hnth,
      itemOf_eq (index?_ofNat hk hsize) hk]
    rfl

theorem join_characters (s : String) : String.join (s.toList.map String.singleton) = s := by
  rw [← String.toList_inj, String.toList_join, List.flatMap_map]
  simp

end Indexing

open Indexing

/-- `nth` gives the items of a list, or the characters of a text, that `len` counts.

An index has a value exactly from minus the length up to the length, and a negative one has that of
the index which is greater by the length; no sum of the two leaves the range. All the items together
are the list, and all the characters joined are the text. -/
theorem indexes_exact :
    (∀ items : List Value, Fits items.length →
      ∃ n : Int64, Indexed (.list items) .listIndex n items) ∧
    (∀ s : String, Fits s.length →
      ∃ n : Int64, Indexed (.text s) .textIndex n (characters s) ∧
        characters s = (s.toList.map String.singleton).map .text ∧
        String.join (s.toList.map String.singleton) = s) ∧
    (Exception.ofCause .listIndex).name = "IndexError" ∧
    (Exception.ofCause .textIndex).name = "IndexError" := by
  refine ⟨fun items hsize => ⟨_, indexed hsize (len_list items) (nth_list items)⟩,
    fun s hsize => ⟨_, indexed ?_ (len_text s) (nth_text s), ?_, join_characters s⟩, by decide,
    by decide⟩
  · rw [length_characters]
    exact hsize
  · rw [List.map_map]
    rfl

namespace Indexing

/-- Two characters of six bytes: the last one from the end, none in front of the first one, and none
at the least index. -/
theorem indexes_exact_wide :
    Fits "é😀".length ∧ nth (.text "é😀") (-1) = nth (.text "é😀") 1 ∧
      nth (.text "é😀") (-3) = Script.raise .textIndex ∧
      nth (.text "é😀") Int64.minValue = Script.raise .textIndex := by
  have hsize : Fits "é😀".length := ⟨2, by decide⟩
  obtain ⟨n, h, -⟩ := indexes_exact.2.1 "é😀" hsize
  obtain rfl : n = 2 := Int64.toInt_inj.mp (h.count.trans (by decide))
  exact ⟨hsize, h.fromEnd (-1) (by decide) (by unfold InBounds; decide),
    h.outside (-3) (by unfold InBounds; decide),
    h.outside Int64.minValue (by unfold InBounds; decide)⟩

end Indexing
end Lispbox
