import Lispbox.Proofs.Exception.Excerpt
import Mathlib.Data.List.TakeWhile

/-!
# Where an excerpt begins and ends

`locate` drops lines until one mentions the file, and keeps lines until one mentions the name. Here
the two lines are told by their numbers, which count from 0: `FirstMention` says which line is the
first one from some line on, and `Located` what the excerpt of a list of lines is. The texts that
are looked for are arbitrary. An empty one is mentioned in every line, one with a line feed in none.

* `slices_locate`: cutting the excerpt out by the numbers of its lines never asks for lines that are
  not there.
* `locate_exact`: the excerpt of every text, and that it is a contiguous part of the text.
-/
namespace Lispbox
open Lispbox.Text

/-- Line `n` is the first one from line `start` on that mentions the pattern. -/
structure FirstMention (lines : List String) (pattern : String) (start n : Nat) : Prop where
  from_start : start ≤ n
  mentions : ∃ l, lines[n]? = some l ∧ contains l pattern = true
  first : ∀ i l, start ≤ i → i < n → lines[i]? = some l → contains l pattern = false

/-- The excerpts of lines: none if no line mentions the file, none if no line below the first one
that does mentions the name, and otherwise the lines from the one up to the other. -/
inductive Located (lines : List String) (file name : String) : String → Prop where
  | noFile : (∀ l ∈ lines, contains l file = false) → Located lines file name ""
  | noName {s : Nat} : FirstMention lines file 0 s →
      (∀ l ∈ lines.drop (s + 1), contains l name = false) → Located lines file name ""
  | between {s e : Nat} : FirstMention lines file 0 s → FirstMention lines name (s + 1) e →
      Located lines file name ("\n".intercalate (lines.extract s (e + 1)))

/-- The items from place `start` up to place `stop`, not included; nothing if the list does not have
these places. -/
def slice? {α : Type} (start stop : Nat) (l : List α) : Option (List α) :=
  if start ≤ stop ∧ stop ≤ l.length then some (l.extract start stop) else none

/-- The lines from `start` to the first one below it that mentions the name. -/
def sliceFrom? (lines : List String) (name : String) (start : Nat) : Option String :=
  (slice? (start + 1) lines.length lines).bind fun below =>
    match below.findIdx? (contains · name) with
    | none => some ""
    | some offset => (slice? start (start + 1 + offset + 1) lines).map ("\n".intercalate ·)

/-- The excerpt of lines by two searches, the second one behind what the first one found. There is
no result if a slice is out of range. -/
def sliceLines? (lines : List String) (file name : String) : Option String :=
  match lines.findIdx? (contains · file) with
  | none => some ""
  | some start => sliceFrom? lines name start

variable {lines : List String} {pattern file name out : String} {start n : Nat}

/-! ## First mentions -/

theorem FirstMention.lt_length (h : FirstMention lines pattern start n) : n < lines.length := by
  obtain ⟨l, hl, -⟩ := h.mentions
  exact (List.getElem?_eq_some_iff.mp hl).1

/-- A search from a line on finds the first mention. -/
theorem FirstMention.findIdx? (h : FirstMention lines pattern start n) :
    (lines.drop start).findIdx? (contains · pattern) = some (n - start) := by
  obtain ⟨l, hl, hmentions⟩ := h.mentions
  have hplace : start + (n - start) = n := Nat.add_sub_of_le h.from_start
  have hget : (lines.drop start)[n - start]? = some l := by rw [List.getElem?_drop, hplace, hl]
  obtain ⟨hlt, hat⟩ := List.getElem?_eq_some_iff.mp hget
  refine List.findIdx?_eq_some_iff_getElem.mpr ⟨hlt, hat ▸ hmentions, fun j hj => ?_⟩
  have hjline : lines[start + j]? = some (lines.drop start)[j] := by
    rw [← List.getElem?_drop, List.getElem?_eq_getElem]
  exact Bool.not_eq_true _ ▸ h.first (start + j) _ (Nat.le_add_right _ _) (by omega) hjline

/-- The first mention, where the lines up to it are known. -/
theorem firstMention_append {before inner after : List String} {l : String}
    (hinner : ∀ x ∈ inner, contains x pattern = false) (hl : contains l pattern = true) :
    FirstMention (before ++ (inner ++ l :: after)) pattern before.length
      (before.length + inner.length) where
  from_start := Nat.le_add_right _ _
  mentions := ⟨l, by simp, hl⟩
  first i x hi hlt hx := by
    rw [List.getElem?_append_right hi, List.getElem?_append_left (by omega)] at hx
    exact hinner x (List.mem_of_getElem? hx)

/-- Lines mention a pattern nowhere, or there is a first one. -/
theorem mentioned_or_not (lines : List String) (pattern : String) :
    (∀ l ∈ lines, contains l pattern = false) ∨
      ∃ before l after, lines = before ++ l :: after ∧
        (∀ x ∈ before, contains x pattern = false) ∧ contains l pattern = true := by
  cases hfind : lines.find? (contains · pattern) with
  | none => exact .inl (by simpa using hfind)
  | some l =>
    obtain ⟨hl, before, after, hlines, hbefore⟩ := List.find?_eq_some_iff_append.mp hfind
    exact .inr ⟨before, l, after, hlines, by simpa using hbefore, hl⟩

/-! ## Excerpts -/

theorem locate_noFile {text : String} (h : ∀ l ∈ split '\n' text, contains l file = false) :
    locate text file name = "" := by
  rw [locate, List.dropWhile_eq_nil_iff.mpr (by simpa using h)]

theorem locate_noName {text first : String} {before below : List String}
    (hlines : split '\n' text = before ++ first :: below)
    (hbefore : ∀ l ∈ before, contains l file = false) (hfirst : contains first file = true)
    (hbelow : ∀ l ∈ below, contains l name = false) : locate text file name = "" := by
  rw [locate, hlines, List.dropWhile_append_of_pos (by simpa using hbefore),
    List.dropWhile_cons_of_neg (by simpa using hfirst)]
  dsimp only
  rw [List.dropWhile_eq_nil_iff.mpr (by simpa using hbelow)]

theorem located_locate (text file name : String) :
    Located (split '\n' text) file name (locate text file name) := by
  rcases mentioned_or_not (split '\n' text) file with
    hno | ⟨before, first, below, hlines, hbefore, hfirst⟩
  · rw [locate_noFile hno]
    exact .noFile hno
  have hs : FirstMention (split '\n' text) file 0 before.length := by
    have hmention : FirstMention ([] ++ (before ++ first :: below)) file 0 (0 + before.length) :=
      firstMention_append hbefore hfirst
    rwa [List.nil_append, ← hlines, Nat.zero_add] at hmention
  have hbelow : (split '\n' text).drop (before.length + 1) = below := by
    rw [hlines, ← List.drop_drop, List.drop_left, List.drop_one, List.tail_cons]
  rcases mentioned_or_not below name with hno | ⟨inner, last, after, rfl, hinner, hlast⟩
  · rw [locate_noName hlines hbefore hfirst hno]
    exact .noName hs (hbelow ▸ hno)
  have he : FirstMention (split '\n' text) name (before.length + 1)
      (before.length + 1 + inner.length) := by
    have hmention : FirstMention ((before ++ [first]) ++ (inner ++ last :: after)) name _ _ :=
      firstMention_append hinner hlast
    rwa [List.append_assoc, List.singleton_append, ← hlines, List.length_append,
      List.length_singleton] at hmention
  have hslice : (split '\n' text).extract before.length (before.length + 1 + inner.length + 1) =
      first :: (inner ++ [last]) := by
    have hlength : before.length + 1 + inner.length + 1 - before.length =
        (first :: (inner ++ [last])).length := by
      simp only [List.length_cons, List.length_append, List.length_nil]
      omega
    have hpart : split '\n' text = before ++ (first :: (inner ++ [last]) ++ after) := by
      rw [hlines, List.cons_append, List.append_assoc, List.singleton_append]
    rw [List.extract, hpart, List.drop_left, hlength, List.take_left]
  rw [locate_eq hlines hbefore hfirst hinner hlast, ← hslice]
  exact .between hs he

/-- An excerpt is a contiguous part of the text. -/
theorem Located.part {text : String} (h : Located (split '\n' text) file name out) :
    ∃ before after, text = before ++ (out ++ after) := by
  cases h with
  | noFile _ => exact ⟨"", text, by simp⟩
  | noName _ _ => exact ⟨"", text, by simp⟩
  | @between s e hs he =>
    have hse := he.from_start
    have hlt := he.lt_length
    have hparts : split '\n' text = (split '\n' text).take s ++
        ((split '\n' text).extract s (e + 1) ++ (split '\n' text).drop (e + 1)) := by
      have hend : s + (e + 1 - s) = e + 1 := by omega
      rw [List.extract, ← hend, ← List.drop_drop, Nat.add_sub_cancel_left, List.take_append_drop,
        List.take_append_drop]
    refine part_of_lines hparts ?_
    rw [ne_eq, ← List.length_eq_zero_iff, List.extract, List.length_take, List.length_drop]
    omega

/-! ## Slices -/

theorem slice?_of_le {α : Type} {l : List α} {start stop : Nat} (h : start ≤ stop)
    (hstop : stop ≤ l.length) : slice? start stop l = some (l.extract start stop) :=
  if_pos ⟨h, hstop⟩

theorem FirstMention.sliceLines? {s : Nat} (hs : FirstMention lines file 0 s) :
    sliceLines? lines file name = sliceFrom? lines name s := by
  have hfile := hs.findIdx?
  rw [List.drop_zero, Nat.sub_zero] at hfile
  rw [Lispbox.sliceLines?, hfile]

/-- Below a line that is there, the second search is in what is left of the lines. -/
theorem slice?_below {s : Nat} (hs : s < lines.length) :
    slice? (s + 1) lines.length lines = some (lines.drop (s + 1)) := by
  rw [slice?_of_le hs (Nat.le_refl _), List.extract, ← List.length_drop, List.take_length]

/-- The excerpt that lines have is cut out of them, and every slice is in range. -/
theorem Located.sliceLines? (h : Located lines file name out) :
    sliceLines? lines file name = some out := by
  cases h with
  | noFile hno => rw [Lispbox.sliceLines?, List.findIdx?_eq_none_iff.mpr hno]
  | noName hs hno =>
    rw [hs.sliceLines?, sliceFrom?, slice?_below hs.lt_length, Option.bind_some,
      List.findIdx?_eq_none_iff.mpr hno]
  | @between s e hs he =>
    have hse := he.from_start
    have hplace : s + 1 + (e - (s + 1)) = e := Nat.add_sub_of_le hse
    rw [hs.sliceLines?, sliceFrom?, slice?_below hs.lt_length, Option.bind_some, he.findIdx?]
    dsimp only
    rw [hplace, slice?_of_le (by omega) he.lt_length, Option.map_some]

theorem slices_locate (text file name : String) :
    sliceLines? (split '\n' text) file name = some (locate text file name) :=
  (located_locate text file name).sliceLines?

/-- The excerpt of a text is the one that its lines have; it is cut out by slices that are all in
range, and it is a contiguous part of the text. -/
theorem locate_exact (text file name : String) :
    (∀ out, locate text file name = out ↔ Located (split '\n' text) file name out) ∧
      sliceLines? (split '\n' text) file name = some (locate text file name) ∧
      ∃ before after, text = before ++ (locate text file name ++ after) := by
  refine ⟨fun out => ⟨?_, fun h => ?_⟩, slices_locate text file name,
    (located_locate text file name).part⟩
  · rintro rfl
    exact located_locate text file name
  · exact Option.some.inj ((slices_locate text file name).symm.trans h.sliceLines?)

/-- Every line mentions the empty text, and no line mentions one with a line feed. -/
example : locate "a\nb\nc" "" "" = "a\nb" ∧ locate "a\nb" "a\nb" "" = "" := by decide +kernel

end Lispbox
