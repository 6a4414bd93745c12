import Lispbox.Proofs.Text.Runs
import Lispbox.Text.Blank
import Lispbox.Text.Split

/-!
# Pieces, trimmed ends and replacements

What the functions that take a text apart make of it, said without their loops.

* `pieces_intercalate`: fields that have no separator are the pieces of their join.
* `length_pieces`: the number of separators is the number of cuts.
* `dropBlankEnd_append_cons`: the end is trimmed behind the last character that is no blank.
* `Trimmed`, `Replaced`: trimming and replacing as relations; each has one result, which
  `trimmed_dropBlankEnd` and `replaced_replaceFrom` say is the computed one.
-/
namespace Lispbox.Text

variable {separator : Char} {cs ds es pattern replacement : List Char}

/-! ## Pieces -/

theorem pieces_cons_separator : pieces separator (separator :: cs) = [] :: pieces separator cs :=
  if_pos rfl

/-- What stands before a separator is cut off. -/
theorem pieces_append {piece : List Char} (h : separator ∉ piece) :
    pieces separator (piece ++ separator :: cs) = piece :: pieces separator cs := by
  induction piece with
  | nil => exact pieces_cons_separator
  | cons c piece ih =>
    obtain ⟨hc, hpiece⟩ : separator ≠ c ∧ separator ∉ piece := by simpa using h
    rw [List.cons_append, pieces, if_neg (Ne.symm hc), ih hpiece]

theorem pieces_of_not_mem (h : separator ∉ cs) : pieces separator cs = [cs] := by
  induction cs with
  | nil => rfl
  | cons c cs ih =>
    obtain ⟨hc, hcs⟩ : separator ≠ c ∧ separator ∉ cs := by simpa using h
    rw [pieces, if_neg (Ne.symm hc), ih hcs]

theorem pieces_intercalate {fields : List (List Char)} (hne : fields ≠ [])
    (h : ∀ field ∈ fields, separator ∉ field) :
    pieces separator ([separator].intercalate fields) = fields := by
  induction fields with
  | nil => exact absurd rfl hne
  | cons field fields ih =>
    obtain ⟨hfield, hfields⟩ := List.forall_mem_cons.mp h
    cases fields with
    | nil => simp [List.intercalate, pieces_of_not_mem hfield]
    | cons next fields =>
      rw [List.intercalate_cons_cons, List.append_assoc, List.singleton_append,
        pieces_append hfield, ih (List.cons_ne_nil _ _) hfields]

theorem mem_intercalate {fields : List (List Char)} {c : Char}
    (h : c ∈ [separator].intercalate fields) : c = separator ∨ ∃ field ∈ fields, c ∈ field := by
  induction fields with
  | nil => exact absurd h List.not_mem_nil
  | cons field fields ih =>
    cases fields with
    | nil => exact .inr ⟨field, List.mem_singleton.mpr rfl, by simpa using h⟩
    | cons next fields =>
      rw [List.intercalate_cons_cons, List.append_assoc, List.mem_append, List.mem_append,
        List.mem_singleton] at h
      rcases h with h | h | h
      · exact .inr ⟨field, List.mem_cons_self, h⟩
      · exact .inl h
      · exact (ih h).imp_right fun ⟨g, hg, hc⟩ => ⟨g, List.mem_cons_of_mem _ hg, hc⟩

/-- The last field stands behind a separator. -/
theorem intercalate_concat {fields : List (List Char)} (hne : fields ≠ []) (last : List Char) :
    [separator].intercalate (fields ++ [last]) =
      [separator].intercalate fields ++ separator :: last := by
  induction fields with
  | nil => exact absurd rfl hne
  | cons field fields ih =>
    cases fields with
    | nil => simp [List.intercalate_cons_cons]
    | cons next fields =>
      have ih := ih (List.cons_ne_nil _ _)
      rw [List.cons_append] at ih
      rw [List.cons_append, List.cons_append, List.intercalate_cons_cons, ih,
        List.intercalate_cons_cons]
      simp

theorem length_pieces : (pieces separator cs).length = cs.count separator + 1 := by
  induction cs with
  | nil => rfl
  | cons c cs ih =>
    rw [pieces]
    by_cases hc : c = separator
    · subst hc
      rw [if_pos rfl, List.length_cons, ih, List.count_cons_self]
    · obtain ⟨p, ps, hcut⟩ := List.exists_cons_of_ne_nil (pieces_ne_nil separator cs)
      rw [hcut] at ih
      rw [if_neg hc, hcut, List.count_cons_of_ne hc]
      exact ih

/-! ## Blanks at the end -/

/-- `ds` is `cs` without the blanks at its end. -/
def Trimmed (cs ds : List Char) : Prop :=
  (∃ blanks, cs = ds ++ blanks ∧ ∀ c ∈ blanks, isBlank c = true) ∧
    ∀ c ∈ ds.getLast?, isBlank c = false

/-- The end is trimmed behind the last character that is no blank. -/
theorem dropBlankEnd_append_cons {c : Char} (hc : isBlank c = false) (cs ds : List Char) :
    dropBlankEnd (cs ++ c :: ds) = cs ++ c :: dropBlankEnd ds := by
  unfold dropBlankEnd
  rw [List.reverse_append, List.reverse_cons, List.append_assoc, List.dropWhile_append]
  split
  · next hempty =>
    rw [List.isEmpty_iff.mp hempty]
    simp [hc]
  · simp

theorem dropBlankEnd_append_blanks {blanks : List Char} (h : ∀ c ∈ blanks, isBlank c = true) :
    dropBlankEnd (cs ++ blanks) = dropBlankEnd cs := by
  unfold dropBlankEnd
  rw [List.reverse_append, List.dropWhile_append_of_pos (by simpa using h)]

theorem trimmed_dropBlankEnd (cs : List Char) : Trimmed cs (dropBlankEnd cs) := by
  refine ⟨⟨(cs.reverse.takeWhile isBlank).reverse, ?_, ?_⟩, ?_⟩
  · rw [dropBlankEnd, ← List.reverse_append, List.takeWhile_append_dropWhile, List.reverse_reverse]
  · intro c hc
    exact List.all_eq_true.mp List.all_takeWhile c (List.mem_reverse.mp hc)
  · intro c hc
    rw [dropBlankEnd, List.getLast?_reverse] at hc
    exact head_dropWhile isBlank cs.reverse c hc

theorem count_dropBlankEnd (h : isBlank separator = false) (cs : List Char) :
    (dropBlankEnd cs).count separator = cs.count separator := by
  obtain ⟨⟨blanks, hsplit, hblanks⟩, -⟩ := trimmed_dropBlankEnd cs
  have hnone : blanks.count separator = 0 := by
    refine List.count_eq_zero_of_not_mem fun hmem => ?_
    rw [hblanks _ hmem] at h
    cases h
  calc (dropBlankEnd cs).count separator
      = (dropBlankEnd cs ++ blanks).count separator := by
        rw [List.count_append, hnone, Nat.add_zero]
    _ = cs.count separator := by rw [← hsplit]

theorem Trimmed.eq_dropBlankEnd (h : Trimmed cs ds) : ds = dropBlankEnd cs := by
  obtain ⟨⟨blanks, rfl, hblanks⟩, hlast⟩ := h
  rw [dropBlankEnd_append_blanks hblanks]
  rcases List.eq_nil_or_concat ds with rfl | ⟨ds, c, rfl⟩
  · rfl
  · have hc : isBlank c = false := hlast c (by simp)
    rw [List.concat_eq_append, dropBlankEnd_append_cons hc]
    rfl

/-! ## Replacements -/

/-- `ds` is `cs` with every occurrence of the pattern replaced, where occurrences are looked for
from left to right and do not overlap. -/
inductive Replaced (pattern replacement : List Char) : List Char → List Char → Prop where
  | done : Replaced pattern replacement [] []
  | found {cs ds : List Char} (h : Replaced pattern replacement cs ds) :
    Replaced pattern replacement (pattern ++ cs) (replacement ++ ds)
  | kept {c : Char} {cs ds : List Char} (hno : ¬ pattern <+: c :: cs)
    (h : Replaced pattern replacement cs ds) :
    Replaced pattern replacement (c :: cs) (c :: ds)

/-- The characters of an occurrence that is replaced already are passed over. -/
theorem replaceFrom_skip (n : Nat) (cs : List Char) :
    replaceFrom pattern replacement n cs = replaceFrom pattern replacement 0 (cs.drop n) := by
  induction n generalizing cs with
  | zero => rfl
  | succ n ih =>
    cases cs with
    | nil => rfl
    | cons c cs => rw [replaceFrom, ih, List.drop_succ_cons]

theorem replaced_replaceFrom (hpattern : pattern ≠ []) (cs : List Char) :
    Replaced pattern replacement cs (replaceFrom pattern replacement 0 cs) := by
  obtain ⟨p, ps, rfl⟩ := List.exists_cons_of_ne_nil hpattern
  -- an occurrence takes the search on by its whole length
  induction hlen : cs.length using Nat.strongRecOn generalizing cs with
  | _ len ih =>
  subst hlen
  cases cs with
  | nil => exact .done
  | cons c cs =>
    rw [replaceFrom]
    split
    · next hprefix =>
      obtain ⟨rest, hrest⟩ := List.isPrefixOf_iff_prefix.mp hprefix
      rw [List.cons_append] at hrest
      obtain ⟨rfl, rfl⟩ := List.cons.inj hrest
      rw [replaceFrom_skip, List.length_cons, Nat.add_sub_cancel, List.drop_left]
      exact .found (ih _ (by simp only [List.length_cons, List.length_append]; omega) _ rfl)
    · next hno =>
      refine .kept (fun hprefix => hno (List.isPrefixOf_iff_prefix.mpr hprefix)) ?_
      exact ih _ (by simp) _ rfl

theorem replaced_replace {s pattern : String} (hs : s.toList = cs) (hpattern : pattern ≠ "")
    (replacement : String) :
    Replaced pattern.toList replacement.toList cs (replace s pattern replacement).toList := by
  rw [replace, String.toList_ofList, hs]
  exact replaced_replaceFrom (by simpa using hpattern) cs

theorem Replaced.unique (hpattern : pattern ≠ []) (h : Replaced pattern replacement cs ds)
    (h' : Replaced pattern replacement cs es) : ds = es := by
  induction h generalizing es with
  | done =>
    generalize hcs : ([] : List Char) = cs at h'
    cases h' with
    | done => rfl
    | found => exact absurd (List.append_eq_nil_iff.mp hcs.symm).1 hpattern
    | kept => cases hcs
  | @found cs ds h ih =>
    generalize hcs : pattern ++ cs = cs' at h'
    cases h' with
    | done => exact absurd (List.append_eq_nil_iff.mp hcs).1 hpattern
    | found h' => rw [ih (List.append_cancel_left hcs ▸ h')]
    | kept hno => exact absurd ⟨cs, hcs⟩ hno
  | @kept c cs ds hno h ih =>
    generalize hcs : c :: cs = cs' at h'
    cases h' with
    | done => cases hcs
    | found => exact absurd ⟨_, hcs.symm⟩ hno
    | kept _ h' =>
      cases hcs
      rw [ih h']

end Lispbox.Text
