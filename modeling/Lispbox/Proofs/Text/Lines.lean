import Lispbox.Proofs.Form.Scanning
import Lispbox.Text.Lines
import Mathlib.Data.List.Induction

/-!
# Places and lines, counted afresh

The reader moves its position from character to character, and a text is cut into lines by a rule of
its own. Here both are said of the text alone: a place is told by the text in front of it
(`Pos.behind`), and a line by what it stands between (`Text.IsLine`).

* `Pos.afterAll_start`: the place behind a text, where the reader arrives at, is the one that is
  counted afresh.
* `isLine_lineText`: for every line that a text has, and for the empty one behind its last line
  feed, `lineText` gives what stands there.
-/
namespace Lispbox

namespace Text

/-- The characters behind the last line feed. -/
def lastLine (before : List Char) : List Char :=
  (before.reverse.takeWhile (· != '\n')).reverse

/-- Behind the text a line starts. -/
def AtLine (before : List Char) : Prop := ∀ c ∈ before.getLast?, c = '\n'

/-- `line` is the text of line `n`, counted from 1. What ends the line is left out: a line feed,
with a carriage return if there is one before it, or the end of the source. -/
def IsLine (source : List Char) (n : Nat) (line : List Char) : Prop :=
  ∃ before ending after, source = before ++ (line ++ (ending ++ after)) ∧
    AtLine before ∧ n = 1 + before.count '\n' ∧ '\n' ∉ line ∧
    (ending = [] ∧ after = [] ∨ ending = ['\r', '\n'] ∨
      ending = ['\n'] ∧ line.getLast? ≠ some '\r')

variable {source before line rest seen : List Char} {n : Nat}

theorem lastLine_snoc (before : List Char) (c : Char) :
    lastLine (before ++ [c]) = if c = '\n' then [] else lastLine before ++ [c] := by
  unfold lastLine
  by_cases hc : c = '\n'
  · simp [hc]
  · simp [hc]

theorem atLine_nil : AtLine [] := by simp [AtLine]

theorem atLine_newline (before : List Char) : AtLine (before ++ ['\n']) := by simp [AtLine]

/-- Where a line starts, the text in front of it is empty or ends in a line feed. -/
theorem AtLine.cases (h : AtLine before) : before = [] ∨ ∃ cs, before = cs ++ ['\n'] := by
  rcases List.eq_nil_or_concat before with rfl | ⟨cs, c, rfl⟩
  · exact .inl rfl
  · rw [List.concat_eq_append] at h ⊢
    cases h c (by simp)
    exact .inr ⟨cs, rfl⟩

/-- The place where a line starts is told by the number of the line. -/
theorem AtLine.unique {before' rest' : List Char} (h : AtLine before) (h' : AtLine before')
    (hsource : before ++ rest = before' ++ rest')
    (hcount : before.count '\n' = before'.count '\n') : before = before' := by
  have hend {cs ds : List Char} (hd : AtLine (cs ++ ds))
      (hc : cs.count '\n' = (cs ++ ds).count '\n') : cs = cs ++ ds := by
    rcases List.eq_nil_or_concat ds with rfl | ⟨ds, d, rfl⟩
    · simp
    · rw [List.concat_eq_append] at hd hc
      cases hd d (by simp)
      simp at hc
  rcases List.append_eq_append_iff.mp hsource with ⟨ds, rfl, -⟩ | ⟨ds, rfl, -⟩
  · exact hend h' hcount
  · exact (hend h hcount.symm).symm

/-- What is in front of a place: the lines before its line, and what stands on its line. -/
theorem exists_atLine (before : List Char) :
    ∃ above, before = above ++ lastLine before ∧ AtLine above ∧ '\n' ∉ lastLine before := by
  induction before using List.reverseRecOn with
  | nil => exact ⟨[], rfl, atLine_nil, by simp [lastLine]⟩
  | append_singleton before c ih =>
    rw [lastLine_snoc]
    by_cases hc : c = '\n'
    · subst hc
      rw [if_pos rfl]
      exact ⟨_, (List.append_nil _).symm, atLine_newline before, List.not_mem_nil⟩
    · obtain ⟨above, hbefore, habove, hline⟩ := ih
      rw [if_neg hc]
      refine ⟨above, by rw [← List.append_assoc, ← hbefore], habove, ?_⟩
      simp [hline, Ne.symm hc]

/-! ## Cutting into lines -/

/-- The line that is being read ends with the next line feed. -/
theorem linesFrom_append (h : '\n' ∉ line) :
    linesFrom seen (line ++ '\n' :: rest) =
      (dropReturn (line.reverse ++ seen)).reverse :: linesFrom [] rest := by
  induction line generalizing seen with
  | nil => exact linesFrom_newline seen rest
  | cons c line ih =>
    obtain ⟨hc, hline⟩ : '\n' ≠ c ∧ '\n' ∉ line := by simpa using h
    rw [List.cons_append, linesFrom, if_neg (Ne.symm hc), ih hline, List.reverse_cons,
      List.append_assoc]
    rfl

/-- The last line has no ending. -/
theorem linesFrom_last (h : '\n' ∉ line) :
    linesFrom seen line = if seen = [] ∧ line = [] then [] else [seen.reverse ++ line] := by
  induction line generalizing seen with
  | nil => cases seen <;> simp [linesFrom]
  | cons c line ih =>
    obtain ⟨hc, hline⟩ : '\n' ≠ c ∧ '\n' ∉ line := by simpa using h
    rw [linesFrom, if_neg (Ne.symm hc), ih hline]
    simp

/-- Lines are cut alike whatever is in front of the first of them. -/
theorem getElem?_lines (h : AtLine before) :
    (linesFrom [] (before ++ rest))[before.count '\n']? = (linesFrom [] rest)[0]? := by
  generalize hlen : before.length = len
  induction len using Nat.strongRecOn generalizing before with
  | _ len ih =>
  subst hlen
  by_cases hmem : '\n' ∈ before
  · obtain ⟨line, below, rfl, hline⟩ := List.eq_append_cons_of_mem hmem
    have hbelow : AtLine below := by
      intro c hc
      refine h c ?_
      rw [List.getLast?_append, List.getLast?_cons, Option.mem_def.mp hc]
      rfl
    rw [List.append_assoc, List.cons_append, linesFrom_append hline, List.count_append,
      List.count_eq_zero_of_not_mem hline, List.count_cons_self, Nat.zero_add,
      List.getElem?_cons_succ]
    exact ih _ (by simp only [List.length_append, List.length_cons]; omega) hbelow rfl
  · rcases h.cases with rfl | ⟨cs, rfl⟩
    · rfl
    · simp at hmem

/-- The line that starts where a line starts. -/
theorem lineText_behind {s : String} (hs : s.toList = before ++ rest) (h : AtLine before) :
    (lineText s (1 + before.count '\n')).toList = (linesFrom [] rest)[0]?.getD [] := by
  unfold lineText lines
  rw [hs, Nat.add_sub_cancel_left, List.getElem?_map, getElem?_lines h]
  cases (linesFrom [] rest)[0]? with
  | none => rfl
  | some line => simp

/-- A line starts with what stands in front of a character that is no part of its ending. -/
theorem exists_line_head {c : Char} (hline : '\n' ∉ line) (hnewline : c ≠ '\n')
    (hreturn : c ≠ '\r') (rest : List Char) :
    ∃ more, (linesFrom [] (line ++ c :: rest))[0]? = some (line ++ c :: more) := by
  have hkeep (l : List Char) :
      ∃ more, dropReturn (l.reverse ++ c :: line.reverse) = more ++ c :: line.reverse := by
    cases l.reverse with
    | nil =>
      refine ⟨[], ?_⟩
      rw [List.nil_append, dropReturn]
      rintro cs ⟨⟩
      exact hreturn rfl
    | cons x xs =>
      rw [List.cons_append]
      unfold dropReturn
      split
      · next h =>
        cases h
        exact ⟨xs, rfl⟩
      · exact ⟨x :: xs, rfl⟩
  by_cases hmem : '\n' ∈ rest
  · obtain ⟨l, below, rfl, hl⟩ := List.eq_append_cons_of_mem hmem
    have hfirst : '\n' ∉ line ++ c :: l := by simp [hline, hl, Ne.symm hnewline]
    obtain ⟨more, hmore⟩ := hkeep l
    refine ⟨more.reverse, ?_⟩
    rw [← List.cons_append, ← List.append_assoc, linesFrom_append hfirst, List.append_nil,
      List.reverse_append, List.reverse_cons, List.append_assoc, List.singleton_append, hmore]
    simp
  · have hlast : '\n' ∉ line ++ c :: rest := by simp [hline, hmem, Ne.symm hnewline]
    exact ⟨rest, by rw [linesFrom_last hlast]; simp⟩

/-- The line without its carriage return, and what ends it. -/
theorem exists_ending (line : List Char) :
    ∃ ending, line ++ ['\n'] = (dropReturn line.reverse).reverse ++ ending ∧
      (ending = ['\r', '\n'] ∨
        ending = ['\n'] ∧ (dropReturn line.reverse).reverse.getLast? ≠ some '\r') := by
  rcases List.eq_nil_or_concat line with rfl | ⟨cs, c, rfl⟩
  · exact ⟨['\n'], rfl, .inr ⟨rfl, by simp [dropReturn]⟩⟩
  · rw [List.concat_eq_append, List.reverse_append]
    by_cases hc : c = '\r'
    · subst hc
      exact ⟨['\r', '\n'], by simp [dropReturn], .inl rfl⟩
    · refine ⟨['\n'], ?_, .inr ⟨rfl, ?_⟩⟩ <;> simp [dropReturn, hc]

/-- Where a line starts, `lineText` gives the line. -/
theorem isLine_of_atLine {s : String} (hs : s.toList = before ++ rest) (h : AtLine before) :
    IsLine s.toList (1 + before.count '\n') (lineText s (1 + before.count '\n')).toList := by
  rw [lineText_behind hs h, hs]
  by_cases hmem : '\n' ∈ rest
  · obtain ⟨line, after, rfl, hline⟩ := List.eq_append_cons_of_mem hmem
    obtain ⟨ending, hsplit, hending⟩ := exists_ending line
    rw [linesFrom_append hline, List.append_nil, List.getElem?_cons_zero, Option.getD_some]
    have hsource : line ++ '\n' :: after =
        (dropReturn line.reverse).reverse ++ (ending ++ after) := by
      rw [← List.append_assoc, ← hsplit, List.append_assoc, List.singleton_append]
    refine ⟨before, ending, after, by rw [hsource], h, rfl, ?_, .inr hending⟩
    intro hmem
    rw [List.mem_reverse] at hmem
    have : '\n' ∈ line.reverse := by
      unfold dropReturn at hmem
      split at hmem
      · next heq => rw [heq]; exact List.mem_cons_of_mem _ hmem
      · exact hmem
    exact hline (List.mem_reverse.mp this)
  · have hline : (linesFrom [] rest)[0]?.getD [] = rest := by
      rw [linesFrom_last hmem]
      cases rest <;> simp
    rw [hline]
    exact ⟨before, [], [], by simp, h, rfl, hmem, .inl ⟨rfl, rfl⟩⟩

/-- Every number up to the last one is that of a place where a line starts. -/
theorem exists_line (source : List Char) (hn : n ≤ source.count '\n') :
    ∃ before rest, source = before ++ rest ∧ AtLine before ∧ before.count '\n' = n := by
  induction n with
  | zero => exact ⟨[], source, rfl, atLine_nil, rfl⟩
  | succ n ih =>
    obtain ⟨before, rest, rfl, h, rfl⟩ := ih (by omega)
    rw [List.count_append] at hn
    have hmem : '\n' ∈ rest := List.count_pos_iff.mp (by omega)
    obtain ⟨line, below, rfl, hline⟩ := List.eq_append_cons_of_mem hmem
    refine ⟨before ++ line ++ ['\n'], below, by simp, atLine_newline _, ?_⟩
    simp [List.count_eq_zero_of_not_mem hline]

theorem isLine_lineText (s : String) (h1 : 1 ≤ n) (hn : n ≤ 1 + s.toList.count '\n') :
    IsLine s.toList n (lineText s n).toList := by
  obtain ⟨before, rest, hs, h, hcount⟩ := exists_line s.toList (n := n - 1) (by omega)
  have hline := isLine_of_atLine hs h
  rw [hcount, show 1 + (n - 1) = n by omega] at hline
  exact hline

end Text

open Text

namespace Pos

/-- The place behind a text, counted afresh: a line for every line feed, and a column for every byte
behind the last one. -/
def behind (before : List Char) : Pos :=
  ⟨1 + before.count '\n', 1 + (String.ofList (lastLine before)).utf8ByteSize⟩

theorem behind_snoc (before : List Char) (c : Char) :
    behind (before ++ [c]) = (behind before).after c := by
  unfold behind Pos.after
  rw [lastLine_snoc]
  by_cases hc : c = '\n'
  · simp [hc, Nat.add_assoc]
  · simp [hc, Nat.add_assoc]

theorem afterAll_start (before : List Char) : start.afterAll before = behind before := by
  induction before using List.reverseRecOn with
  | nil => simp [afterAll, behind, start, lastLine]
  | append_singleton before c ih =>
    rw [afterAll_append, ih, behind_snoc]
    rfl

theorem afterAll_behind (before cs : List Char) :
    (behind before).afterAll cs = behind (before ++ cs) := by
  rw [← afterAll_start, ← afterAll_start, afterAll_append]

end Pos
end Lispbox
