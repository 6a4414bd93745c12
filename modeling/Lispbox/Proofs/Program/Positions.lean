import Lispbox.Proofs.Program.Code

/-!
# Positions

The position of a form is that of its token in the text, and the position of a refusal is on a line
of the text, which the error quotes. Both are said of the text alone: places are counted afresh
(`Pos.behind`), and a line is what stands between line feeds (`Text.IsLine`).

* `compile_refused`: a source is refused on one of its lines.
* `positions_exact`: where the forms of a source are, and what an error says of its place.
-/
namespace Lispbox
open Lispbox.Text (AtLine IsLine)

variable {source file : String} {maxDepth : Nat}

/-- The forms of a source are on lines of the source. -/
theorem HasForm.inLines {fs : List Form} (h : parse source file maxDepth = .ok fs) {pos : Pos}
    (hpos : HasForm (· ∈ formsWithin fs) pos) : pos.InLines (1 + source.toList.count '\n') := by
  obtain ⟨f, hf, rfl⟩ := hpos
  obtain ⟨before, after, hsource, hplace, -, -⟩ := parse_places h hf
  rw [hplace, hsource, List.count_append]
  exact ⟨Nat.le_add_right 1 _, Nat.add_le_add_left (Nat.le_add_right _ _) 1⟩

/-- The error of a refused source is one of a place on a line of the source. -/
theorem compile_refused {e : CompileError} (h : compile source file maxDepth = .error e) :
    ∃ pos message, e = CompileError.at file source pos message ∧
      pos.InLines (1 + source.toList.count '\n') := by
  unfold compile parse at h
  cases hforms : readForms maxDepth source with
  | error refusal =>
    rw [hforms] at h
    cases h
    exact ⟨refusal.1, _, rfl, readForms_refused hforms⟩
  | ok fs =>
    have hparse : parse source file maxDepth = .ok fs := by
      rw [parse, hforms]
      rfl
    have hsettles := settles_forms file fs
    rw [hforms] at h
    change Program.ofForms source file fs = .error e at h
    unfold Program.ofForms at h
    split at h
    · cases h
    · next pos flaw hrefused =>
      cases h
      rw [hrefused] at hsettles
      exact ⟨pos, _, rfl, hsettles.inLines hparse⟩

/-- Every form of a source that is read, at any depth, is at the place where its token starts: its
line is told by the line feeds in front of the token, and its column by the bytes behind the last of
them. So the forms of a source are those of a layout of it, each at its place, and in reading order
their places increase. If a source is refused, the error names a line that the source has, or the
empty one behind its last line feed, and quotes this line without its ending. -/
theorem positions_exact (source file : String) (maxDepth : Nat) :
    (∀ fs, parse source file maxDepth = .ok fs →
      (∃ l : Layout, l.Legal true ∧ l.render = source.toList ∧ l.placed [] = fs) ∧
      (∀ f ∈ formsWithin fs, ∃ before after, source.toList = before ++ after ∧
        f.pos = Pos.behind before ∧ f.Opens after) ∧
      (formsWithin fs).Pairwise fun f g => f.pos.Before g.pos) ∧
    ∀ e, compile source file maxDepth = .error e →
      1 ≤ e.line ∧ e.line ≤ 1 + source.toList.count '\n' ∧
      IsLine source.toList e.line e.sourceLine.toList ∧
      (AtLine source.toList → e.line = 1 + source.toList.count '\n' → e.sourceLine = "") := by
  refine ⟨fun fs h => ⟨?_, fun f hf => ?_, ?_⟩, fun e h => ?_⟩
  · obtain ⟨l, hl, hrender, rfl⟩ := exists_layout h
    exact ⟨l, hl, hrender, (l.forms_behind []).symm⟩
  · obtain ⟨before, after, hsource, hpos, -, hopens⟩ := parse_places h hf
    exact ⟨before, after, hsource, hpos, hopens⟩
  · obtain ⟨l, hl, -, rfl⟩ := exists_layout h
    exact Layout.ordered hl .start
  · obtain ⟨pos, message, rfl, hone, hlast⟩ := compile_refused h
    refine ⟨hone, hlast, Text.isLine_lineText source hone hlast, fun hend hline => ?_⟩
    rw [← String.toList_inj]
    change (Text.lineText source pos.line).toList = _
    rw [show pos.line = _ from hline,
      Text.lineText_behind (List.append_nil source.toList).symm hend]
    rfl

namespace Positions

/-- A text across two lines between two words, and a comment. -/
def accepted : String := "(f ;c\n \"é\nb\" :k)"

/-- The second line has no name to bind. -/
def refused : String := "(let\r\n 5 nil)\r\n"

theorem exists_of_isOk {ε α : Type} {x : Except ε α} (h : x.isOk = true) : ∃ a, x = .ok a := by
  cases x with
  | ok a => exact ⟨a, rfl⟩
  | error e => cases h

theorem exists_of_not_isOk {ε α : Type} {x : Except ε α} (h : x.isOk = false) :
    ∃ e, x = .error e := by
  cases x with
  | ok a => cases h
  | error e => exact ⟨e, rfl⟩

theorem positions_exact_refused :
    (∃ fs, parse accepted "main" 9 = .ok fs ∧
      (∀ f ∈ formsWithin fs, ∃ before after, accepted.toList = before ++ after ∧
        f.pos = Pos.behind before ∧ f.Opens after) ∧
      (formsWithin fs).Pairwise fun f g => f.pos.Before g.pos) ∧
    ∃ e, compile refused "main" 9 = .error e ∧ e.line ≤ 3 ∧
      IsLine refused.toList e.line e.sourceLine.toList := by
  obtain ⟨fs, hfs⟩ := exists_of_isOk (x := parse accepted "main" 9) (by decide +kernel)
  obtain ⟨e, he⟩ := exists_of_not_isOk (x := compile refused "main" 9) (by decide +kernel)
  obtain ⟨-, hplaces, hordered⟩ := (positions_exact accepted "main" 9).1 fs hfs
  obtain ⟨-, hlast, hline, -⟩ := (positions_exact refused "main" 9).2 e he
  exact ⟨⟨fs, hfs, hplaces, hordered⟩, e, he, hlast, hline⟩

end Positions
end Lispbox
