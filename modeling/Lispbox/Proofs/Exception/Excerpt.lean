import Lispbox.Exception.Explanation
import Lispbox.Proofs.Text.Numerals
import Lispbox.Proofs.Text.Pieces
import Mathlib.Data.List.SplitBy

/-!
# Excerpts of tracebacks

`locate` cuts a text into lines and looks for two of them. What it makes of the lines is a part of
the text again.

* `infix_pieces`: what occurs in a text and has no separator occurs in one of its pieces.
* `locate_eq`: the excerpt, where the lines of the text are known.
* `part_of_lines`: lines that stand together are a contiguous part of the text.
* `render_lines`: the lines of the traceback of an exception that has frames.
-/
namespace Lispbox

namespace Text

variable {separator : Char} {pattern cs : List Char}

theorem occursIn_iff : occursIn pattern cs = true ↔ pattern <:+: cs := by
  induction cs with
  | nil => simp [occursIn]
  | cons c cs ih => simp [occursIn, ih, List.infix_cons_iff]

theorem contains_iff {s pattern : String} :
    contains s pattern = true ↔ pattern.toList <:+: s.toList := occursIn_iff

theorem contains_append (before : String) {s pattern : String} (h : contains s pattern = true) :
    contains (before ++ s) pattern = true := by
  rw [contains_iff, String.toList_append]
  exact (contains_iff.mp h).trans (List.suffix_append _ _).isInfix

/-! ## Pieces -/

/-- What a text begins with and has no separator, its first piece begins with. -/
theorem prefix_pieces (h : separator ∉ pattern) (hp : pattern <+: cs) :
    ∃ p ps, pieces separator cs = p :: ps ∧ pattern <+: p := by
  induction pattern generalizing cs with
  | nil =>
    obtain ⟨p, ps, hcut⟩ := List.exists_cons_of_ne_nil (pieces_ne_nil separator cs)
    exact ⟨p, ps, hcut, List.nil_prefix⟩
  | cons c pattern ih =>
    obtain ⟨hc, hpattern⟩ : separator ≠ c ∧ separator ∉ pattern := by simpa using h
    obtain ⟨rest, rfl⟩ := hp
    obtain ⟨p, ps, hcut, hprefix⟩ := ih hpattern (List.prefix_append pattern rest)
    refine ⟨c :: p, ps, ?_, List.cons_prefix_cons.mpr ⟨rfl, hprefix⟩⟩
    rw [List.cons_append, pieces, if_neg (Ne.symm hc), hcut]

theorem infix_pieces (h : separator ∉ pattern) (hp : pattern <:+: cs) :
    ∃ p ∈ pieces separator cs, pattern <:+: p := by
  induction cs with
  | nil => exact ⟨[], List.mem_singleton.mpr rfl, hp⟩
  | cons c cs ih =>
    rcases List.infix_cons_iff.mp hp with hp | hp
    · obtain ⟨p, ps, hcut, hprefix⟩ := prefix_pieces h hp
      exact ⟨p, by simp [hcut], hprefix.isInfix⟩
    · obtain ⟨p, hmem, hinfix⟩ := ih hp
      by_cases hc : c = separator
      · subst hc
        exact ⟨p, by simp [pieces_cons_separator, hmem], hinfix⟩
      · obtain ⟨q, qs, hcut⟩ := List.exists_cons_of_ne_nil (pieces_ne_nil separator cs)
        rw [hcut] at hmem
        rw [pieces, if_neg hc, hcut]
        rcases List.mem_cons.mp hmem with rfl | hmem
        · exact ⟨c :: p, List.mem_cons_self, List.infix_cons hinfix⟩
        · exact ⟨p, List.mem_cons_of_mem _ hmem, hinfix⟩

/-! ## Lines -/

theorem split_line {line : String} (h : '\n' ∉ line.toList) (s : String) :
    split '\n' (line ++ ("\n" ++ s)) = line :: split '\n' s := by
  have hnewline : (line ++ ("\n" ++ s)).toList = line.toList ++ '\n' :: s.toList := by
    simp [String.toList_append]
  rw [split, hnewline, pieces_append h, List.map_cons, String.ofList_toList, split]

/-- A text is mentioned in a line; there is a first one. -/
theorem split_of_contains {s pattern : String} (h : '\n' ∉ pattern.toList)
    (hs : contains s pattern = true) :
    ∃ before first after, split '\n' s = before ++ first :: after ∧
      (∀ l ∈ before, contains l pattern = false) ∧ contains first pattern = true := by
  obtain ⟨p, hp, hinfix⟩ := infix_pieces h (contains_iff.mp hs)
  have hline : ((split '\n' s).find? (contains · pattern)).isSome = true :=
    List.find?_isSome.mpr ⟨.ofList p, List.mem_map_of_mem hp,
      contains_iff.mpr (by rwa [String.toList_ofList])⟩
  obtain ⟨first, hfirst⟩ := Option.isSome_iff_exists.mp hline
  obtain ⟨hmentioned, before, after, hlines, hbefore⟩ := List.find?_eq_some_iff_append.mp hfirst
  exact ⟨before, first, after, hlines, by simpa using hbefore, hmentioned⟩

theorem join_split (s : String) : "\n".intercalate (split '\n' s) = s := by
  refine String.toList_inj.mp ?_
  have hlines : (split '\n' s).map String.toList = pieces '\n' s.toList := by
    simp [split, Function.comp_def]
  rw [String.toList_intercalate, hlines]
  exact join_pieces '\n' s.toList

/-- Lines that stand together are a contiguous part of the text. -/
theorem part_of_lines {s : String} {before part after : List String}
    (h : split '\n' s = before ++ (part ++ after)) (hpart : part ≠ []) :
    ∃ start rest, s = start ++ ("\n".intercalate part ++ rest) := by
  have hrest : ∃ rest, "\n".intercalate (part ++ after) = "\n".intercalate part ++ rest := by
    by_cases hafter : after = []
    · exact ⟨"", by simp [hafter]⟩
    · exact ⟨"\n" ++ "\n".intercalate after, by
        rw [String.intercalate_append_of_ne_nil hpart hafter, String.append_assoc]⟩
  obtain ⟨rest, hrest⟩ := hrest
  rw [← join_split s, h]
  by_cases hbefore : before = []
  · exact ⟨"", rest, by simp [hbefore, hrest]⟩
  · refine ⟨"\n".intercalate before ++ "\n", rest, ?_⟩
    rw [String.intercalate_append_of_ne_nil hbefore (by simp [hpart]), hrest]

end Text

open Text

/-- The excerpt of a text with the given lines: `first` is the first one that mentions the file, and
`last` the first one below it that mentions the name. -/
theorem locate_eq {text file name first last : String} {before inner after : List String}
    (hlines : split '\n' text = before ++ first :: (inner ++ last :: after))
    (hbefore : ∀ l ∈ before, contains l file = false) (hfirst : contains first file = true)
    (hinner : ∀ l ∈ inner, contains l name = false) (hlast : contains last name = true) :
    locate text file name = "\n".intercalate (first :: (inner ++ [last])) := by
  unfold locate
  rw [hlines, List.dropWhile_append_of_pos (by simpa using hbefore),
    List.dropWhile_cons_of_neg (by simpa using hfirst)]
  dsimp only
  rw [List.dropWhile_append_of_pos (by simpa using hinner),
    List.dropWhile_cons_of_neg (by simpa using hlast),
    List.takeWhile_append_of_pos (by simpa using hinner),
    List.takeWhile_cons_of_neg (by simpa using hlast)]
  simp

/-! ## Tracebacks -/

/-- The first line of a frame. -/
def TraceFrame.headline (f : TraceFrame) : String :=
  "  File \"" ++ f.file ++ "\", line " ++ toString f.line ++ ", in " ++ f.function

theorem TraceFrame.headline_eq (f : TraceFrame) : f.headline =
    "  File \"" ++ f.file ++ "\", line " ++ toString f.line ++ ", in " ++ f.function := rfl

theorem TraceFrame.contains_headline (f : TraceFrame) : contains f.headline f.file = true := by
  rw [contains_iff, headline_eq]
  simp only [String.toList_append, List.append_assoc]
  exact ⟨_, _, (List.append_assoc _ _ _).trans rfl⟩

theorem TraceFrame.headline_single_line {f : TraceFrame} (hfile : '\n' ∉ f.file.toList)
    (hfunction : '\n' ∉ f.function.toList) : '\n' ∉ f.headline.toList := by
  simp [headline_eq, hfile, hfunction, lineFeed_not_mem_toDigits]

theorem Exception.contains_summary (e : Exception) : contains e.summary e.name = true := by
  rw [contains_iff, summary]
  split
  · exact List.infix_rfl
  · simp only [String.toList_append, List.append_assoc]
    exact (List.prefix_append _ _).isInfix

theorem TraceFrame.render_eq (f : TraceFrame) :
    ∃ rest, f.render = f.headline ++ ("\n" ++ rest) :=
  ⟨_, String.append_assoc⟩

/-- A run of frames begins with the first line of its first frame. -/
theorem renderRun_cons (f : TraceFrame) (run : List TraceFrame) :
    ∃ rest, renderRun (f :: run) = f.headline ++ ("\n" ++ rest) := by
  obtain ⟨rest, hrest⟩ := f.render_eq
  simp only [renderRun, shownRepetitions, List.take_succ_cons, List.map_cons, String.join_cons,
    hrest, String.append_assoc]
  exact ⟨_, rfl⟩

theorem splitBy_cons {α : Type} (r : α → α → Bool) (a : α) (l : List α) :
    ∃ run runs, (a :: l).splitBy r = (a :: run) :: runs := by
  have hflatten := List.flatten_splitBy r (a :: l)
  have hnil := List.nil_notMem_splitBy r (a :: l)
  match hruns : (a :: l).splitBy r with
  | [] => simp [hruns] at hflatten
  | [] :: runs => simp [hruns] at hnil
  | (b :: run) :: runs =>
    rw [hruns, List.flatten_cons, List.cons_append] at hflatten
    rw [(List.cons.inj hflatten).1]
    exact ⟨run, runs, rfl⟩

theorem Exception.render_cons {e : Exception} {f : TraceFrame} {fs : List TraceFrame}
    (he : e.frames = f :: fs) :
    ∃ rest, e.render = "Traceback (most recent call last):" ++ ("\n" ++ (f.headline ++ ("\n" ++
      (rest ++ e.summary)))) := by
  obtain ⟨run, runs, hruns⟩ := splitBy_cons (· == ·) f fs
  obtain ⟨rest, hrest⟩ := renderRun_cons f run
  refine ⟨rest ++ String.join (runs.map renderRun), ?_⟩
  rw [render, he, hruns, List.map_cons, String.join_cons, hrest]
  simp only [String.append_assoc]
  rfl

/-- The lines of a traceback: below those of the header and of the outermost frame there is a first
one that mentions the exception. -/
theorem Exception.render_lines {e : Exception} {f : TraceFrame} {fs : List TraceFrame}
    (he : e.frames = f :: fs) (hfile : '\n' ∉ f.file.toList)
    (hfunction : '\n' ∉ f.function.toList) (hname : '\n' ∉ e.name.toList) :
    ∃ inner last after,
      split '\n' e.render =
        "Traceback (most recent call last):" :: f.headline :: (inner ++ last :: after) ∧
      (∀ l ∈ inner, contains l e.name = false) ∧ contains last e.name = true := by
  obtain ⟨rest, hrender⟩ := render_cons he
  obtain ⟨inner, last, after, hlines, hinner, hlast⟩ :=
    split_of_contains hname (contains_append rest e.contains_summary)
  refine ⟨inner, last, after, ?_, hinner, hlast⟩
  rw [hrender, split_line (by decide), split_line (f.headline_single_line hfile hfunction), hlines]

/-- The excerpt in the explanation of an exception for the file of its outermost frame. -/
theorem Exception.excerpt {e : Exception} {f : TraceFrame} {fs : List TraceFrame}
    (he : e.frames = f :: fs) (hfile : '\n' ∉ f.file.toList)
    (hfunction : '\n' ∉ f.function.toList) (hname : '\n' ∉ e.name.toList)
    (hheader : contains "Traceback (most recent call last):" f.file = false) (x : Explainer) :
    ∃ inner last after,
      split '\n' (e.explain f.file x).traceback =
        "Traceback (most recent call last):" :: f.headline :: (inner ++ last :: after) ∧
      (∀ l ∈ inner, contains l e.name = false) ∧ contains last e.name = true ∧
      (e.explain f.file x).whereText = "\n".intercalate (f.headline :: (inner ++ [last])) ∧
      (e.explain f.file x).whereText ≠ "" ∧
      ∃ start rest,
        (e.explain f.file x).traceback = start ++ ((e.explain f.file x).whereText ++ rest) := by
  obtain ⟨inner, last, after, hlines, hinner, hlast⟩ := render_lines he hfile hfunction hname
  have hcut : split '\n' e.render =
      ["Traceback (most recent call last):"] ++ f.headline :: (inner ++ last :: after) := hlines
  have hexcerpt := locate_eq hcut (List.forall_mem_singleton.mpr hheader) f.contains_headline
    hinner hlast
  simp only [Exception.explain]
  rw [hexcerpt]
  refine ⟨inner, last, after, hlines, hinner, hlast, rfl, ?_, ?_⟩
  · rw [String.intercalate_cons_of_ne_nil (by simp), TraceFrame.headline_eq]
    intro hempty
    simpa using congrArg String.toList hempty
  · have hpart : split '\n' e.render =
        ["Traceback (most recent call last):"] ++ (f.headline :: (inner ++ [last]) ++ after) :=
      hcut.trans (by simp)
    exact part_of_lines hpart (List.cons_ne_nil _ _)

end Lispbox
