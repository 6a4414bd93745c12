import Lispbox.Proofs.Exception.Excerpt

/-!
# Reading tracebacks

A traceback counts the frames of a run of equal ones that it does not show. `readTraceback?` takes
it back line by line: a headline begins an entry, a source line belongs to the entry above it, and a
count adds copies to it. It stops at the first line that is not indented.

* `readFrames?_render`, `readFrames?_renderRun`: what is read of a frame, and of a run of equal
  ones.
* `isRuns_splitBy`: the runs that are rendered are the longest ones.
* `folding_lossless`: what is read of the traceback of an exception are all of its frames, and the
  summary is left.
-/
namespace Lispbox
open Lispbox.Text

/-! ## A reader -/

/-- A frame of a traceback, and how many further copies of it are counted. -/
structure Listed where
  frame : TraceFrame
  more : Nat
  deriving DecidableEq, Repr

/-- The frames that an entry stands for. -/
def Listed.frames (l : Listed) : List TraceFrame := List.replicate (l.more + 1) l.frame

/-- A line of a traceback between its first line and the summary. -/
inductive TraceLine where
  | headline (file : String) (line : Nat) (function : String)
  | source (text : String)
  | repeated (n : Nat)
  deriving DecidableEq, Repr

namespace TraceLine

/-- A number at the start, and what follows it. -/
def number? (cs : List Char) : Option (Nat × List Char) :=
  let digits := cs.takeWhile Char.isDigit
  if digits.isEmpty then none else some (digitsValue digits, cs.dropWhile Char.isDigit)

/-- A file name ends at the first double quote. -/
def headline? (cs : List Char) : Option TraceLine := do
  let cs ← "  File \"".toList.isPrefixOf? cs
  let file := cs.takeWhile (· != '"')
  let cs ← "\", line ".toList.isPrefixOf? (cs.dropWhile (· != '"'))
  let (line, cs) ← number? cs
  let function ← ", in ".toList.isPrefixOf? cs
  return .headline (String.ofList file) line (String.ofList function)

/-- A count of frames that are not shown. -/
def repeated? (cs : List Char) : Option TraceLine := do
  let cs ← "  [Previous line repeated ".toList.isPrefixOf? cs
  let (n, cs) ← number? cs
  if cs = " more times]".toList then return .repeated n else none

/-- A source line is indented further than the others. -/
def source? (cs : List Char) : Option TraceLine :=
  ("    ".toList.isPrefixOf? cs).map fun text => .source (String.ofList text)

/-- What a line says; nothing if it says none of the three. -/
def ofLine? (line : String) : Option TraceLine :=
  (headline? line.toList).or ((repeated? line.toList).or (source? line.toList))

/-- The entries after a further line. They are kept last one first, and the line may complete the
last one. -/
def add? : TraceLine → List Listed → Option (List Listed)
  | headline file line function, seen => some (⟨⟨file, line, function, none⟩, 0⟩ :: seen)
  | source text, ⟨⟨file, line, function, none⟩, 0⟩ :: seen =>
    some (⟨⟨file, line, function, some text⟩, 0⟩ :: seen)
  | repeated n, l :: seen => some ({ l with more := l.more + n } :: seen)
  | _, _ => none

end TraceLine

/-- The line begins with two spaces. -/
def isIndented (line : String) : Bool := [' ', ' '].isPrefixOf line.toList

/-- Reads entries up to the first line that is not indented, and gives what is left. -/
def readFrames? (seen : List Listed) : List String → Option (List Listed × List String)
  | [] => some (seen.reverse, [])
  | line :: lines =>
    if isIndented line then
      ((TraceLine.ofLine? line).bind (·.add? seen)).bind fun seen => readFrames? seen lines
    else some (seen.reverse, line :: lines)

/-- Reads a traceback: its entries, and the text behind them. -/
def readTraceback? (text : String) : Option (List Listed × String) :=
  match split '\n' text with
  | [] => none
  | first :: lines =>
    if first = "Traceback (most recent call last):" then
      (readFrames? [] lines).map fun found => (found.1, "\n".intercalate found.2)
    else none

/-! ## What is read of a line -/

/-- The frame as it can be read: an empty source line is not shown. -/
def TraceFrame.shown (f : TraceFrame) : TraceFrame :=
  { f with sourceLine := f.sourceLine.filter (!·.isEmpty) }

/-- The fields of the frame stand on one line each, and the file name ends where its quotes do. -/
structure TraceFrame.IsPlain (f : TraceFrame) : Prop where
  file : '\n' ∉ f.file.toList
  file_quote : '"' ∉ f.file.toList
  function : '\n' ∉ f.function.toList
  source : ∀ text ∈ f.sourceLine, '\n' ∉ text.toList

instance (f : TraceFrame) : Decidable f.IsPlain :=
  decidable_of_iff ('\n' ∉ f.file.toList ∧ '"' ∉ f.file.toList ∧ '\n' ∉ f.function.toList ∧
      ∀ text ∈ f.sourceLine, '\n' ∉ text.toList)
    ⟨fun ⟨hfile, hquote, hfunction, hsource⟩ => ⟨hfile, hquote, hfunction, hsource⟩,
      fun h => ⟨h.file, h.file_quote, h.function, h.source⟩⟩

theorem isPrefixOf?_append (cs ds : List Char) : cs.isPrefixOf? (cs ++ ds) = some ds := by
  induction cs with
  | nil => rfl
  | cons c cs ih => simp [List.isPrefixOf?, ih]

namespace TraceLine

theorem number?_toDigits (n : Nat) {rest : List Char} (h : NoDigit rest) :
    number? (Nat.toDigits 10 n ++ rest) = some (n, rest) := by
  rw [number?, takeWhile_toDigits n h, dropWhile_toDigits n h, toDigits_isEmpty,
    digitsValue_toDigits]
  rfl

/-- A text without double quotes goes up to the first one behind it. -/
theorem upTo_quote {cs : List Char} (h : '"' ∉ cs) (rest : List Char) :
    (cs ++ '"' :: rest).takeWhile (· != '"') = cs ∧
      (cs ++ '"' :: rest).dropWhile (· != '"') = '"' :: rest := by
  have hquote : ∀ c ∈ cs, (c != '"') = true := fun c hc =>
    bne_iff_ne.mpr fun heq => h (heq ▸ hc)
  rw [List.takeWhile_append_of_pos hquote, List.dropWhile_append_of_pos hquote]
  exact ⟨List.append_nil cs, rfl⟩

theorem toList_headline (f : TraceFrame) :
    f.headline.toList = "  File \"".toList ++ (f.file.toList ++ ("\", line ".toList ++
      (Nat.toDigits 10 f.line ++ (", in ".toList ++ f.function.toList)))) := by
  simp [TraceFrame.headline_eq]

theorem ofLine?_headline {f : TraceFrame} (h : '"' ∉ f.file.toList) :
    ofLine? f.headline = some (.headline f.file f.line f.function) := by
  obtain ⟨rest, hrest⟩ : ∃ rest, '"' :: rest = "\", line ".toList ++
      (Nat.toDigits 10 f.line ++ (", in ".toList ++ f.function.toList)) := ⟨_, rfl⟩
  have hnumber : NoDigit (", in ".toList ++ f.function.toList) := by
    rintro _ ⟨⟩
    rfl
  have hread : headline? f.headline.toList = some (.headline f.file f.line f.function) := by
    rw [toList_headline, ← hrest, headline?, isPrefixOf?_append, Option.bind_eq_bind,
      Option.bind_some, (upTo_quote h rest).1, (upTo_quote h rest).2, hrest, isPrefixOf?_append,
      Option.bind_eq_bind, Option.bind_some, number?_toDigits _ hnumber, Option.bind_some]
    dsimp only
    rw [isPrefixOf?_append, Option.bind_some, String.ofList_toList, String.ofList_toList]
    rfl
  rw [ofLine?, hread]
  rfl

theorem ofLine?_source (text : String) : ofLine? ("    " ++ text) = some (.source text) := by
  have hline : ("    " ++ text).toList = "    ".toList ++ text.toList := String.toList_append
  have hheadline : headline? ("    ".toList ++ text.toList) = none := rfl
  have hrepeated : repeated? ("    ".toList ++ text.toList) = none := rfl
  rw [ofLine?, hline, hheadline, hrepeated, source?, isPrefixOf?_append]
  simp

/-- The line that counts frames. -/
def countLine (n : Nat) : String := "  [Previous line repeated " ++ toString n ++ " more times]"

theorem countLine_eq (n : Nat) :
    countLine n = "  [Previous line repeated " ++ toString n ++ " more times]" := rfl

theorem toList_countLine (n : Nat) : (countLine n).toList =
    "  [Previous line repeated ".toList ++ (Nat.toDigits 10 n ++ " more times]".toList) := by
  simp [countLine_eq]

theorem countLine_single_line (n : Nat) : '\n' ∉ (countLine n).toList := by
  rw [toList_countLine, List.mem_append, List.mem_append]
  exact not_or.mpr ⟨by decide, not_or.mpr ⟨lineFeed_not_mem_toDigits n, by decide⟩⟩

theorem ofLine?_countLine (n : Nat) : ofLine? (countLine n) = some (.repeated n) := by
  have hnumber : NoDigit " more times]".toList := by
    rintro _ ⟨⟩
    rfl
  have hheadline : headline? ("  [Previous line repeated ".toList ++
      (Nat.toDigits 10 n ++ " more times]".toList)) = none := rfl
  rw [ofLine?, toList_countLine, hheadline, repeated?, isPrefixOf?_append, Option.bind_eq_bind,
    Option.bind_some, number?_toDigits n hnumber, Option.bind_eq_bind, Option.bind_some]
  rfl

end TraceLine

/-! ## What is read of frames -/

theorem readFrames?_line {line : String} {l : TraceLine} {seen next : List Listed}
    (hindented : isIndented line = true) (hline : '\n' ∉ line.toList)
    (hl : TraceLine.ofLine? line = some l) (hnext : l.add? seen = some next) (s : String) :
    readFrames? seen (split '\n' (line ++ ("\n" ++ s))) = readFrames? next (split '\n' s) := by
  rw [split_line hline, readFrames?, if_pos hindented, hl, Option.bind_some, hnext,
    Option.bind_some]

theorem isIndented_countLine (n : Nat) : isIndented (TraceLine.countLine n) = true := by
  rw [isIndented, TraceLine.toList_countLine]
  rfl

theorem isIndented_headline (f : TraceFrame) : isIndented f.headline = true := by
  rw [isIndented, TraceLine.toList_headline]
  rfl

theorem TraceFrame.render_some (file : String) (line : Nat) (function text : String) :
    render ⟨file, line, function, some text⟩ =
      headline ⟨file, line, function, some text⟩ ++ "\n" ++
        if text.isEmpty then "" else "    " ++ text ++ "\n" := rfl

theorem TraceFrame.render_without_source {f : TraceFrame} (h : f.shown.sourceLine = none) :
    f.render = f.headline ++ "\n" := by
  obtain ⟨file, line, function, _ | text⟩ := f
  · exact String.append_empty
  · have hempty : text.isEmpty = true := by simpa [shown] using h
    rw [render_some, if_pos hempty, String.append_empty]

theorem TraceFrame.render_with_source {f : TraceFrame} {text : String}
    (h : f.shown.sourceLine = some text) :
    f.sourceLine = some text ∧ f.render = f.headline ++ "\n" ++ ("    " ++ text ++ "\n") := by
  obtain ⟨hsource, hempty⟩ := Option.filter_eq_some_iff.mp h
  obtain ⟨file, line, function, sourceLine⟩ := f
  obtain rfl : sourceLine = some text := hsource
  refine ⟨rfl, ?_⟩
  rw [render_some, if_neg (by simpa using hempty)]

/-- The lines of a frame give an entry for it, and leave the next line to be read. -/
theorem readFrames?_render {f : TraceFrame} (hf : f.IsPlain) (seen : List Listed) (s : String) :
    readFrames? seen (split '\n' (f.render ++ s)) =
      readFrames? (⟨f.shown, 0⟩ :: seen) (split '\n' s) := by
  have hheadline (rest : String) : readFrames? seen (split '\n' (f.headline ++ ("\n" ++ rest))) =
      readFrames? (⟨⟨f.file, f.line, f.function, none⟩, 0⟩ :: seen) (split '\n' rest) :=
    readFrames?_line (isIndented_headline f) (f.headline_single_line hf.file hf.function)
      (TraceLine.ofLine?_headline hf.file_quote) rfl rest
  cases hshown : f.shown.sourceLine with
  | none =>
    have hentry : f.shown = ⟨f.file, f.line, f.function, none⟩ := hshown ▸ rfl
    rw [TraceFrame.render_without_source hshown, String.append_assoc, hheadline, hentry]
  | some text =>
    obtain ⟨hsource, hrender⟩ := TraceFrame.render_with_source hshown
    have hentry : f.shown = ⟨f.file, f.line, f.function, some text⟩ := hshown ▸ rfl
    have hindented : isIndented ("    " ++ text) = true := by
      rw [isIndented, String.toList_append]
      rfl
    have hline : '\n' ∉ ("    " ++ text).toList := by simpa using hf.source text hsource
    rw [hrender, String.append_assoc, String.append_assoc, hheadline, String.append_assoc,
      readFrames?_line hindented hline (TraceLine.ofLine?_source text) rfl, hentry]

theorem readFrames?_replicate {f : TraceFrame} (hf : f.IsPlain) (k : Nat) (seen : List Listed)
    (s : String) :
    readFrames? seen (split '\n' (String.join (List.replicate k f.render) ++ s)) =
      readFrames? (List.replicate k ⟨f.shown, 0⟩ ++ seen) (split '\n' s) := by
  induction k generalizing seen with
  | zero => rw [List.replicate_zero, String.join_nil, String.empty_append]; rfl
  | succ k ih =>
    rw [List.replicate_succ, String.join_cons, String.append_assoc, readFrames?_render hf, ih,
      List.replicate_succ']
    simp

/-! ## What is read of runs -/

/-- The entries of a run of frames that are all equal to the first one: up to three, the last of
which counts the others. -/
def listRun : List TraceFrame → List Listed
  | [] => []
  | f :: rest =>
    List.replicate (min rest.length (shownRepetitions - 1)) ⟨f.shown, 0⟩ ++
      [⟨f.shown, rest.length + 1 - shownRepetitions⟩]

theorem listRun_replicate (f : TraceFrame) (n : Nat) :
    listRun (List.replicate (n + 1) f) =
      List.replicate (min n 2) ⟨f.shown, 0⟩ ++ [⟨f.shown, n - 2⟩] := by
  rw [List.replicate_succ, listRun, List.length_replicate]
  rfl

theorem renderRun_replicate (f : TraceFrame) (n : Nat) :
    renderRun (List.replicate (n + 1) f) =
      String.join (List.replicate (min 3 (n + 1)) f.render) ++
        if 2 < n then TraceLine.countLine (n - 2) ++ "\n" else "" := by
  have hmore : shownRepetitions < n + 1 ↔ 2 < n := Nat.succ_lt_succ_iff
  have hcount : n + 1 - shownRepetitions = n - 2 := Nat.succ_sub_succ n 2
  have hline : "  [Previous line repeated " ++ toString (n - 2) ++ " more times]\n" =
      TraceLine.countLine (n - 2) ++ "\n" := by
    have hend : " more times]\n" = " more times]" ++ "\n" := rfl
    rw [TraceLine.countLine_eq, hend, ← String.append_assoc]
  rw [renderRun, List.take_replicate, List.map_replicate, List.length_replicate, hcount, hline]
  simp only [hmore]
  rfl

theorem readFrames?_renderRun {f : TraceFrame} (hf : f.IsPlain) (n : Nat) (seen : List Listed)
    (s : String) :
    readFrames? seen (split '\n' (renderRun (List.replicate (n + 1) f) ++ s)) =
      readFrames? ((listRun (List.replicate (n + 1) f)).reverse ++ seen) (split '\n' s) := by
  rw [renderRun_replicate, listRun_replicate, String.append_assoc, readFrames?_replicate hf]
  by_cases hn : 2 < n
  · -- the line below the third copy counts the others
    have hshown : min 3 (n + 1) = 3 := Nat.min_eq_left (by omega)
    have hlisted : min n 2 = 2 := Nat.min_eq_right (by omega)
    rw [if_pos hn, String.append_assoc, hshown, hlisted, List.replicate_succ, List.cons_append,
      readFrames?_line (isIndented_countLine _) (TraceLine.countLine_single_line _)
        (TraceLine.ofLine?_countLine _) rfl]
    simp
  · have hshown : min 3 (n + 1) = n + 1 := Nat.min_eq_right (by omega)
    have hlisted : min n 2 = n := Nat.min_eq_left (by omega)
    have hcount : n - 2 = 0 := by omega
    rw [if_neg hn, String.empty_append, hshown, hlisted, hcount]
    simp [List.replicate_succ]

/-- What is read of runs of frames, whatever stands behind them. -/
theorem readFrames?_runs {runs : List (List TraceFrame)}
    (h : ∀ run ∈ runs, ∃ f n, run = List.replicate (n + 1) f ∧ f.IsPlain) (seen : List Listed)
    (s : String) :
    readFrames? seen (split '\n' (String.join (runs.map renderRun) ++ s)) =
      readFrames? ((runs.flatMap listRun).reverse ++ seen) (split '\n' s) := by
  induction runs generalizing seen with
  | nil => rw [List.map_nil, String.join_nil, String.empty_append]; rfl
  | cons run runs ih =>
    obtain ⟨⟨f, n, rfl, hf⟩, hruns⟩ := List.forall_mem_cons.mp h
    rw [List.map_cons, String.join_cons, String.append_assoc, readFrames?_renderRun hf, ih hruns,
      List.flatMap_cons, List.reverse_append, List.append_assoc]

/-! ## Runs -/

/-- The runs of equal frames that frames consist of. They are as long as possible: neighbours are
runs of different frames. -/
structure IsRuns (fs : List TraceFrame) (runs : List (List TraceFrame)) : Prop where
  flatten : runs.flatten = fs
  equal : ∀ run ∈ runs, ∃ f n, run = List.replicate (n + 1) f
  longest : runs.IsChain fun a b => a.getLast? ≠ b.head?

theorem isRuns_splitBy (fs : List TraceFrame) : IsRuns fs (fs.splitBy (· == ·)) where
  flatten := List.flatten_splitBy _ _
  equal run hrun := by
    have hchain : run.IsChain (· = ·) :=
      (List.isChain_of_mem_splitBy hrun).imp fun _ _ => eq_of_beq
    obtain ⟨f, rest, rfl⟩ := List.exists_cons_of_ne_nil (List.ne_nil_of_mem_splitBy hrun)
    exact ⟨f, rest.length, List.isChain_eq_iff_eq_replicate.mp hchain f rfl⟩
  longest := (List.isChain_getLast_head_splitBy _ _).imp fun a b ⟨ha, hb, hne⟩ => by
    rw [List.getLast?_eq_some_getLast ha, List.head?_eq_some_head hb]
    exact fun heq => ne_of_beq_false hne (Option.some.inj heq)

/-- The entries show a run: there are at most three, and they stand for its frames. -/
structure Shows (entries : List Listed) (run : List TraceFrame) : Prop where
  length : entries.length ≤ 3
  frames : entries.flatMap Listed.frames = run.map TraceFrame.shown

theorem shows_listRun (f : TraceFrame) (n : Nat) :
    Shows (listRun (List.replicate (n + 1) f)) (List.replicate (n + 1) f) where
  length := by
    rw [listRun_replicate, List.length_append, List.length_replicate, List.length_singleton]
    omega
  frames := by
    have hcount : min n 2 + (n - 2 + 1) = n + 1 := by omega
    rw [listRun_replicate, List.flatMap_append, List.flatMap_replicate, List.map_replicate,
      List.flatMap_singleton, ← hcount, List.replicate_add]
    simp [Listed.frames, List.flatten_replicate_singleton]

theorem frames_of_shows {groups : List (List Listed)} {runs : List (List TraceFrame)}
    (h : List.Forall₂ Shows groups runs) :
    groups.flatten.flatMap Listed.frames = runs.flatten.map TraceFrame.shown := by
  induction h with
  | nil => rfl
  | cons hshow _ ih =>
    rw [List.flatten_cons, List.flatten_cons, List.flatMap_append, List.map_append, hshow.frames,
      ih]

/-! ## What is read of a traceback -/

theorem Text.first_piece_begins {separator : Char} {cs p : List Char} {ps : List (List Char)}
    (h : pieces separator cs = p :: ps) : p <+: cs := by
  induction cs generalizing p ps with
  | nil =>
    cases h
    exact List.nil_prefix
  | cons c cs ih =>
    obtain ⟨q, qs, hcut⟩ := List.exists_cons_of_ne_nil (pieces_ne_nil separator cs)
    rw [pieces, hcut] at h
    split at h
    · cases h
      exact List.nil_prefix
    · cases h
      exact List.cons_prefix_cons.mpr ⟨rfl, ih hcut⟩

/-- A summary is not indented. -/
theorem Exception.not_isIndented_summary {e : Exception} (h : e.name.toList.head? ≠ some ' ') :
    ¬ [' ', ' '] <+: e.summary.toList := by
  rintro ⟨rest, hrest⟩
  rw [summary] at hrest
  split at hrest
  · rw [← hrest] at h
    exact h rfl
  · rw [String.append_assoc, String.toList_append] at hrest
    cases hname : e.name.toList with
    | nil =>
      rw [hname, List.nil_append, String.toList_append] at hrest
      cases hrest
    | cons c cs =>
      rw [hname, List.cons_append] at hrest
      rw [hname, ← (List.cons.inj hrest).1] at h
      exact h rfl

theorem readFrames?_summary {e : Exception} (h : e.name.toList.head? ≠ some ' ')
    (seen : List Listed) :
    readFrames? seen (split '\n' e.summary) = some (seen.reverse, split '\n' e.summary) := by
  obtain ⟨p, ps, hcut⟩ := List.exists_cons_of_ne_nil (pieces_ne_nil '\n' e.summary.toList)
  have hline : isIndented (String.ofList p) = false := by
    rw [isIndented, String.toList_ofList, Bool.eq_false_iff]
    intro hindented
    exact e.not_isIndented_summary h
      ((List.isPrefixOf_iff_prefix.mp hindented).trans (first_piece_begins hcut))
  rw [split, hcut, List.map_cons, readFrames?, hline]
  rfl

/-- The traceback of an exception, read from the top, lists its frames in entries, at most three for
each run of equal ones. No frame is lost, and what is left is the summary, with which the traceback
ends. -/
theorem folding_lossless (e : Exception) (hname : e.name.toList.head? ≠ some ' ')
    (hframes : ∀ f ∈ e.frames, f.IsPlain) :
    ∃ runs groups, IsRuns e.frames runs ∧ List.Forall₂ Shows groups runs ∧
      readTraceback? e.render = some (groups.flatten, e.summary) ∧
      groups.flatten.flatMap Listed.frames = e.frames.map TraceFrame.shown ∧
      ∃ above, e.render = above ++ e.summary := by
  have hruns := isRuns_splitBy e.frames
  have hplain : ∀ run ∈ e.frames.splitBy (· == ·),
      ∃ f n, run = List.replicate (n + 1) f ∧ f.IsPlain := by
    intro run hrun
    obtain ⟨f, n, rfl⟩ := hruns.equal run hrun
    have hmem : f ∈ e.frames := by
      rw [← hruns.flatten]
      exact List.mem_flatten_of_mem hrun (List.mem_replicate.mpr ⟨Nat.succ_ne_zero n, rfl⟩)
    exact ⟨f, n, rfl, hframes f hmem⟩
  have hshows : List.Forall₂ Shows ((e.frames.splitBy (· == ·)).map listRun)
      (e.frames.splitBy (· == ·)) := by
    rw [List.forall₂_map_left_iff, List.forall₂_same]
    intro run hrun
    obtain ⟨f, n, rfl⟩ := hruns.equal run hrun
    exact shows_listRun f n
  refine ⟨_, _, hruns, hshows, ?_, ?_, _, rfl⟩
  · have hheader : tracebackHeader = "Traceback (most recent call last):" ++ "\n" := rfl
    rw [readTraceback?, Exception.render, hheader, String.append_assoc, String.append_assoc,
      split_line (by decide)]
    dsimp only
    rw [if_pos rfl, readFrames?_runs hplain, List.append_nil, readFrames?_summary hname,
      Option.map_some, List.reverse_reverse, join_split, List.flatMap_def]
  · rw [frames_of_shows hshows, hruns.flatten]

namespace Folding

/-- A run of five frames is folded. The last frame is a run of its own, although its lines are the
same: it is known to stand on an empty line. -/
def deep : Exception where
  name := "RecursionError"
  message := "maximum recursion depth exceeded"
  frames := ⟨"main.scm", 1, "<module>", some "(f 9)"⟩ ::
    List.replicate 5 ⟨"main.scm", 2, "f", none⟩ ++ [⟨"main.scm", 2, "f", some ""⟩]
  missingModule := none

theorem folding_lossless_deep :
    deep.name.toList.head? ≠ some ' ' ∧ (∀ f ∈ deep.frames, f.IsPlain) ∧
      ∃ entries, readTraceback? deep.render = some (entries, deep.summary) ∧
        entries.flatMap Listed.frames = deep.frames.map TraceFrame.shown := by
  have hname : deep.name.toList.head? ≠ some ' ' := by decide
  have hframes : ∀ f ∈ deep.frames, f.IsPlain := by decide
  obtain ⟨-, groups, -, -, hread, hall, -⟩ := folding_lossless deep hname hframes
  exact ⟨hname, hframes, groups.flatten, hread, hall⟩

end Folding
end Lispbox
