import Lispbox.Proofs.Form.Refusals

/-!
# Lists that are never closed

A source whose last form lacks its parenthesis is refused at the list that was opened last. What the
last open list is can be told from the text alone: a `Scan` goes through it from the start, takes no
notice of what is in texts and comments, and keeps the parentheses that are open. The reader knows
nothing of scans, but its stack of open lists is at their places all along (`Tracks`).

* `tracks_run`: the scan of what the reader has behind it finds no parenthesis without a partner,
  and finds the lists open that are open for the reader.
* `never_closed_exact`: what the refusal says, and what the scan of the source has found then.
-/
namespace Lispbox
open Lispbox.Text (IsLine isAsciiBlank lastLine)

/-- A scan for parentheses: the text that is behind it, and for each parenthesis that is open the
text in front of it, last-opened first. -/
structure Scan where
  before : List Char
  opened : List (List Char)
  deriving DecidableEq, Repr

namespace Scan

/-- The scan of nothing. -/
def start : Scan := ⟨[], []⟩

/-- A further character. Texts and comments are skipped; a parenthesis that closes nothing ends the
scan. -/
def step (s : Scan) (c : Char) : Option Scan :=
  let next := s.before ++ [c]
  if Zone.code.nextAll s.before ≠ .code then some ⟨next, s.opened⟩
  else if c = '(' then some ⟨next, s.before :: s.opened⟩
  else if c = ')' then s.opened.tail?.map fun outer => ⟨next, outer⟩
  else some ⟨next, s.opened⟩

/-- The scan of a text. -/
def run (cs : List Char) : Option Scan := cs.foldlM step start

variable {s : Scan} {c : Char} {cs : List Char}

theorem run_snoc (cs : List Char) (c : Char) : run (cs ++ [c]) = (run cs).bind (step · c) := by
  simp [run]

theorem step_skipped (h : Zone.code.nextAll s.before ≠ .code) :
    s.step c = some ⟨s.before ++ [c], s.opened⟩ := if_pos h

theorem step_other (hopen : c ≠ '(') (hclose : c ≠ ')') :
    s.step c = some ⟨s.before ++ [c], s.opened⟩ := by
  simp only [step, if_neg hopen, if_neg hclose, ite_self]

/-- A character of a word is no parenthesis, and starts neither a text nor a comment. -/
theorem step_symbol (hc : isSymbolChar c = true) :
    Zone.code.next c = .code ∧ s.step c = some ⟨s.before ++ [c], s.opened⟩ := by
  have hne : c ≠ '(' ∧ c ≠ ')' := by
    constructor <;> (rintro rfl; cases hc)
  have hzone : Zone.code.nextAll [c] = .code := Zone.nextAll_word (by simpa using hc)
  exact ⟨hzone, step_other hne.1 hne.2⟩

/-- A scan goes over all of the text. What it has open are parentheses outside of texts and
comments, each behind the ones that were opened before it. -/
theorem run_places (h : run cs = some s) :
    s.before = cs ∧
    (∀ b ∈ s.opened, Zone.code.nextAll b = .code ∧ ∃ after, cs = b ++ '(' :: after) ∧
    s.opened.Pairwise fun b outer => outer.length < b.length := by
  induction cs using List.reverseRecOn generalizing s with
  | nil =>
    cases h
    exact ⟨rfl, fun b hb => (by cases hb), .nil⟩
  | append_singleton cs c ih =>
    rw [run_snoc] at h
    obtain ⟨t, ht, hstep⟩ := Option.bind_eq_some_iff.mp h
    obtain ⟨rfl, hplaces, hordered⟩ := ih ht
    have further {b : List Char} (hb : b ∈ t.opened) :
        Zone.code.nextAll b = .code ∧ ∃ after, t.before ++ [c] = b ++ '(' :: after := by
      obtain ⟨hzone, after, hafter⟩ := hplaces b hb
      exact ⟨hzone, after ++ [c], by simp [hafter]⟩
    unfold step at hstep
    dsimp only at hstep
    split at hstep
    · cases hstep
      exact ⟨rfl, fun b => further, hordered⟩
    next hzone =>
    split at hstep
    · next hc =>
      cases hstep
      have hnew : ∃ after, t.before ++ [c] = t.before ++ '(' :: after := ⟨[], by rw [hc]⟩
      refine ⟨rfl, List.forall_mem_cons.mpr ⟨⟨not_not.mp hzone, hnew⟩, fun b => further⟩,
        .cons (fun b hb => ?_) hordered⟩
      obtain ⟨-, after, hafter⟩ := hplaces b hb
      rw [hafter, List.length_append, List.length_cons]
      omega
    split at hstep
    · obtain ⟨outer, houter, rfl⟩ := Option.map_eq_some_iff.mp hstep
      cases hopened : t.opened with
      | nil =>
        rw [hopened] at houter
        cases houter
      | cons o rest =>
        rw [hopened] at houter hordered
        cases houter
        refine ⟨rfl, fun b hb => further ?_, hordered.of_cons⟩
        rw [hopened]
        exact List.mem_cons_of_mem _ hb
    · cases hstep
      exact ⟨rfl, fun b => further, hordered⟩

end Scan

/-- Where the reader is in the midst of something. -/
def Reading.zone : Reading → Zone
  | .blank | .word _ _ => .code
  | .comment => .comment
  | .text _ _ => .text
  | .escape _ _ => .escape

/-- The lists that are open for the reader are at the places of the given parentheses. -/
def Nest.IsAt (n : Nest) (opened : List (List Char)) : Prop :=
  n.outer.map Prod.fst = opened.map Pos.behind

/-- The reader has `cs` behind it, and has kept track of the parentheses in it. -/
structure Tracks (cs : List Char) (r : Reader) : Prop where
  pos : r.pos = Pos.behind cs
  zone : Zone.code.nextAll cs = r.reading.zone
  nest : ∃ opened, Scan.run cs = some ⟨cs, opened⟩ ∧ r.nest.IsAt opened

variable {maxDepth : Nat} {r s : Reader} {n m : Nest} {c : Char} {cs : List Char}
  {opened : List (List Char)}

theorem tracks_start : Tracks [] .start := ⟨rfl, rfl, [], rfl, rfl⟩

theorem foldlM_take_singleton (n : Nest) (l : Lexeme) :
    [l].foldlM (Nest.take maxDepth) n = n.take maxDepth l := by
  simp

/-- A character where nothing is in progress. -/
theorem begin_tracks (hzone : Zone.code.nextAll cs = .code) (hn : n.IsAt opened)
    (hm : (Reading.begin (Pos.behind cs) c).1.foldlM (Nest.take maxDepth) n = .ok m) :
    Zone.code.next c = (Reading.begin (Pos.behind cs) c).2.zone ∧
      ∃ opened', Scan.step ⟨cs, opened⟩ c = some ⟨cs ++ [c], opened'⟩ ∧ m.IsAt opened' := by
  have hcode : ¬ Zone.code.nextAll cs ≠ .code := not_not.mpr hzone
  -- a character that is no parenthesis
  have other (hstep : Scan.step ⟨cs, opened⟩ c = some ⟨cs ++ [c], opened⟩)
      (hfound : (Reading.begin (Pos.behind cs) c).1 = []) :
      ∃ opened', Scan.step ⟨cs, opened⟩ c = some ⟨cs ++ [c], opened'⟩ ∧ m.IsAt opened' := by
    rw [hfound] at hm
    cases hm
    exact ⟨opened, hstep, hn⟩
  have token {t : Token} (hfound : (Reading.begin (Pos.behind cs) c).1 = [⟨Pos.behind cs, t⟩]) :
      n.take maxDepth ⟨Pos.behind cs, t⟩ = .ok m := by
    rwa [hfound, foldlM_take_singleton] at hm
  by_cases hc : isSymbolChar c = true
  · obtain ⟨hzone', hstep⟩ := Scan.step_symbol hc
    rw [Reading.begin_word hc] at other ⊢
    exact ⟨hzone', other hstep rfl⟩
  rcases not_symbolChar (Bool.eq_false_iff.mpr hc) with rfl | rfl | rfl | rfl | hblank
  · have htake := token (t := .openList) rfl
    unfold Nest.take at htake
    dsimp only at htake
    split at htake
    · cases htake
    · cases htake
      exact ⟨rfl, cs :: opened, if_neg hcode, congrArg (Pos.behind cs :: ·) hn⟩
  · have htake := token (t := .closeList) rfl
    obtain ⟨forms, outer⟩ := n
    cases outer with
    | nil => cases htake
    | cons o outer =>
      cases htake
      cases opened with
      | nil => cases hn
      | cons b opened => exact ⟨rfl, opened, if_neg hcode, List.tail_eq_of_cons_eq hn⟩
  · exact ⟨rfl, other (Scan.step_other (by decide) (by decide)) rfl⟩
  · exact ⟨rfl, other (Scan.step_other (by decide) (by decide)) rfl⟩
  · have hne : c ≠ '(' ∧ c ≠ ')' := by
      constructor <;> (rintro rfl; cases hblank)
    have hbegin : Reading.begin (Pos.behind cs) c = ([], .blank) := if_pos hblank
    rw [hbegin] at other ⊢
    exact ⟨Zone.next_blank hblank, other (Scan.step_other hne.1 hne.2) rfl⟩

/-- A token that is no parenthesis leaves the open lists alone. -/
theorem take_atom {l : Lexeme} {a : Atom} (hl : l.token = .atom a) (hn : n.IsAt opened)
    (hm : n.take maxDepth l = .ok m) : m.IsAt opened := by
  unfold Nest.take at hm
  rw [hl] at hm
  cases hm
  exact hn

theorem ofWord_token {start pos : Pos} {seen : List Char} {l : Lexeme}
    (h : Lexeme.ofWord start pos seen = .ok l) : ∃ a, l.token = .atom a := by
  unfold Lexeme.ofWord at h
  split at h
  · cases h
    exact ⟨_, rfl⟩
  · cases h

theorem Reader.step_eq_ok (h : r.step maxDepth c = .ok s) :
    ∃ found, r.reading.step r.pos c = .ok (found, s.reading) ∧
      found.foldlM (Nest.take maxDepth) r.nest = .ok s.nest ∧ s.pos = r.pos.after c := by
  obtain ⟨⟨found, next⟩, hfound, h⟩ := ok_of_bind h
  obtain ⟨nest, hnest, h⟩ := ok_of_bind h
  cases h
  exact ⟨found, hfound, hnest, rfl⟩

/-- What the reader makes of a character, and what a scan makes of it. -/
theorem reading_tracks {reading next : Reading} {found : List Lexeme}
    (hzone : Zone.code.nextAll cs = reading.zone) (hn : n.IsAt opened)
    (hstep : reading.step (Pos.behind cs) c = .ok (found, next))
    (hm : found.foldlM (Nest.take maxDepth) n = .ok m) :
    reading.zone.next c = next.zone ∧
      ∃ opened', Scan.step ⟨cs, opened⟩ c = some ⟨cs ++ [c], opened'⟩ ∧ m.IsAt opened' := by
  -- inside of texts and comments
  have skipped (hcode : reading.zone ≠ .code) (hsame : m.IsAt opened) :
      ∃ opened', Scan.step ⟨cs, opened⟩ c = some ⟨cs ++ [c], opened'⟩ ∧ m.IsAt opened' :=
    ⟨opened, Scan.step_skipped (hzone ▸ hcode), hsame⟩
  cases reading with
  | blank =>
    have hbegin : Reading.begin (Pos.behind cs) c = (found, next) := Except.ok.inj hstep
    have hfound : (Reading.begin (Pos.behind cs) c).1.foldlM (Nest.take maxDepth) n = .ok m := by
      rw [hbegin]
      exact hm
    have htracks := begin_tracks hzone hn hfound
    rw [hbegin] at htracks
    exact htracks
  | comment =>
    cases hstep
    cases hm
    refine ⟨?_, skipped (fun h => by cases h) hn⟩
    rw [Reading.zone, Zone.next]
    split <;> rfl
  | word start seen =>
    rw [Reading.step] at hstep
    split at hstep
    · next hc =>
      cases hstep
      cases hm
      obtain ⟨hzone', hscan⟩ := Scan.step_symbol hc
      exact ⟨hzone', opened, hscan, hn⟩
    · cases hl : Lexeme.ofWord start (Pos.behind cs) seen with
      | error e =>
        rw [hl] at hstep
        cases hstep
      | ok l =>
        rw [hl] at hstep
        cases hstep
        obtain ⟨a, ha⟩ := ofWord_token hl
        rw [List.foldlM_cons] at hm
        obtain ⟨n', hword, hm⟩ := ok_of_bind hm
        exact begin_tracks hzone (take_atom ha hn hword) hm
  | text start seen =>
    rw [Reading.step] at hstep
    rw [Reading.zone, Zone.next]
    by_cases hquote : c = '"'
    · rw [if_pos hquote] at hstep ⊢
      cases hstep
      rw [foldlM_take_singleton] at hm
      exact ⟨rfl, skipped (fun h => by cases h) (take_atom rfl hn hm)⟩
    · rw [if_neg hquote] at hstep ⊢
      split at hstep
      · next hescape =>
        cases hstep
        cases hm
        exact ⟨if_pos hescape, skipped (fun h => by cases h) hn⟩
      · next hescape =>
        cases hstep
        cases hm
        exact ⟨if_neg hescape, skipped (fun h => by cases h) hn⟩
  | escape start seen =>
    rw [Reading.step] at hstep
    split at hstep
    · cases hstep
      cases hm
      exact ⟨rfl, skipped (fun h => by cases h) hn⟩
    · cases hstep

theorem tracks_step (h : Tracks cs r) (hs : r.step maxDepth c = .ok s) : Tracks (cs ++ [c]) s := by
  obtain ⟨hpos, hzone, opened, hscan, hnest⟩ := h
  obtain ⟨found, hstep, hfound, hafter⟩ := Reader.step_eq_ok hs
  rw [hpos] at hstep
  obtain ⟨hnext, opened', hscan', hnest'⟩ := reading_tracks hzone hnest hstep hfound
  refine ⟨by rw [hafter, hpos, Pos.behind_snoc], ?_, opened', ?_, hnest'⟩
  · rw [Zone.nextAll_append, hzone]
    exact hnext
  · rw [Scan.run_snoc, hscan]
    exact hscan'

theorem tracks_run (h : r.run maxDepth cs = .ok s) {before : List Char} (hr : Tracks before r) :
    Tracks (before ++ cs) s := by
  induction cs generalizing r before with
  | nil =>
    cases h
    rw [List.append_nil]
    exact hr
  | cons c cs ih =>
    unfold Reader.run at h
    rw [List.foldlM_cons] at h
    obtain ⟨next, hs, h⟩ := ok_of_bind h
    rw [← List.singleton_append, ← List.append_assoc]
    exact ih h (tracks_step hr hs)

/-! ## The end of the source -/

/-- Only a word can be completed by the end of a source. -/
theorem readingFinish_atoms {reading : Reading} {pos : Pos} {found : List Lexeme}
    (h : reading.finish pos = .ok found) : ∀ l ∈ found, ∃ a, l.token = .atom a := by
  cases reading with
  | blank => cases h; exact fun l hl => by cases hl
  | comment => cases h; exact fun l hl => by cases hl
  | word start seen =>
    rw [Reading.finish] at h
    cases hl : Lexeme.ofWord start pos seen with
    | error e =>
      rw [hl] at h
      cases h
    | ok l =>
      rw [hl] at h
      cases h
      exact List.forall_mem_singleton.mpr (ofWord_token hl)
  | text start seen => cases h
  | escape start seen => cases h

theorem take_atoms {found : List Lexeme} (hfound : ∀ l ∈ found, ∃ a, l.token = .atom a)
    (hn : n.IsAt opened) (hm : found.foldlM (Nest.take maxDepth) n = .ok m) : m.IsAt opened := by
  induction found generalizing n with
  | nil =>
    cases hm
    exact hn
  | cons l found ih =>
    obtain ⟨⟨a, ha⟩, hfound⟩ := List.forall_mem_cons.mp hfound
    rw [List.foldlM_cons] at hm
    obtain ⟨next, hl, hm⟩ := ok_of_bind hm
    exact ih hfound (take_atom ha hn hl) hm

/-- If a list is open at the end, the refusal is at the one that was opened last. -/
theorem Reader.finish_neverClosed {r : Reader} {pos : Pos} (hn : r.nest.IsAt opened)
    (h : r.finish maxDepth = .error (pos, .neverClosed)) :
    ∃ b outer, opened = b :: outer ∧ pos = Pos.behind b := by
  rcases error_of_bind h with h | ⟨found, hfound, h⟩
  · have hno : ¬ Flaw.isOfToken .neverClosed = true := Bool.false_ne_true
    exact absurd (refusedFor_readingFinish _ _ _ h) hno
  rcases error_of_bind h with h | ⟨nest, hnest, h⟩
  · have hno : ¬ Flaw.isMidway .neverClosed = true := Bool.false_ne_true
    exact absurd (refusedFor_foldlM (refusedFor_take _) found r.nest _ h) hno
  have hat := take_atoms (readingFinish_atoms hfound) hn hnest
  obtain ⟨-, before, outer, houter⟩ := Nest.finish_error h
  rw [Nest.IsAt, houter] at hat
  cases opened with
  | nil => cases hat
  | cons b rest => exact ⟨b, rest, rfl, (List.cons.inj hat).1⟩

/-- The reason can be told from the wording. -/
theorem Flaw.eq_neverClosed {flaw : Flaw} (h : flaw.isOfReading = true)
    (hm : flaw.message = "'(' was never closed") : flaw = .neverClosed := by
  cases flaw with
  | neverClosed => rfl
  | unknownEscape c =>
    have htext : "unknown escape: \\" ++ c.toString = "'(' was never closed" := hm
    have hfirst := congrArg (fun s : String => s.toList.head?) htext
    simp at hfirst
  | unmatchedClose | tooDeep | unterminatedText | incompleteEscape | emptyKeyword
  | integerOutOfRange => exact absurd hm (by decide +kernel)
  | _ => cases h

/-- The line of a parenthesis starts with what stands in front of the parenthesis on it. -/
theorem lineText_paren {source : String} {before after : List Char}
    (h : source.toList = before ++ '(' :: after) :
    ∃ more, (Text.lineText source (Pos.behind before).line).toList =
      lastLine before ++ '(' :: more := by
  obtain ⟨above, hbefore, habove, hline⟩ := Text.exists_atLine before
  obtain ⟨more, hmore⟩ := Text.exists_line_head hline (by decide) (by decide) after (c := '(')
  have hnumber : (Pos.behind before).line = 1 + above.count '\n' := by
    rw [Pos.behind, hbefore, List.count_append, ← hbefore, List.count_eq_zero_of_not_mem hline]
    rfl
  have hsource : source.toList = above ++ (lastLine before ++ '(' :: after) := by
    rw [h, ← List.append_assoc, ← hbefore]
  exact ⟨more, by rw [hnumber, Text.lineText_behind hsource habove, hmore, Option.getD_some]⟩

/-- If a source is refused because a list is never closed, the scan of the source finds no
parenthesis that closes nothing, and finds lists open at the end. The refusal is at the one of them
that was opened last, however deep they are nested, and it quotes the line with its parenthesis. -/
theorem never_closed_exact {source file : String} {maxDepth : Nat} {e : CompileError}
    (h : parse source file maxDepth = .error e) (hm : e.message = "'(' was never closed") :
    ∃ before after outer, source.toList = before ++ '(' :: after ∧
      Scan.run source.toList = some ⟨source.toList, before :: outer⟩ ∧
      (∀ b ∈ outer, b.length < before.length) ∧
      Pos.mk e.line e.column = Pos.behind before ∧
      IsLine source.toList e.line e.sourceLine.toList ∧
      ∃ more, e.sourceLine.toList = lastLine before ++ '(' :: more := by
  unfold parse at h
  cases hread : readForms maxDepth source with
  | ok fs =>
    rw [hread] at h
    cases h
  | error refusal =>
    obtain ⟨pos, flaw⟩ := refusal
    rw [hread] at h
    cases h
    have hflaw : flaw = .neverClosed :=
      Flaw.eq_neverClosed (readForms_isOfReading _ _ _ hread) hm
    subst hflaw
    have hlines := readForms_refused hread
    rcases error_of_bind hread with hread | ⟨r, hrun, hfinish⟩
    · have hno : ¬ Flaw.isMidway .neverClosed = true := Bool.false_ne_true
      exact absurd (Reader.refusedFor_run _ _ _ hread) hno
    obtain ⟨-, -, opened, hscan, hnest⟩ := tracks_run hrun tracks_start
    rw [List.nil_append] at hscan
    obtain ⟨before, outer, rfl, rfl⟩ := Reader.finish_neverClosed hnest hfinish
    obtain ⟨-, hplaces, hordered⟩ := Scan.run_places hscan
    obtain ⟨-, after, hsource⟩ := hplaces before List.mem_cons_self
    refine ⟨before, after, outer, hsource, hscan, (List.pairwise_cons.mp hordered).1, rfl,
      Text.isLine_lineText source hlines.1 hlines.2, lineText_paren hsource⟩

namespace Unclosed

/-- The parentheses in the text and in the comment do not count; the list that is opened last is on
the third line, and the one around it is open as well. -/
def source : String := "(f)\n(g \"(\" ; (\r\n  (h [é (i)\n"

theorem never_closed_exact_inner :
    let e : CompileError := ⟨"main", 3, 3, "'(' was never closed", "  (h [é (i)"⟩
    parse source "main" 9 = .error e ∧
    ∃ before after outer, source.toList = before ++ '(' :: after ∧
      Scan.run source.toList = some ⟨source.toList, before :: outer⟩ ∧
      (∀ b ∈ outer, b.length < before.length) ∧ Pos.mk e.line e.column = Pos.behind before := by
  intro e
  have hrefused : parse source "main" 9 = .error e := rfl
  obtain ⟨before, after, outer, hsource, hscan, hlast, hplace, -, -⟩ :=
    never_closed_exact hrefused rfl
  exact ⟨hrefused, before, after, outer, hsource, hscan, hlast, hplace⟩

end Unclosed
end Lispbox
