import Lispbox.Proofs.Origin.Quoting
import Lispbox.Proofs.Session.History
import Lispbox.Proofs.Text.Pieces

/-!
# Lines that carry breakpoints

A breakpoint is kept if its line, trimmed, is neither empty nor a comment. The line of a statement
is looked at by another rule: the reader skips ASCII blanks and comments from where the last token
ended. The two agree on lines that start outside texts and whose first character behind ASCII blanks
is no blank of another kind (`isCodeLine_of_form`). They differ where a text goes on from the line
above, since what looks like a comment may be a part of the text, and where a word starts with a
blank.

* `isCode_of_first`: the first character that is no blank decides.
* `Zone.nextAll_atLine`: a line starts in code or in a text.
* `breakpoints_kept`: breakpoints are kept on all other lines where a statement starts, and on all
  other lines that a run reports.
-/
namespace Lispbox
open Lispbox.Text (AtLine isBlank isAsciiBlank)

/-! ## Lines with code -/

/-- Behind blanks, a character decides that is neither a blank nor a semicolon. -/
theorem SourceUnit.isCode_of_first {blanks rest : List Char} {c : Char} {line : String}
    (hline : line.toList = blanks ++ c :: rest) (hblanks : ∀ b ∈ blanks, isBlank b = true)
    (hc : isBlank c = false) (hne : c ≠ ';') : isCode (Text.trim line) = true := by
  have hend := Text.dropBlankEnd_append_cons hc [] rest
  have htrim : Text.trim line = String.ofList (c :: Text.dropBlankEnd rest) := by
    rw [Text.trim, hline, List.dropWhile_append_of_pos hblanks, List.dropWhile_cons_of_neg
      (by simp [hc])]
    exact congrArg String.ofList hend
  have hstart : ¬ (String.ofList (c :: Text.dropBlankEnd rest)).startsWith ";" = true := by
    rw [String.startsWith_string_iff, String.toList_ofList]
    intro hprefix
    have hcons : ';' :: [] <+: c :: Text.dropBlankEnd rest := by simpa using hprefix
    exact hne (List.cons_prefix_cons.mp hcons).1.symm
  rw [htrim, isCode, Bool.and_eq_true, Bool.not_eq_true', Bool.not_eq_true']
  exact ⟨by simp, Bool.eq_false_iff.mpr hstart⟩

/-! ## What a line starts in -/

/-- A line starts in code or in a text. -/
theorem Zone.nextAll_atLine {above : List Char} (h : AtLine above) :
    Zone.code.nextAll above = .code ∨ Zone.code.nextAll above = .text := by
  rcases h.cases with rfl | ⟨cs, rfl⟩
  · exact .inl rfl
  · rw [nextAll_append]
    cases Zone.code.nextAll cs with
    | code => exact .inl rfl
    | comment => exact .inl rfl
    | text => exact .inr rfl
    | escape => exact .inr rfl

/-- On a line that starts in code, what is behind its first semicolon is a comment. -/
theorem Zone.first_of_code {blanks rest : List Char} {c : Char}
    (hblanks : ∀ b ∈ blanks, isAsciiBlank b = true) (hline : '\n' ∉ rest)
    (h : Zone.code.nextAll (blanks ++ c :: rest) = .code) : c ≠ ';' := by
  rintro rfl
  rw [nextAll_append, nextAll_blanks hblanks, nextAll_cons] at h
  exact absurd ((nextAll_comment hline).symm.trans h) (by decide)

namespace SourceUnit

variable {u : SourceUnit} {n : Nat}

/-- The line starts in a text that a line above it began. -/
def StartsInText (u : SourceUnit) (n : Nat) : Prop :=
  ∃ above rest, u.text.toList = above ++ rest ∧ AtLine above ∧ n = 1 + above.count '\n' ∧
    Zone.code.nextAll above = .text

/-- The first character of the line behind ASCII blanks is a blank of another kind. Words may start
with one. -/
def StartsBlank (u : SourceUnit) (n : Nat) : Prop :=
  ∃ c ∈ ((Text.lineText u.text n).toList.dropWhile isAsciiBlank).head?, isBlank c = true

/-- The first character of the line of a form, behind ASCII blanks. -/
theorem exists_first {file : String} {maxDepth : Nat} {fs : List Form}
    (h : parse u.text file maxDepth = .ok fs) {f : Form} (hf : f ∈ formsWithin fs)
    (hstart : ¬ u.StartsInText f.pos.line) :
    ∃ above blanks c rest, u.text.toList = above ++ (blanks ++ c :: rest) ∧ AtLine above ∧
      f.pos.line = 1 + above.count '\n' ∧ (∀ b ∈ blanks, isAsciiBlank b = true) ∧
      '\n' ∉ blanks ∧ isAsciiBlank c = false ∧ c ≠ ';' := by
  obtain ⟨before, after, htext, hpos, hzone, hopens⟩ := parse_places h hf
  obtain ⟨above, hbefore, habove, hline⟩ := Text.exists_atLine before
  have hnumber : f.pos.line = 1 + above.count '\n' := by
    rw [hpos, Pos.behind, hbefore, List.count_append, List.count_eq_zero_of_not_mem hline]
    rfl
  generalize Text.lastLine before = left at hbefore hline
  subst hbefore
  have hcode : Zone.code.nextAll above = .code := by
    refine (Zone.nextAll_atLine habove).resolve_right fun htextZone => hstart ?_
    exact ⟨above, left ++ after, by rw [htext, List.append_assoc], habove, hnumber, htextZone⟩
  rw [Zone.nextAll_append, hcode] at hzone
  have hsplit := List.takeWhile_append_dropWhile (p := isAsciiBlank) (l := left)
  have hblanks : ∀ b ∈ left.takeWhile isAsciiBlank, isAsciiBlank b = true :=
    List.all_eq_true.mp List.all_takeWhile
  have hfirst := List.head?_dropWhile_not isAsciiBlank left
  generalize left.takeWhile isAsciiBlank = blanks at hsplit hblanks
  generalize left.dropWhile isAsciiBlank = code at hsplit hfirst
  subst hsplit
  rw [List.mem_append, not_or] at hline
  cases code with
  | nil =>
    -- the form is the first thing on its line
    obtain ⟨c, rest, rfl, hblank, hne⟩ := hopens.head
    refine ⟨above, blanks, c, rest, ?_, habove, hnumber, hblanks, hline.1, hblank, hne⟩
    rw [htext, List.append_nil, List.append_assoc]
  | cons c code =>
    refine ⟨above, blanks, c, code ++ after, ?_, habove, hnumber, hblanks, hline.1, hfirst, ?_⟩
    · rw [htext]
      simp
    · exact Zone.first_of_code hblanks (fun hmem => hline.2 (List.mem_cons_of_mem _ hmem)) hzone

/-- The line of a form is one with code. -/
theorem isCodeLine_of_form (u : SourceUnit) {file : String} {maxDepth : Nat} {fs : List Form}
    (h : parse u.text file maxDepth = .ok fs) {f : Form} (hf : f ∈ formsWithin fs)
    (hstart : ¬ u.StartsInText f.pos.line) (hblank : ¬ u.StartsBlank f.pos.line) :
    u.isCodeLine f.pos.line = true := by
  obtain ⟨above, blanks, c, rest, htext, habove, hnumber, hblanks, hline, hc, hne⟩ :=
    exists_first h hf hstart
  have hending : c ≠ '\n' ∧ c ≠ '\r' := by
    constructor <;> (rintro rfl; exact absurd hc (by decide))
  obtain ⟨more, hmore⟩ := Text.exists_line_head hline hending.1 hending.2 rest
  have hget : (Text.lines u.text)[above.count '\n']? =
      some (String.ofList (blanks ++ c :: more)) := by
    rw [Text.lines, List.getElem?_map, htext, Text.getElem?_lines habove, hmore]
    rfl
  have hchar : isBlank c = false := by
    refine Bool.eq_false_iff.mpr fun hb => hblank ⟨c, ?_, hb⟩
    rw [hnumber, Text.lineText_behind htext habove, hmore, Option.getD_some,
      List.dropWhile_append_of_pos hblanks, List.dropWhile_cons_of_neg (by simp [hc])]
    rfl
  rw [hnumber, Nat.add_comm, isCodeLine, hget]
  have hblank : ∀ b ∈ blanks, Text.isBlank b = true := fun b hb =>
    Text.isBlank_of_isAsciiBlank (hblanks b hb)
  exact isCode_of_first String.toList_ofList hblank hchar hne

/-- Breakpoints on the line are kept. -/
def Keeps (u : SourceUnit) (n : Nat) : Prop :=
  u.isCodeLine n = true ∧ ∀ requested, n ∈ requested →
    n ∈ (Debugger.start u requested).breakpoints ∧ n ∉ Debugger.dropped u requested

theorem keeps_of_isCodeLine (h : u.isCodeLine n = true) : u.Keeps n := by
  refine ⟨h, fun requested hn => ⟨?_, ?_⟩⟩
  · exact List.mem_filter.mpr ⟨Debugger.mem_sortLines.mpr hn, h⟩
  · intro hdropped
    simpa [h] using (List.mem_filter.mp hdropped).2

end SourceUnit

theorem Program.Contains.everywhere {q : Program} {n : Node} {P : Node → Prop} (h : q.Contains n)
    (hq : ∀ c ∈ q.body, c.Everywhere P) : n.Everywhere P := by
  induction h with
  | statement hn => exact hq _ hn
  | inside _ hc ih => exact ih.inside _ hc

/-- Where breakpoints are kept, for a source that compiles. They are on every line where a node of
the program starts, at any depth, and so on the line of every statement, unless the line starts in a
text that a line above it began, or, behind ASCII blanks, with a word that starts with another
blank. If no module has the file name of the program, the lines that a run reports for it are lines
where nodes of the program start. -/
theorem breakpoints_kept (u : SourceUnit) {maxDepth : Nat} {p : Program}
    (hp : compile u.text u.file maxDepth = .ok p) :
    (∀ n, p.Contains n → ¬ u.StartsInText n.line → ¬ u.StartsBlank n.line → u.Keeps n.line) ∧
    ∀ (σ : Type) (h : Host σ) (env : Environment), env.registry.AllStandard → env.registry.IsOwn →
      (∀ name s q, env.registry.get? name = some ⟨s, .script q⟩ → q.file ≠ u.file) →
      ∀ fuel t, ∀ x ∈ (p.dialogue env fuel).exchanges h t, ∀ line, x.query = .line u.file line →
        ∃ n, p.Contains n ∧ n.line = line := by
  obtain ⟨fs, hparse, hfile, -, hbody⟩ := compile_made hp
  refine ⟨fun n hn hstart hblank => ?_, fun σ h env hr hown hother fuel t x hx line hq => ?_⟩
  · obtain ⟨f, hf, hmade⟩ := (hn.everywhere hbody).self
    rw [hmade.line] at hstart hblank ⊢
    exact SourceUnit.keeps_of_isCodeLine (u.isCodeLine_of_form hparse hf hstart hblank)
  · obtain ⟨n, ⟨q, hq, hsame, hn⟩, hline⟩ :=
      reported_written h hr hown (compile_isOwn hp).2 fuel t hx hq
    rcases hq with rfl | ⟨name, s, hq⟩
    · exact ⟨n, hn, hline⟩
    · exact absurd hsame (hother name s q hq)

namespace Breakpoints

/-- A statement below a comment. -/
def plain : SourceUnit := ⟨"; a\n nil", "main.scm", 1⟩

/-- The second line goes on with a text that holds a semicolon, and a statement is behind it. -/
def hidden : SourceUnit := ⟨"\"a\n;b\" nil", "main.scm", 1⟩

def env : Environment := ⟨⟨[]⟩, 9⟩

/-- What a run of a source asks, and the lines of its statements. -/
def traced (p : Program) : List Nat × List Query :=
  (p.body.map Node.line, ((p.dialogue env 9).exchanges .obliging ()).map Exchange.query)

theorem exists_traced {u : SourceUnit} {r : List Nat × List Query}
    (h : (compile u.text u.file 9).toOption.map traced = some r) :
    ∃ p, compile u.text u.file 9 = .ok p ∧ p.body.map Node.line = r.1 ∧
      ((p.dialogue env 9).exchanges .obliging ()).map Exchange.query = r.2 := by
  cases hp : compile u.text u.file 9 with
  | error e =>
    rw [hp] at h
    cases h
  | ok p =>
    rw [hp] at h
    cases h
    exact ⟨p, rfl, rfl, rfl⟩

theorem plain_line : ¬ plain.StartsInText 2 ∧ ¬ plain.StartsBlank 2 := by
  constructor
  · rintro ⟨above, rest, htext, habove, hnumber, hzone⟩
    have hcount : "; a\n".toList.count '\n' = 1 := by decide +kernel
    have hstart : AtLine "; a\n".toList := by
      rw [show "; a\n".toList = "; a".toList ++ ['\n'] by decide +kernel]
      exact Text.atLine_newline _
    have hsource : above ++ rest = "; a\n".toList ++ " nil".toList :=
      htext.symm.trans (by decide +kernel)
    have hline : above = "; a\n".toList := habove.unique hstart hsource (by omega)
    subst hline
    exact absurd hzone (by decide +kernel)
  · rintro ⟨c, hc, hblank⟩
    have hfirst : ((Text.lineText plain.text 2).toList.dropWhile isAsciiBlank).head? =
        some 'n' := by decide +kernel
    cases hfirst.symm.trans hc
    exact absurd hblank (by decide)

theorem breakpoints_kept_plain : ∃ p, compile plain.text plain.file 9 = .ok p ∧
    (∃ n, p.Contains n ∧ n.line = 2 ∧ plain.Keeps 2) ∧
    ∃ x ∈ (p.dialogue env 9).exchanges .obliging (), x.query = .line "main.scm" 2 ∧
      ∃ n, p.Contains n ∧ n.line = 2 := by
  obtain ⟨p, hp, hlines, hasked⟩ := exists_traced (u := plain)
    (r := ([2], [.line "main.scm" 2, .poll])) (by decide +kernel)
  obtain ⟨hkept, hreported⟩ := breakpoints_kept plain hp
  obtain ⟨n, hn, hline⟩ : ∃ n ∈ p.body, n.line = 2 := List.mem_map.mp (by rw [hlines]; simp)
  obtain ⟨x, hx, hq⟩ : ∃ x ∈ (p.dialogue env 9).exchanges .obliging (),
      x.query = .line plain.file 2 := List.mem_map.mp (by rw [hasked]; simp [plain])
  refine ⟨p, hp, ⟨n, .statement hn, hline, ?_⟩, x, hx, hq, ?_⟩
  · have hn := hkept n (.statement hn) (hline ▸ plain_line.1) (hline ▸ plain_line.2)
    rwa [hline] at hn
  · exact hreported Unit .obliging env (fun m hm => by cases hm) (fun _ _ _ h => by cases h)
      (fun _ _ _ h => by cases h) 9 () x hx 2 hq

/-- A breakpoint is dropped from a line where a statement starts and which the run reports. -/
theorem statement_behind_text : ∃ p, compile hidden.text hidden.file 9 = .ok p ∧
    (∃ n ∈ p.body, n.line = 2) ∧
    (∃ x ∈ (p.dialogue env 9).exchanges .obliging (), x.query = .line hidden.file 2) ∧
    hidden.isCodeLine 2 = false ∧ 2 ∉ (Debugger.start hidden [2]).breakpoints := by
  obtain ⟨p, hp, hlines, hasked⟩ := exists_traced (u := hidden)
    (r := ([1, 2], [.line "main.scm" 1, .poll, .line "main.scm" 2, .poll])) (by decide +kernel)
  refine ⟨p, hp, ?_, ?_, by decide +kernel, by decide +kernel⟩
  · exact List.mem_map.mp (by rw [hlines]; simp)
  · exact List.mem_map.mp (by rw [hasked]; simp [hidden])

end Breakpoints
end Lispbox
