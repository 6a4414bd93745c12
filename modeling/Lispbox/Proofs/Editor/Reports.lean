import Lispbox.Editor.Diagnostic
import Lispbox.Proofs.Text.Lines
import Lispbox.Proofs.Text.Numerals
import Lispbox.Proofs.Text.Pieces
import Mathlib.Data.List.Forall2

/-!
# Reading reports

A report is what a checker writes: findings, one on a line, between lines of other kinds. The
structures here are reports before they are text, so that it can be said what is to be read from the
text of one.

* `Finding.text`, `Report.text`: how findings and reports are written.
* `ofLine?_finding`, `ofLine?_other`: what is read from a line; blanks at its end do not count.
* `report_read`: from a report, its findings are read, each one and in order.
-/
namespace Lispbox

open Text (Replaced Trimmed dropBlankEnd dropReturn isBlank isDigits linesFrom)

/-! ## Findings as text -/

/-- A number as a report may give it, with a plus or zeros in front. -/
structure Numeral where
  plus : Bool
  zeros : Nat
  value : Nat
  small : value < word32

def Numeral.digits (n : Numeral) : List Char :=
  List.replicate n.zeros '0' ++ Nat.toDigits 10 n.value

def Numeral.text (n : Numeral) : List Char :=
  if n.plus then '+' :: n.digits else n.digits

/-- A finding as a report gives it. -/
structure Finding where
  path : List Char
  line : Numeral
  column : Numeral
  endLine : Option Numeral
  endColumn : Option Numeral
  severity : Severity
  message : List Char
  /-- What stands behind the message. -/
  blanks : List Char
  path_plain : ':' ∉ path ∧ '\n' ∉ path
  message_plain : ':' ∉ message ∧ '\n' ∉ message
  blanks_plain : ∀ c ∈ blanks, isBlank c = true ∧ c ≠ '\n'

namespace Finding

/-- The fields in front of the message; an end that is not given is an empty field. -/
def front (f : Finding) : List (List Char) :=
  [f.path, f.line.text, f.column.text, f.endLine.elim [] Numeral.text,
    f.endColumn.elim [] Numeral.text, f.severity.name.toList]

def text (f : Finding) : List Char := [':'].intercalate (f.front ++ [f.message]) ++ f.blanks

/-- The diagnostic has everything from the finding: its numbers, where the start stands in for an
end that is not given, its severity, and its message, trimmed and without the mark of a file that
has no name. -/
structure IsRead (f : Finding) (d : Diagnostic) : Prop where
  line : d.line = f.line.value
  column : d.column = f.column.value
  endLine : d.endLine = (f.endLine.getD f.line).value
  endColumn : d.endColumn = (f.endColumn.getD f.column).value
  severity : d.severity = f.severity
  message : ∃ trimmed, Trimmed f.message trimmed ∧
    Replaced "(<unknown>, ".toList "(".toList trimmed d.message.toList

/-- There is one diagnostic for a finding. -/
theorem IsRead.unique {f : Finding} {d e : Diagnostic} (hd : f.IsRead d) (he : f.IsRead e) :
    d = e := by
  obtain ⟨trimmed, htrimmed, hreplaced⟩ := hd.message
  obtain ⟨trimmed', htrimmed', hreplaced'⟩ := he.message
  obtain rfl : trimmed = trimmed' :=
    htrimmed.eq_dropBlankEnd.trans htrimmed'.eq_dropBlankEnd.symm
  have hmessage : d.message = e.message :=
    String.toList_inj.mp (hreplaced.unique (by decide) hreplaced')
  cases d
  cases e
  rw [Diagnostic.mk.injEq]
  exact ⟨hd.line.trans he.line.symm, hd.column.trans he.column.symm,
    hd.endLine.trans he.endLine.symm, hd.endColumn.trans he.endColumn.symm,
    hd.severity.trans he.severity.symm, hmessage⟩

end Finding

/-! ## Reports as text -/

/-- A line of a report. -/
inductive ReportLine where
  | finding (f : Finding)
  /-- Any other line, unless it has as many colons as a finding. -/
  | other (text : List Char) (plain : '\n' ∉ text) (colons : text.count ':' ≠ 6)

namespace ReportLine

def text : ReportLine → List Char
  | finding f => f.text
  | other text _ _ => text

def finding? : ReportLine → Option Finding
  | finding f => some f
  | other _ _ _ => none

end ReportLine

/-- What ends a line: a line feed, which may have a carriage return in front. -/
inductive LineEnding where
  | lf
  | crlf

def LineEnding.text : LineEnding → List Char
  | .lf => ['\n']
  | .crlf => ['\r', '\n']

/-- A report. -/
structure Report where
  lines : List (ReportLine × LineEnding)
  /-- A line at the end of the report that nothing ends. -/
  last : Option ReportLine
  last_nonempty : ∀ l ∈ last, l.text ≠ []

namespace Report

def text (r : Report) : String :=
  String.ofList ((r.lines.flatMap fun (l, ending) => l.text ++ ending.text) ++
    r.last.elim [] ReportLine.text)

def allLines (r : Report) : List ReportLine := r.lines.map Prod.fst ++ r.last.toList

/-- The findings of a report, in its order. -/
def findings (r : Report) : List Finding := r.allLines.filterMap ReportLine.finding?

end Report

/-! ## Reading a field -/

theorem Numeral.isDigit_of_mem {n : Numeral} {c : Char} (h : c ∈ n.digits) : c.isDigit = true := by
  rcases List.mem_append.mp h with h | h
  · cases List.eq_of_mem_replicate h
    decide
  · exact Text.isDigit_of_mem_toDigits h

theorem Numeral.not_mem_text {c : Char} (hdigit : c.isDigit = false) (hplus : c ≠ '+')
    (n : Numeral) : c ∉ n.text := by
  have hdigits : c ∉ n.digits := fun h => by simp [isDigit_of_mem h] at hdigit
  unfold text
  split
  · simp [hplus, hdigits]
  · exact hdigits

theorem Numeral.isDigits_digits (n : Numeral) : isDigits n.digits = true :=
  Text.isDigits_of_all (List.append_ne_nil_of_right_ne_nil _ Nat.toDigits_ne_nil)
    fun _ => isDigit_of_mem

theorem Numeral.digitsValue_digits (n : Numeral) : Text.digitsValue n.digits = n.value := by
  rw [← Text.digitsValue_significant, digits, Text.significant,
    List.dropWhile_append_of_pos (by simp), ← Text.significant, Text.digitsValue_significant,
    Text.digitsValue_toDigits]

namespace Diagnostic

theorem readNumber?_text (n : Numeral) : readNumber? n.text = some n.value := by
  have hnumber : (if isDigits n.digits && Text.digitsValue n.digits < word32 then
      some (Text.digitsValue n.digits) else none) = some n.value := by
    simp [n.isDigits_digits, n.digitsValue_digits, n.small]
  unfold Numeral.text
  split
  · exact hnumber
  · -- digits do not begin with a plus
    have hplus (rest : List Char) (h : n.digits = '+' :: rest) : False :=
      absurd (Numeral.isDigit_of_mem (h ▸ List.mem_cons_self)) (by decide)
    unfold readNumber?
    split
    · next rest hrest => exact (hplus rest hrest).elim
    · exact hnumber

theorem readNumberOr?_text (n : Option Numeral) (start : Numeral) :
    readNumberOr? start.value (n.elim [] Numeral.text) = some (n.getD start).value := by
  cases n with
  | none => rfl
  | some n =>
    have hread := readNumber?_text n
    have hne : n.text ≠ [] := by
      intro hempty
      rw [hempty] at hread
      cases hread
    rw [readNumberOr?, if_neg (by simpa using hne)]
    exact hread

end Diagnostic

theorem Severity.ofName?_name (s : Severity) : ofName? s.name = some s := by cases s <;> decide

/-! ## Reading a line -/

namespace Diagnostic

theorem ofLine?_other {s : String} (h : s.toList.count ':' ≠ 6) : ofLine? s = none := by
  have hcut : (Text.pieces ':' (dropBlankEnd s.toList)).length ≠ 7 := by
    rw [Text.length_pieces, Text.count_dropBlankEnd (by decide)]
    omega
  unfold ofLine?
  split
  · next hfields => exact absurd (congrArg List.length hfields) hcut
  · rfl

end Diagnostic

namespace Finding

/-- A character that is not in the path and is no part of a number or of a severity. -/
theorem not_mem_front {f : Finding} {c : Char} (hpath : c ∉ f.path) (hdigit : c.isDigit = false)
    (hplus : c ≠ '+') (hletter : c.isLower = false) : ∀ field ∈ f.front, c ∉ field := by
  have hnumber (n : Numeral) : c ∉ n.text := n.not_mem_text hdigit hplus
  have hend (n : Option Numeral) : c ∉ n.elim [] Numeral.text := by
    cases n with
    | none => exact List.not_mem_nil
    | some n => exact hnumber n
  have hseverity : c ∉ f.severity.name.toList := by
    have hlower : f.severity.name.toList.all Char.isLower = true := by
      cases f.severity <;> decide
    intro hmem
    rw [List.all_eq_true.mp hlower c hmem] at hletter
    cases hletter
  simp [front, hnumber, hend, hseverity, hpath]

/-- Where the line of a finding is trimmed, its message is. -/
theorem dropBlankEnd_text (f : Finding) :
    dropBlankEnd f.text = [':'].intercalate (f.front ++ [dropBlankEnd f.message]) := by
  have hne : f.front ≠ [] := List.cons_ne_nil _ _
  rw [text, Text.dropBlankEnd_append_blanks fun c hc => (f.blanks_plain c hc).1,
    Text.intercalate_concat hne, Text.dropBlankEnd_append_cons (by decide),
    Text.intercalate_concat hne]

theorem pieces_text (f : Finding) :
    Text.pieces ':' (dropBlankEnd f.text) = f.front ++ [dropBlankEnd f.message] := by
  have hmessage : ':' ∉ dropBlankEnd f.message := by
    rw [← List.count_eq_zero, Text.count_dropBlankEnd (by decide), List.count_eq_zero]
    exact f.message_plain.1
  rw [dropBlankEnd_text, Text.pieces_intercalate (by simp)]
  intro field hmem
  rcases List.mem_append.mp hmem with hmem | hmem
  · exact not_mem_front f.path_plain.1 (by decide) (by decide) (by decide) field hmem
  · exact List.mem_singleton.mp hmem ▸ hmessage

theorem newline_not_mem_text (f : Finding) : '\n' ∉ f.text := by
  intro hmem
  rcases List.mem_append.mp hmem with hmem | hmem
  · obtain ⟨field, hfield, hmem⟩ := (Text.mem_intercalate hmem).resolve_left (by decide)
    rcases List.mem_append.mp hfield with hfield | hfield
    · exact not_mem_front f.path_plain.2 (by decide) (by decide) (by decide) field hfield hmem
    · exact f.message_plain.2 (List.mem_singleton.mp hfield ▸ hmem)
  · exact (f.blanks_plain _ hmem).2 rfl

end Finding

theorem Diagnostic.ofLine?_finding {f : Finding} {s : String}
    (h : dropBlankEnd s.toList = dropBlankEnd f.text) : ∃ d, ofLine? s = some d ∧ f.IsRead d := by
  have hfields : Text.pieces ':' (dropBlankEnd s.toList) =
      [f.path, f.line.text, f.column.text, f.endLine.elim [] Numeral.text,
        f.endColumn.elim [] Numeral.text, f.severity.name.toList, dropBlankEnd f.message] := by
    rw [h, f.pieces_text]
    rfl
  refine ⟨⟨f.line.value, f.column.value, (f.endLine.getD f.line).value,
    (f.endColumn.getD f.column).value, f.severity,
    cleanMessage (String.ofList (dropBlankEnd f.message))⟩, ?_, rfl, rfl, rfl, rfl, rfl, ?_⟩
  · unfold ofLine?
    rw [hfields]
    dsimp only
    rw [readNumber?_text, readNumber?_text, String.ofList_toList, Severity.ofName?_name]
    simp only [Option.bind_eq_bind, Option.bind_some, readNumberOr?_text]
    rfl
  · exact ⟨_, Text.trimmed_dropBlankEnd _,
      Text.replaced_replace String.toList_ofList (by decide) _⟩

/-! ## Reading a report -/

theorem ReportLine.newline_not_mem_text (l : ReportLine) : '\n' ∉ l.text := by
  cases l with
  | finding f => exact f.newline_not_mem_text
  | other _ plain _ => exact plain

/-- The line is cut out of a report for this line of it. -/
def ReportLine.IsCut (l : ReportLine) (s : String) : Prop :=
  dropBlankEnd s.toList = dropBlankEnd l.text

theorem ReportLine.read {l : ReportLine} {s : String} (h : l.IsCut s) :
    Option.Rel Finding.IsRead l.finding? (Diagnostic.ofLine? s) := by
  cases l with
  | finding f =>
    obtain ⟨d, hread, hd⟩ := Diagnostic.ofLine?_finding h
    rw [hread]
    exact .some hd
  | other text _ colons =>
    have hcolons : s.toList.count ':' ≠ 6 := by
      rw [← Text.count_dropBlankEnd (by decide), h, Text.count_dropBlankEnd (by decide)]
      exact colons
    rw [Diagnostic.ofLine?_other hcolons]
    exact .none

theorem isBlank_return : ∀ c ∈ ['\r'], isBlank c = true := List.forall_mem_singleton.mpr (by decide)

theorem Text.dropBlankEnd_dropReturn (cs : List Char) :
    dropBlankEnd (dropReturn cs.reverse).reverse = dropBlankEnd cs := by
  unfold dropReturn
  split
  · next ds hds =>
    have hcs : cs = ds.reverse ++ ['\r'] := by
      rw [← List.reverse_cons, ← hds, List.reverse_reverse]
    rw [hcs, Text.dropBlankEnd_append_blanks isBlank_return]
  · rw [List.reverse_reverse]

/-- A line with its ending, and the rest of the report behind it. -/
theorem ReportLine.exists_cut (l : ReportLine) (ending : LineEnding) (rest : List Char) :
    ∃ line, linesFrom [] (l.text ++ ending.text ++ rest) = line :: linesFrom [] rest ∧
      l.IsCut (String.ofList line) := by
  cases ending with
  | lf =>
    refine ⟨(dropReturn (l.text.reverse ++ [])).reverse, ?_, ?_⟩
    · rw [LineEnding.text, List.append_assoc, List.singleton_append,
        Text.linesFrom_append l.newline_not_mem_text]
    · rw [IsCut, String.toList_ofList, List.append_nil, Text.dropBlankEnd_dropReturn]
  | crlf =>
    have hplain : '\n' ∉ l.text ++ ['\r'] := by simp [l.newline_not_mem_text]
    refine ⟨(dropReturn ((l.text ++ ['\r']).reverse ++ [])).reverse, ?_, ?_⟩
    · rw [LineEnding.text, ← List.singleton_append, ← List.append_assoc, List.append_assoc _ ['\n'],
        List.singleton_append, Text.linesFrom_append hplain]
    · rw [IsCut, String.toList_ofList, List.append_nil, Text.dropBlankEnd_dropReturn,
        Text.dropBlankEnd_append_blanks isBlank_return]

/-- The lines of a report, as they are cut. -/
theorem Report.cut (r : Report) :
    List.Forall₂ ReportLine.IsCut r.allLines (Text.lines r.text) := by
  obtain ⟨lines, last, hlast⟩ := r
  rw [Text.lines, text, String.toList_ofList, allLines]
  dsimp only
  induction lines with
  | nil =>
    cases last with
    | none => exact .nil
    | some l =>
      have hline : linesFrom [] l.text = [l.text] := by
        rw [Text.linesFrom_last l.newline_not_mem_text, if_neg (by simp [hlast])]
        rfl
      rw [List.flatMap_nil, List.nil_append, Option.elim_some, hline]
      exact .cons (by rw [ReportLine.IsCut, String.toList_ofList]) .nil
  | cons lineEnding lines ih =>
    obtain ⟨l, ending⟩ := lineEnding
    obtain ⟨line, hlines, hline⟩ := l.exists_cut ending _
    rw [List.flatMap_cons, List.append_assoc, hlines]
    exact .cons hline ih

/-- From a report, its findings are read, each one and in order. -/
theorem report_read (r : Report) :
    List.Forall₂ Finding.IsRead r.findings (Diagnostic.ofReport r.text) :=
  List.rel_filterMap (fun _ _ h => ReportLine.read h) r.cut

namespace Reporting

/-- A finding without ends, with the mark of a file that has no name, and with a blank behind it. -/
def unnamed : Finding where
  path := "main.scm".toList
  line := ⟨true, 0, 3, by decide⟩
  column := ⟨false, 1, 7, by decide⟩
  endLine := none
  endColumn := none
  severity := .error
  message := "bad (<unknown>, line 3)".toList
  blanks := [' ']
  path_plain := by decide
  message_plain := by decide
  blanks_plain := List.forall_mem_singleton.mpr (by decide)

/-- A finding with its ends. -/
def spanning : Finding where
  path := "a.scm".toList
  line := ⟨false, 0, 1, by decide⟩
  column := ⟨false, 0, 2, by decide⟩
  endLine := some ⟨false, 0, 3, by decide⟩
  endColumn := some ⟨false, 0, 4, by decide⟩
  severity := .warning
  message := "long".toList
  blanks := []
  path_plain := by decide
  message_plain := by decide
  blanks_plain := List.forall_mem_nil _

/-- A report that begins with a line of another kind and whose last line is not ended. -/
def report : Report where
  lines := [(.other "a: checked".toList (by decide) (by decide), .crlf), (.finding unnamed, .crlf)]
  last := some (.finding spanning)
  last_nonempty := by decide

/-- One diagnostic for each of the two findings. -/
theorem report_read_two :
    report.text = "a: checked\r\nmain.scm:+3:07:::error:bad (<unknown>, line 3) \r\n" ++
      "a.scm:1:2:3:4:warning:long" ∧
    List.Forall₂ Finding.IsRead [unnamed, spanning]
      [⟨3, 7, 3, 7, .error, "bad (line 3)"⟩, ⟨1, 2, 3, 4, .warning, "long"⟩] := by
  have hread : List.Forall₂ Finding.IsRead report.findings (Diagnostic.ofReport report.text) :=
    report_read report
  have hdiagnostics : Diagnostic.ofReport report.text =
      [⟨3, 7, 3, 7, .error, "bad (line 3)"⟩, ⟨1, 2, 3, 4, .warning, "long"⟩] := by decide +kernel
  rw [hdiagnostics] at hread
  exact ⟨by decide +kernel, hread⟩

end Reporting
end Lispbox
