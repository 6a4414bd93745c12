import Lispbox.Integer.Power
import Lispbox.Text.Blank
import Lispbox.Text.Digits
import Lispbox.Text.Lines
import Lispbox.Text.Split
/-!
# Diagnostics

A report of a checker has a line `path:line:column:end_line:end_column:severity:message` for each
finding; an end that is not given is the start. Other lines are skipped.

Findings keep their order; `Diagnostic.cleanMessage` removes the name of a file that has none.
-/
namespace Lispbox

/-- How serious a finding is. -/
inductive Severity where
  /-- The checker itself failed. -/
  | fatal
  | error
  | warning
  | convention
  | refactor
  deriving DecidableEq, Repr

/-- The word for a severity. -/
def Severity.name : Severity → String
  | .fatal => "fatal"
  | .error => "error"
  | .warning => "warning"
  | .convention => "convention"
  | .refactor => "refactor"

/-- The severity with a name. -/
def Severity.ofName? (name : String) : Option Severity :=
  [Severity.fatal, .error, .warning, .convention, .refactor].find? (·.name == name)

/-- A finding. -/
structure Diagnostic where
  line : Nat
  column : Nat
  endLine : Nat
  endColumn : Nat
  severity : Severity
  message : String
  deriving DecidableEq, Repr

namespace Diagnostic

/-- A number of 32 bits in decimal digits, possibly with a plus in front. -/
def readNumber? (cs : List Char) : Option Nat :=
  let digits := match cs with
    | '+' :: rest => rest
    | _ => cs
  if Text.isDigits digits && Text.digitsValue digits < word32 then some (Text.digitsValue digits)
  else none

/-- A number, or a default for an empty field. Mirrors `optional_number`. -/
def readNumberOr? (default : Nat) (cs : List Char) : Option Nat :=
  if cs.isEmpty then some default else readNumber? cs

/-- The message of a finding; a checker that was given no file name says so in front of a place. -/
def cleanMessage (message : String) : String := Text.replace message "(<unknown>, " "("

/-- The finding on a line of a report, if there is one. Mirrors `parse_report_line`. -/
def ofLine? (line : String) : Option Diagnostic :=
  match Text.pieces ':' (Text.dropBlankEnd line.toList) with
  | [_, line, column, endLine, endColumn, severity, message] => do
    let line ← readNumber? line
    let column ← readNumber? column
    let endLine ← readNumberOr? line endLine
    let endColumn ← readNumberOr? column endColumn
    let severity ← Severity.ofName? (String.ofList severity)
    return ⟨line, column, endLine, endColumn, severity, cleanMessage (String.ofList message)⟩
  | _ => none

/-- The findings of a report, in order. Mirrors `parse_report`. -/
def ofReport (report : String) : List Diagnostic := (Text.lines report).filterMap ofLine?

end Diagnostic
end Lispbox
