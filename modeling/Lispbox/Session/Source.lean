import Lispbox.Text.Blank
import Lispbox.Text.Lines
/-!
# The source of a session

The source is replaced as a whole and never edited; every replacement has a higher revision.
-/
namespace Lispbox

/-- The source of a run. -/
structure SourceUnit where
  text : String
  file : String
  revision : Nat
  deriving DecidableEq, Repr

namespace SourceUnit

/-- The source before any was given. Mirrors `new`. -/
def initial (file : String) : SourceUnit := ⟨"", file, 0⟩

/-- The next source. Mirrors `replace`. -/
def replace (u : SourceUnit) (text file : String) : SourceUnit := ⟨text, file, u.revision + 1⟩

/-- A trimmed line holds something other than a comment. -/
def isCode (line : String) : Bool :=
  !line.isEmpty && !line.startsWith ";"

/-- The line with the number, counted from 1, exists and holds something other than blanks and a
comment. Mirrors `is_code_line`. -/
def isCodeLine (u : SourceUnit) (n : Nat) : Bool :=
  match n with
  | 0 => false
  | i + 1 =>
    match (Text.lines u.text)[i]? with
    | some line => isCode (Text.trim line)
    | none => false

/-- The number of lines. Mirrors `line_count`. -/
def lineCount (u : SourceUnit) : Nat := (Text.lines u.text).length

end SourceUnit
end Lispbox
