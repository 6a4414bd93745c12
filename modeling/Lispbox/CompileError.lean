import Lispbox.Text.Blank
import Lispbox.Text.Lines
import Lispbox.Text.Pos
/-!
# Compile errors

What is wrong with a source, where, and the line it is on. Its text has the shape of a traceback
entry, so that users read syntax errors and failures of a run alike.
-/
namespace Lispbox

/-- A fault of a source, found before anything is executed. -/
structure CompileError where
  file : String
  line : Nat
  column : Nat
  message : String
  /-- The text of the faulty line. -/
  sourceLine : String
  deriving DecidableEq, Repr

/-- The error at a position of a source; it quotes the line of the position. Mirrors `error`. -/
def CompileError.at (file source : String) (pos : Pos) (message : String) : CompileError :=
  ⟨file, pos.line, pos.column, message, Text.lineText source pos.line⟩

/-- The text of the error. -/
def CompileError.render (e : CompileError) : String :=
  "  File \"" ++ e.file ++ "\", line " ++ toString e.line ++ "\n    " ++ Text.trim e.sourceLine
    ++ "\nSyntaxError: " ++ e.message

end Lispbox
