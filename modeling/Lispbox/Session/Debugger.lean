import Lispbox.Session.Source
/-!
# The line debugger

A debug run starts without a pause and stops before the lines with breakpoints; at a pause the user
goes on to the next breakpoint, or steps to the next line, or quits. Lines of other files never
pause.

* `reach_pauses_iff`: the lines that pause a run.
-/
namespace Lispbox

/-- What the user asks for at a pause. -/
inductive DebugCommand where
  | continue_
  | step
  | quit
  deriving DecidableEq, Repr

/-- The word for a command. -/
def DebugCommand.name : DebugCommand → String
  | .continue_ => "continue"
  | .step => "step"
  | .quit => "quit"

/-- The command with a name. -/
def DebugCommand.ofName? (name : String) : Option DebugCommand :=
  [DebugCommand.continue_, .step, .quit].find? (·.name == name)

/-- What the debugger is doing. -/
inductive DebugState where
  | inactive
  /-- Just started; runs to the first breakpoint. -/
  | autoContinue
  | paused (line : Nat)
  | continuing
  /-- Pauses at the next line. -/
  | stepping
  deriving DecidableEq, Repr

/-- The debugger of a session. -/
structure Debugger where
  /-- The lines with breakpoints, in increasing order. -/
  breakpoints : List Nat
  state : DebugState
  file : Option String
  deriving DecidableEq, Repr

namespace Debugger

/-- No debug run. Mirrors `new`. -/
def inactive : Debugger := ⟨[], .inactive, none⟩

/-- A debug run is active. Mirrors `is_debugging`. -/
def isDebugging (d : Debugger) : Bool := d.state != .inactive

/-- Lines in increasing order, each once. -/
def sortLines (ns : List Nat) : List Nat := (ns.mergeSort (· ≤ ·)).eraseDups

/-- The requested lines that cannot have a breakpoint. -/
def dropped (u : SourceUnit) (requested : List Nat) : List Nat :=
  (sortLines requested).filter fun n => !u.isCodeLine n

/-- Starts debugging a source; breakpoints on lines without code are dropped. Mirrors `start`. -/
def start (u : SourceUnit) (requested : List Nat) : Debugger :=
  ⟨(sortLines requested).filter u.isCodeLine, .autoContinue, some u.file⟩

/-- Ends debugging. Mirrors `stop`. -/
def stop (_ : Debugger) : Debugger := inactive

/-- The run pauses before the line of the debugged file. Mirrors the decision of `on_line`. -/
def pausesAt (d : Debugger) (line : Nat) : Bool :=
  match d.state with
  | .inactive | .paused _ => false
  | .autoContinue | .continuing => d.breakpoints.contains line
  | .stepping => true

/-- A line is reached: whether the run pauses, and the debugger after that. Mirrors `on_line`. -/
def reach (d : Debugger) (file : String) (line : Nat) : Bool × Debugger :=
  if d.file = some file ∧ d.pausesAt line then (true, { d with state := .paused line })
  else (false, d)

theorem reach_pauses_iff (d : Debugger) (file : String) (line : Nat) :
    (d.reach file line).1 = true ↔ d.file = some file ∧ d.pausesAt line = true := by
  unfold reach
  split
  · next h => simp [h]
  · next h => simpa using h

/-- The debugger after the user's answer to a pause; nothing if the program ends. Mirrors
`resume`. -/
def resume (d : Debugger) : DebugCommand → Option Debugger
  | .continue_ => some { d with state := .continuing }
  | .step => some { d with state := .stepping }
  | .quit => none

end Debugger
end Lispbox
