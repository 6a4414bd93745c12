/-!
# Modes and states of a session

* `ExecutionState.isActive`: the states in which a run is in flight.
-/
namespace Lispbox

/-- How a run is executed. -/
inductive RunMode where
  | plain
  /-- Under the line debugger. -/
  | debug
  deriving DecidableEq, Repr

/-- The word for a mode. -/
def RunMode.name : RunMode → String
  | .plain => "run"
  | .debug => "debug"

/-- The mode with a name. -/
def RunMode.ofName? (name : String) : Option RunMode :=
  [RunMode.plain, .debug].find? (·.name == name)

/-- What a session is doing. -/
inductive ExecutionState where
  /-- No run happened yet. -/
  | idle
  | compiling
  | running
  | debugPaused
  /-- Waiting for a line. -/
  | suspended
  | finished
  | interrupted
  | errored
  deriving DecidableEq, Repr

/-- The word for a state. -/
def ExecutionState.name : ExecutionState → String
  | .idle => "idle"
  | .compiling => "compiling"
  | .running => "running"
  | .debugPaused => "debug_paused"
  | .suspended => "suspended"
  | .finished => "finished"
  | .interrupted => "interrupted"
  | .errored => "errored"

/-- All states. -/
def ExecutionState.all : List ExecutionState :=
  [.idle, .compiling, .running, .debugPaused, .suspended, .finished, .interrupted, .errored]

/-- The state with a name. -/
def ExecutionState.ofName? (name : String) : Option ExecutionState :=
  ExecutionState.all.find? (·.name == name)

/-- A run is in flight. Mirrors `is_active`. -/
def ExecutionState.isActive : ExecutionState → Bool
  | .compiling | .running | .debugPaused | .suspended => true
  | _ => false

end Lispbox
