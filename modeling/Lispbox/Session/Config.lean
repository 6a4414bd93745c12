import Lispbox.Json.Reader
import Lispbox.Text.Blank
/-!
# Configuration

Settings are refused if a session could not run with them; `Config.validate` names the first reason.
-/
namespace Lispbox

/-- The settings of a session. -/
structure Config where
  /-- How many frames may be active, and how deep lists of a source may be nested. -/
  recursionLimit : Nat
  /-- The file name of sources that are given none. -/
  defaultFile : String
  workerStackBytes : Nat
  /-- Pauses of scripts take their time. -/
  honorSleep : Bool
  deriving DecidableEq, Repr

/-- The settings when none are given. Mirrors `default`. -/
def Config.default : Config := ⟨500, "main.scm", 64 * 1024 * 1024, true⟩

/-- The smallest stack that is accepted. Mirrors `MIN_WORKER_STACK_BYTES`. -/
def minStackBytes : Nat := 256 * 1024

/-- Why settings are refused. -/
inductive Config.Fault where
  | recursionLimit
  | workerStack
  | defaultFile
  deriving DecidableEq, Repr

/-- The wording of a refusal. -/
def Config.Fault.message : Config.Fault → String
  | .recursionLimit => "recursion_limit must be at least 1"
  | .workerStack => "worker_stack_bytes must be at least " ++ toString minStackBytes
  | .defaultFile => "default_filename must not be empty"

/-- The text of an error about refused settings. -/
def Config.Fault.describe (f : Config.Fault) : String := "invalid configuration: " ++ f.message

/-- The first reason to refuse settings. Mirrors `validate`. -/
def Config.validate (c : Config) : Except Config.Fault Unit :=
  if c.recursionLimit = 0 then .error .recursionLimit
  else if c.workerStackBytes < minStackBytes then .error .workerStack
  else if (Text.trim c.defaultFile).isEmpty then .error .defaultFile
  else .ok ()

end Lispbox
