import Lispbox.Session.Debugger
import Lispbox.Session.State
/-!
# Requests for a run

* `RunRequest.default`: the current source, without a debugger and without lines.
-/
namespace Lispbox

/-- What is asked for when a run is started. -/
structure RunRequest where
  /-- A new source; otherwise the current one is run. -/
  source : Option String
  /-- The file name of a new source; otherwise the current one is kept. -/
  file : Option String
  mode : RunMode
  /-- The lines with breakpoints, in increasing order. -/
  breakpoints : List Nat
  /-- The lines that answer the first requests for input. -/
  stdin : List String
  deriving DecidableEq, Repr

/-- A run of the current source. -/
def RunRequest.default : RunRequest := ⟨none, none, .plain, [], []⟩

end Lispbox
