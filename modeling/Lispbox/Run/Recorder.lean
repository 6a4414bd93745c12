import Lispbox.Run.Host
/-!
# A host that records

The recorder answers from lists that are given in advance, stops the run where it is told to, and
keeps a log of what was asked. It is the measure for what a session shows of a run.
-/
namespace Lispbox

/-- The kinds of questions that a recorder can answer with a signal. -/
inductive Callback where
  | emit | input | sleep | line
  deriving DecidableEq, Repr

/-- What a recorder is told in advance. -/
structure Recording where
  files : List (String × String)
  /-- Lines are part of the log. -/
  logLines : Bool
  /-- After so many polls the run is interrupted. -/
  maxPolls : Option Nat
  /-- Which question, counted among its kind, and all after it, are answered with a signal. -/
  signal : Option (Callback × Nat × Signal)
  deriving Repr

/-- An entry of the log. -/
inductive LogEntry where
  | output (o : Output)
  | input (prompt : String)
  | sleep (duration : Nat)
  | line (file : String) (number : Nat)
  | read (name : String)
  deriving DecidableEq, Repr

/-- The state of a recorder. -/
structure Recorder where
  /-- The lines that are left. -/
  inputs : List String
  /-- How many questions of the kind of the signal were asked. -/
  asked : Nat
  polls : Nat
  /-- The log, newest entry first. -/
  log : List LogEntry
  deriving Repr

namespace Recorder

/-- Counts a question; its answer is a signal if that is due. -/
def check (r : Recording) (at_ : Callback) (s : Recorder) : Except Signal Unit × Recorder :=
  match r.signal with
  | none => (.ok (), s)
  | some (callback, n, signal) =>
    if callback = at_ then
      let s := { s with asked := s.asked + 1 }
      if n ≤ s.asked then (.error signal, s) else (.ok (), s)
    else (.ok (), s)

/-- Adds an entry to the log. -/
def note (s : Recorder) (e : LogEntry) : Recorder := { s with log := e :: s.log }

/-- Adds an entry for output; other events leave none. -/
def noteEvent (s : Recorder) : Event → Recorder
  | .output o => s.note (.output o)
  | .inputRequest _ | .sleep _ | .interrupt _ | .debugPause _ => s

/-- The answer to a question. -/
def reply (r : Recording) (s : Recorder) : (q : Query) → Except Signal q.Answer × Recorder
  | .poll =>
    let s := { s with polls := s.polls + 1 }
    match r.maxPolls with
    | some n => if n < s.polls then (.error .interrupt, s) else (.ok (), s)
    | none => (.ok (), s)
  | .line file number =>
    check r .line (if r.logLines then s.note (.line file number) else s)
  | .emit e =>
    match check r .emit s with
    | (.ok (), s) => (.ok (), s.noteEvent e)
    | (.error signal, s) => (.error signal, s)
  | .input prompt =>
    match check r .input (s.note (.input prompt)) with
    | (.ok (), s) =>
      match s.inputs with
      | line :: rest => (.ok line, { s with inputs := rest })
      | [] => (.error .interrupt, s)
    | (.error signal, s) => (.error signal, s)
  | .sleep duration => check r .sleep (s.note (.sleep duration))
  | .readFile name => (.ok (r.files.lookup name), s.note (.read name))

/-- The recorder as a host. -/
def host (r : Recording) : Host Recorder := ⟨reply r⟩

/-- Executes a program; the log and the count of polls start anew. -/
def execute [Supply] (r : Recording) (env : Environment) (fuel : Nat) (p : Program) (s : Recorder) :
    RunEnd × Machine × Recorder :=
  p.run (host r) env fuel { s with polls := 0, log := [] }

end Recorder
end Lispbox
