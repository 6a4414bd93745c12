import Lispbox.CommandLine.Terminal
import Lispbox.Service.Basic
/-!
# Jobs

What a command line sets going: the run of a script with a terminal, or a service. A job takes lines
and interrupts until it exits with a status; a service exits when its client has nothing more to say
and no run is in flight.
-/
namespace Lispbox.CommandLine

/-- An error that ends a command, with what has caused it. -/
structure Failure where
  what : String
  cause : Option String
  deriving DecidableEq, Repr

/-- The text of an error. -/
def Failure.render (f : Failure) : String :=
  withNewline ("Error: " ++ f.what ++
    match f.cause with
    | some cause => "\n\nCaused by:\n    " ++ cause
    | none => "")

/-- The run of a script with a terminal. -/
structure Console where
  session : Session
  json : Bool
  /-- The result of the run when it is over. -/
  result : Option (Except RunFault Outcome)

namespace Console

/-- Shows what a session did. -/
def follow (c : Console) (p : Progress) : List Print × Console :=
  let (notices, s) := p.session.takeNotices
  let shown := (notices.filterMap Notice.message?).flatMap (Print.ofMessage c.json)
  let fault := match p.result with
    | some (.error f) => [.err (Failure.render ⟨Service.describeFault f, none⟩)]
    | _ => []
  (shown ++ fault, ⟨s, c.json, p.result⟩)

/-- Starts the run. -/
def start [Supply] (s : Session) (request : RunRequest) (json : Bool) : List Print × Console :=
  let c : Console := ⟨s, json, none⟩
  match s.run request with
  | .ok p => c.follow p
  | .error b => ([.err (Failure.render ⟨b.describe, none⟩)], c)

/-- Takes a line of the user. -/
def receive [Supply] (c : Console) (line : String) : List Print × Console :=
  if c.session.state = .debugPaused then
    match debugCommand? line with
    | some d => c.follow (c.session.command (.debug d))
    | none => ([.err (withNewline debugHint)], c)
  else c.follow (c.session.command (.input line))

/-- The status of the command when the run is over. -/
def exit? (c : Console) : Option Nat :=
  c.result.map fun r =>
    match r with
    | .ok (.completed _) => 0
    | _ => 1

end Console

/-- What a command line sets going. -/
inductive Job where
  | script (c : Console)
  | service (c : Service)

namespace Job

/-- A service writes to the standard output. -/
def serving (r : List Service.Line × Service) : List Print × Job :=
  (r.1.map fun l => .out (withNewline l.render), .service r.2)

/-- A console as a job. -/
def scripting (r : List Print × Console) : List Print × Job := (r.1, .script r.2)

/-- Takes a line of the standard input. -/
def receive [Supply] (line : String) : Job → List Print × Job
  | .script c => scripting (c.receive line)
  | .service c => serving (c.receive line)

/-- The standard input is at its end. A script goes on without it. -/
def close [Supply] : Job → List Print × Job
  | .script c => ([], .script c)
  | .service c => serving c.close

/-- Takes the interrupt of the user, which a service leaves to its surroundings. -/
def interrupt [Supply] : Job → List Print × Job
  | .script c => scripting (c.follow (c.session.command .interrupt))
  | .service c => ([], .service c)

/-- The pause of the script is over. -/
def elapse [Supply] : Job → List Print × Job
  | .script c => scripting (c.follow c.session.elapse)
  | .service c => serving c.elapse

/-- The session of a job. -/
def session : Job → Session
  | .script c => c.session
  | .service c => c.session

/-- How long the pause of the script is that the job waits for. -/
def pause? (j : Job) : Option Nat :=
  match j.session.flight.map Flight.wait with
  | some (.sleep duration _) => some duration
  | _ => none

/-- The status of the command when the job is done. -/
def exit? : Job → Option Nat
  | .script c => c.exit?
  | .service c => if c.closed && c.session.flight.isNone then some 0 else none

end Job
end Lispbox.CommandLine
