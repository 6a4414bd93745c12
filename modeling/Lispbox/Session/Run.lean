import Lispbox.Session.Attempt
/-!
# Runs

A run publishes `start` first and one terminal message last. If its first attempt ends with a module
that could not be imported, the resolver is asked for it, and if the module is found the run is
started again from the beginning, once.

A command is taken at a wait or without a run: a run that does not wait is on its way to the next
wait or to its end, and there is no time in between. So a command that is sent while a source is
compiled or executed is not modelled, an interrupt among them.

* `Session.run_busy`: while a run is in flight no other is accepted, and nothing changes.
-/
namespace Lispbox

/-- What a run came to: nothing yet if it waits. -/
structure Progress where
  session : Session
  result : Option (Except RunFault Outcome)

/-- Why a run was interrupted. Mirrors `INTERRUPT_REASON`. -/
def interruptReason : String := "KeyboardInterrupt"

namespace Session

/-- Ends a run with its terminal message. Mirrors the end of `finish`, and the guards that are
dropped. -/
def close (s : Session) (m : Message) (state : ExecutionState) (o : Outcome) : Progress :=
  let s := (s.publish m).enter state
  ⟨{ s with debugger := s.debugger.stop, flight := none }, some (.ok o)⟩

/-- Ends a run as its last attempt ended. Mirrors `finish`. -/
def finish (s : Session) (source : SourceUnit) : AttemptEnd → Progress
  | .completed v => s.close (.finish v) .finished (.completed v)
  | .quit => s.close (.finish .nil) .finished (.completed .nil)
  | .compileFailed e => s.close (.compileError e) .errored (.compileFailed e)
  | .raised e =>
    let x := e.explain source.file s.setup.explainer
    s.close (.explanation x) .errored (.failed x)
  | .interrupted => s.close (.interrupt interruptReason) .interrupted .interrupted

/-- Ends a run that has no outcome. Mirrors the way `execute` ends with an error. -/
def fail (s : Session) (f : RunFault) : Progress :=
  let s := s.enter .errored
  ⟨{ s with debugger := s.debugger.stop, flight := none }, some (.error f)⟩

/-- Asks the resolver for a module; installs it if it is found. Mirrors `install_missing`. -/
def installMissing (s : Session) (name : String) : Bool × Session :=
  let s := (s.publish (.loading [name] .loading)).note (.resolve name)
  match s.setup.resolver.resolve name with
  | .ok m =>
    (true, { s with registry := s.registry.install m }.publish (.loading [name] .loaded))
  | .error _ => (false, s.publish (.loading [name] .failed))

/-- Starts the debugger if the request asks for it. Mirrors a part of `execute`. -/
def startDebugger (s : Session) (source : SourceUnit) (request : RunRequest) : Session :=
  match request.mode with
  | .debug => { s with debugger := Debugger.start source request.breakpoints }
  | .plain => s

/-- Goes on from where an attempt halted. Mirrors the loop of `execute`. -/
def proceed [Supply] (source : SourceUnit) (request : RunRequest) (files : List (String × String)) :
    (retries : Nat) → Halt → Stage → Progress
  | retries, .waits w, st =>
    ⟨{ st.session with flight := some ⟨source, request, retries, files, st.stdin, w⟩ }, none⟩
  | _, .faults f, st => st.session.fail f
  | 0, .ends e, st => st.session.finish source e
  | retries + 1, .ends e, st =>
    let missing := match e with
      | .raised e => e.missingModule
      | _ => none
    match missing with
    | none => st.session.finish source e
    | some name =>
      let (found, s) := st.session.installMissing name
      if found then
        let s := s.startDebugger source request
        let (halt, st) := s.attempt source request
        proceed source request s.files retries halt st
      else s.finish source e

/-- Starts a run whose source is in place. Mirrors `execute`. -/
def start [Supply] (s : Session) (source : SourceUnit) (request : RunRequest) : Progress :=
  let s := { s with mailbox := [], interrupted := false }
  let s := (s.enter .compiling).publish (.start request.mode)
  let s := s.startDebugger source request
  let (halt, st) := s.attempt source request
  proceed source request s.files 1 halt st

/-- Runs the current source, or the one of the request. Mirrors `run`. -/
def run [Supply] (s : Session) (request : RunRequest) : Except Busy Progress :=
  match s.flight with
  | some _ => .error .busy
  | none =>
    match request.source with
    | some text =>
      let s := { s with source := s.source.replace text (request.file.getD s.source.file) }
      .ok (s.start s.source request)
    | none => .ok (s.start s.source request)

theorem run_busy [Supply] {s : Session} {f : Flight} (h : s.flight = some f)
    (request : RunRequest) : s.run request = .error .busy := by
  simp [run, h]

/-- Goes on with a dialogue of a run in flight. -/
def resume [Supply] (s : Session) (f : Flight) (d : Dialogue (Except Exit Value)) : Progress :=
  let (halt, st) := converse (f.request.mode == .debug) f.files d ⟨s, f.stdin⟩
  proceed f.source f.request f.files f.retries halt st

/-- A command for a session. What a run does not wait for is ignored by it; an interrupt ends every
wait. Without a run the command stays until the next run discards it. Mirrors the commands in
`attempt`, with `provide_input`, `debug` and `interrupt`. -/
def command [Supply] (s : Session) (c : Command) : Progress :=
  match s.flight with
  | none =>
    ⟨{ s with mailbox := s.mailbox ++ [c], interrupted := s.interrupted || c == .interrupt }, none⟩
  | some f =>
    match c, f.wait with
    | .interrupt, wait => { s with interrupted := true }.resume f wait.interrupt
    | .input line, .input resume => (s.enter .running).resume f (resume (.ok line))
    | .debug c, .debug resume =>
      let s := s.enter .running
      match s.debugger.resume c with
      | some d => { s with debugger := d }.resume f (resume (.ok ()))
      | none => { s with debugger := s.debugger.stop }.resume f (resume (.error .quit))
    | _, _ => ⟨s, none⟩

/-- The pause of the script that a run waits for is over. Mirrors the deadline in `attempt`. -/
def elapse [Supply] (s : Session) : Progress :=
  match s.flight with
  | some f =>
    match f.wait with
    | .sleep _ resume => s.resume f (resume (.ok ()))
    | _ => ⟨s, none⟩
  | none => ⟨s, none⟩

end Session
end Lispbox
