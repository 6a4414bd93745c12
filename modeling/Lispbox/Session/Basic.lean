import Lispbox.Message.Publication
import Lispbox.Run.Dialogue
import Lispbox.Session.Config
import Lispbox.Session.Debugger
import Lispbox.Session.Request
import Lispbox.Session.Resolver
/-!
# Sessions

A session owns a source, the installed modules, files and a debugger, and executes one run at a
time. A run that cannot go on by itself waits: for a line, for a debug command, or for the end of a
pause of the script. What a session does is recorded in notices, in order.

A run goes on to its next wait or to its end in one step, so commands meet a session only while it
is idle or while its run waits. That is one of the schedules of the client and the run; one in which
an interrupt comes while a source is compiled or executed is not among them.
-/
namespace Lispbox

/-- What a session is built from. -/
structure Setup where
  config : Config
  resolver : Resolver
  explainer : Explainer
  /-- A bound on the steps of an attempt, without which a dialogue would not have to be finite. It
  is not a setting of the source, where an attempt may go on forever: whatever an attempt comes to
  in the end it comes to with all bounds that are large enough, and the usual one is out of
  reach. -/
  fuel : Nat

/-- What a client sends to a session. -/
inductive Command where
  | input (line : String)
  | debug (c : DebugCommand)
  | interrupt
  deriving DecidableEq, Repr

/-- What a run waits for, and how it goes on. -/
inductive Wait where
  | input (resume : Except Signal String → Dialogue (Except Exit Value))
  | sleep (duration : Nat) (resume : Except Signal Unit → Dialogue (Except Exit Value))
  | debug (resume : Except Signal Unit → Dialogue (Except Exit Value))

/-- How the run goes on if it is interrupted. Mirrors the answer of `ask` when the reply is
dropped. -/
def Wait.interrupt : Wait → Dialogue (Except Exit Value)
  | .input resume => resume (.error .interrupt)
  | .sleep _ resume => resume (.error .interrupt)
  | .debug resume => resume (.error .interrupt)

/-- A run that waits. -/
structure Flight where
  source : SourceUnit
  request : RunRequest
  /-- How often the run may still be started again with a new module. -/
  retries : Nat
  /-- The files of the current attempt. -/
  files : List (String × String)
  /-- The lines of the request that the current attempt did not use yet. -/
  stdin : List String
  wait : Wait

/-- What a session does. -/
inductive Notice where
  | publish (m : Message)
  | enter (s : ExecutionState)
  /-- The resolver is asked for modules ahead of a run. -/
  | prefetch (names : List String)
  /-- The resolver is asked for a module that could not be imported. -/
  | resolve (name : String)
  deriving DecidableEq, Repr

/-- The message that is published, if one is. -/
def Notice.message? : Notice → Option Message
  | .publish m => some m
  | _ => none

/-- A session. -/
structure Session where
  setup : Setup
  source : SourceUnit
  registry : Registry
  /-- The files that the next attempt sees. -/
  files : List (String × String)
  state : ExecutionState
  debugger : Debugger
  /-- Commands that no run has taken; the next run discards them. -/
  mailbox : List Command
  /-- An interrupt was sent; the next run clears it. -/
  interrupted : Bool
  flight : Option Flight
  /-- What was done, newest first. -/
  notices : List Notice

/-- How a run ends. -/
inductive Outcome where
  /-- The script returned a value; nil if the debugger ended it. -/
  | completed (v : Value)
  | compileFailed (e : CompileError)
  | failed (e : Explanation)
  | interrupted
  deriving Repr

/-- The word for the way a run ends. -/
def Outcome.kind : Outcome → String
  | .completed _ => "completed"
  | .compileFailed _ => "compile_failed"
  | .failed _ => "failed"
  | .interrupted => "interrupted"

/-- Why a run has no outcome. -/
inductive RunFault where
  | unknownEvent (u : UnknownEvent)
  /-- The bound on the steps was reached. This is no end of a run: an attempt that ends here has not
  come to an end yet, and goes on with a larger bound. -/
  | exhausted
  deriving DecidableEq, Repr

/-- A request that a session refuses because a run is in flight. -/
inductive Busy where
  | busy
  deriving DecidableEq, Repr

/-- The text of the refusal. -/
def Busy.describe (_ : Busy) : String := "a run is already in progress"

/-- Why a session is not built. -/
inductive BuildFault where
  /-- There is nobody to publish messages to. -/
  | noSink
  | config (f : Config.Fault)
  deriving DecidableEq, Repr

/-- The text of the error. -/
def BuildFault.describe : BuildFault → String
  | .noSink => "an event callback must be registered before building a session"
  | .config f => "configuration error: " ++ f.describe

namespace Session

/-- A session that did nothing yet. -/
def idle (setup : Setup) (registry : Registry) : Session where
  setup := setup
  source := .initial setup.config.defaultFile
  registry := registry
  files := []
  state := .idle
  debugger := .inactive
  mailbox := []
  interrupted := false
  flight := none
  notices := []

/-- Builds a session; it needs somebody to publish to, and settings it can run with. Mirrors
`build`. -/
def build (setup : Setup) (registry : Registry) (sink : Bool) : Except BuildFault Session :=
  if !sink then .error .noSink
  else
    match setup.config.validate with
    | .ok () => .ok (idle setup registry)
    | .error f => .error (.config f)

/-- Records what is done. -/
def note (s : Session) (n : Notice) : Session := { s with notices := n :: s.notices }

/-- Hands the notices over, in their order. -/
def takeNotices (s : Session) : List Notice × Session :=
  (s.notices.reverse, { s with notices := [] })

/-- Publishes a message. Mirrors `emit`. -/
def publish (s : Session) (m : Message) : Session := s.note (.publish m)

/-- Changes the state. Mirrors `set_state`. -/
def enter (s : Session) (next : ExecutionState) : Session :=
  if s.state = next then s else { s with state := next }.note (.enter next)

/-- Replaces the source, unless a run is in flight; without a file name the current one is kept.
Mirrors `set_source`. -/
def setSource (s : Session) (text : String) (file : Option String) : Except Busy Session :=
  match s.flight with
  | some _ => .error .busy
  | none => .ok { s with source := s.source.replace text (file.getD s.source.file) }

/-- Replaces the files; an attempt that is under way keeps its own. Mirrors `provide_files`. -/
def provideFiles (s : Session) (files : List (String × String)) : Session :=
  { s with files := files }

/-- A debug run is active. Mirrors `is_debugging`. -/
def isDebugging (s : Session) : Bool := s.debugger.isDebugging

end Session
end Lispbox
