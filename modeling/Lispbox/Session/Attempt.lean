import Lispbox.Program.Imports
import Lispbox.Run.Host
import Lispbox.Session.Basic
/-!
# Attempts

An attempt compiles the source of a run and executes it from the beginning. The session is the host
of the dialogue: it publishes events, answers requests for input from the lines of the request, and
asks its debugger at every line. The attempt goes on until it ends or has to wait. A session that
was interrupted publishes nothing more and answers with the signal, until the dialogue is over.
-/
namespace Lispbox

/-- How an attempt ends. -/
inductive AttemptEnd where
  | compileFailed (e : CompileError)
  | completed (v : Value)
  | raised (e : Exception)
  | interrupted
  /-- The debugger ended the program. -/
  | quit
  deriving Repr

/-- The end of an attempt whose run is over, unless it took too many steps. Mirrors the end of
`execute` in the worker. -/
def AttemptEnd.ofRun? : RunEnd → Option AttemptEnd
  | .ended (.returned v) => some (.completed v)
  | .ended (.raised e) => some (.raised e)
  | .ended (.crashed reason) => some (.raised (.ofCause (.crash reason)))
  | .ended .exhausted => none
  | .stopped .interrupt => some .interrupted
  | .stopped .quit => some .quit

/-- Where an attempt comes to a halt. -/
inductive Halt where
  | waits (w : Wait)
  | ends (e : AttemptEnd)
  | faults (f : RunFault)

/-- What a session makes of a question. -/
inductive Reaction (q : Query) where
  | reply (a : Except Signal q.Answer)
  | wait (w : (Except Signal q.Answer → Dialogue (Except Exit Value)) → Wait)
  /-- What the script reports has no message. -/
  | fault (u : UnknownEvent)

/-- The session and the lines that are left while an attempt is executed. -/
structure Stage where
  session : Session
  stdin : List String

namespace Session

/-- Publishes an event; events without a message end the attempt, and interrupt the script. Mirrors
`deliver`. -/
def deliver (s : Session) (e : Event) : Except UnknownEvent Unit × Session :=
  match Message.ofEvent e with
  | .ok (some m) => (.ok (), s.publish m)
  | .ok none => (.ok (), s)
  | .error u => (.error u, { s with interrupted := true }.publish (.unknownEvent u))

/-- Where an attempt halts whose run is over; after an interrupt it does not matter how. Mirrors the
arm for `Finished` in `attempt`. -/
def haltOf (s : Session) (e : RunEnd) : Halt :=
  match AttemptEnd.ofRun? e with
  | none => .faults .exhausted
  | some e => .ends (if s.interrupted then .interrupted else e)

end Session

namespace Stage

/-- The reaction to a question while the session is not interrupted. Mirrors the messages of the
host as `attempt` takes them. -/
def attend (debugging : Bool) (files : List (String × String)) (st : Stage) :
    (q : Query) → Reaction q × Stage
  | .poll => (.reply (.ok ()), st)
  | .line file n =>
    if !debugging then (.reply (.ok ()), st)
    else
      let (paused, d) := st.session.debugger.reach file n
      let s := { st.session with debugger := d }
      if paused then
        let (_, s) := s.deliver (.debugPause n)
        (.wait .debug, { st with session := s.enter .debugPaused })
      else (.reply (.ok ()), { st with session := s })
  | .emit e =>
    let (r, s) := st.session.deliver e
    match r with
    | .ok () => (.reply (.ok ()), { st with session := s })
    | .error u => (.fault u, { st with session := s })
  | .input prompt =>
    let (_, s) := st.session.deliver (.inputRequest prompt)
    match st.stdin with
    | line :: rest => (.reply (.ok line), ⟨s, rest⟩)
    | [] => (.wait .input, ⟨s.enter .suspended, []⟩)
  | .sleep duration =>
    let (_, s) := st.session.deliver (.sleep duration)
    if s.setup.config.honorSleep && 0 < duration then
      (.wait (.sleep duration), { st with session := s })
    else (.reply (.ok ()), { st with session := s })
  | .readFile name => (.reply (.ok (files.lookup name)), st)

/-- The reaction to a question. Mirrors `poll`, which the host calls before everything else. -/
def react (debugging : Bool) (files : List (String × String)) (st : Stage) (q : Query) :
    Reaction q × Stage :=
  if st.session.interrupted && q.mayStop then (.reply (.error .interrupt), st)
  else st.attend debugging files q

end Stage

namespace Session

/-- Leads a dialogue until it halts. Mirrors the loop of `attempt`. -/
def converse (debugging : Bool) (files : List (String × String)) :
    Dialogue (Except Exit Value) → Stage → Halt × Stage
  | .done r _, st => (st.session.haltOf (.ofResult (.ok r)), st)
  | .abort a _, st => (st.session.haltOf (.ofResult (.error a)), st)
  | .ask _ q resume, st =>
    match st.react debugging files q with
    | (.reply a, st) => converse debugging files (resume a) st
    | (.wait w, st) => (.waits (w resume), st)
    | (.fault u, st) => (.faults (.unknownEvent u), st)

/-- Installs modules that were found and says so. -/
def installFound (s : Session) (modules : List Module) : Session :=
  { s with registry := modules.foldl Registry.install s.registry }.publish
    (.loading (modules.map Module.name) .loaded)

/-- Asks the resolver for the modules of a program that are not installed. Mirrors `prefetch`. -/
def prefetch (s : Session) (p : Program) : Session :=
  let missing := p.imports.filter fun name => !s.registry.contains name
  if missing.isEmpty then s
  else
    let s := s.note (.prefetch missing)
    match s.setup.resolver.prefetch missing with
    | [] => s
    | modules => s.installFound modules

/-- Executes the source of a run from the beginning until it halts. Mirrors `attempt`. -/
def attempt [Supply] (s : Session) (source : SourceUnit) (request : RunRequest) : Halt × Stage :=
  let limit := s.setup.config.recursionLimit
  match compile source.text source.file limit with
  | .error e => (.ends (.compileFailed e), ⟨s, request.stdin⟩)
  | .ok p =>
    let s := (s.prefetch p).enter .running
    converse (request.mode == .debug) s.files (p.dialogue ⟨s.registry, limit⟩ s.setup.fuel)
      ⟨s, request.stdin⟩

end Session
end Lispbox
