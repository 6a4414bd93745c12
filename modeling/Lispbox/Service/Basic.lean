import Lispbox.Service.Line
import Lispbox.Session.Run
import Lispbox.Text.Blank
/-!
# Services

A service is one connection of a client to a session of its own. Every line that is not blank is
answered by one response: at once, except that an accepted run is answered when it ends, after its
last message. The response to a line comes before the messages that the line causes. When the client
has nothing more to say, a run that waits for it is interrupted.

A line is taken when the run in flight waits, or when there is none (`Session.Run`): the lines of a
client who does not wait for that can be taken in the middle of a run, which is not modelled.

* `receive_refused`: a request that is refused as it is read changes nothing.
-/
namespace Lispbox

/-- A connection. -/
structure Service where
  session : Session
  /-- What the session is called in the answer to a handshake. -/
  name : String
  /-- The id of the request for the run in flight. -/
  running : Option Json
  /-- The client has nothing more to say. -/
  closed : Bool

namespace Service

/-- The version that a handshake tells. -/
def version : String := "0.1.0"

/-- A connection on which nothing was said yet. Mirrors `handle`. -/
def opened (session : Session) (name : String) : Service := ⟨session, name, none, false⟩

/-- The lines for what a session did and for the end of its run. Mirrors the lines of `spawn_run`,
and the callback of `handle`. -/
def collect (c : Service) (p : Progress) : List Line × Service :=
  let (notices, s) := p.session.takeNotices
  let events := notices.filterMap fun n => n.message?.map Line.event
  match p.result with
  | none => (events, { c with session := s })
  | some r =>
    let answers := c.running.toList.map fun id => Line.response (.ofResult id r)
    (events ++ answers, { c with session := s, running := none })

/-- The run in flight waits for the client. Mirrors the test of `drain`. -/
def awaitsClient (s : Session) : Bool :=
  match s.flight.map Flight.wait with
  | some (.input _) | some (.debug _) => true
  | _ => false

/-- The run in flight waits for the end of a pause of its script. -/
def sleeps (c : Service) : Bool :=
  match c.session.flight.map Flight.wait with
  | some (.sleep _ _) => true
  | _ => false

/-- Interrupts a run that waits for a client who has nothing more to say. Mirrors `drain`. -/
def release [Supply] (c : Service) : List Line × Service :=
  if c.closed && awaitsClient c.session then c.collect (c.session.command .interrupt) else ([], c)

/-- What a session did, and what follows from it. -/
def follow [Supply] (c : Service) (p : Progress) : List Line × Service :=
  let (lines, c) := c.collect p
  let (more, c) := c.release
  (lines ++ more, c)

/-- What is told about the session. Mirrors `status`. -/
def status (s : Session) : Json :=
  .obj [("state", s.state.toJson), ("debugging", .bool s.isDebugging),
    ("revision", .nat s.source.revision), ("filename", .str s.source.file),
    ("modules", Json.texts s.registry.names)]

/-- The answer to a handshake. Mirrors `cmd_handshake`. -/
def greeting (c : Service) (client : String) : Json :=
  .obj [("protocol_version", .str protocolVersion),
    ("session", .obj [("id", .str c.name), ("version", .str version), ("client", .str client),
      ("modules", Json.texts c.session.registry.names)])]

/-- What is told about a source. Mirrors `cmd_set_source`. -/
def sourceResult (u : SourceUnit) : Json :=
  .obj [("revision", .nat u.revision), ("filename", .str u.file)]

/-- The answer to something that is passed on to the run. Mirrors the result of `cmd_input` and
`cmd_debug`. -/
def accepted : Json := .obj [("accepted", .bool true)]

/-- Answers a request, then lets the session go on. Mirrors `respond`. -/
def reply [Supply] (c : Service) (id result : Json) (p : Progress) : List Line × Service :=
  let (lines, c) := c.follow p
  (.response ⟨id, .ok result⟩ :: lines, c)

/-- Answers a request that is refused. Mirrors `respond`. -/
def refuse (c : Service) (id : Json) (r : Refusal) : List Line × Service :=
  ([.response ⟨id, .error r⟩], c)

/-- Does what a request asks for. Mirrors `dispatch` and `spawn_run`. -/
def perform [Supply] (c : Service) (id : Json) : Instruction → List Line × Service
  | .handshake client => c.reply id (c.greeting client) ⟨c.session, none⟩
  | .status => c.reply id (status c.session) ⟨c.session, none⟩
  | .setSource text file =>
    match c.session.setSource text file with
    | .ok s => c.reply id (sourceResult s.source) ⟨s, none⟩
    | .error b => c.refuse id (.busy b)
  | .input line => c.reply id accepted (c.session.command (.input line))
  | .debug d => c.reply id accepted (c.session.command (.debug d))
  | .interrupt =>
    c.reply id (.obj [("interrupted", .bool c.session.state.isActive)])
      (c.session.command .interrupt)
  | .files files =>
    c.reply id (.obj [("files", Json.texts (files.map Prod.fst))])
      ⟨c.session.provideFiles files, none⟩
  | .run request =>
    match c.session.run request with
    | .ok p => { c with running := some id }.follow p
    | .error b => c.refuse id (.busy b)

/-- Takes a line of the client. Mirrors `serve` and `handle_request`. -/
def receive [Supply] (c : Service) (line : String) : List Line × Service :=
  if (Text.trim line).isEmpty then ([], c)
  else
    match Envelope.ofText? line with
    | none => c.refuse .null .malformed
    | some e =>
      match Instruction.ofEnvelope e with
      | .ok i => c.perform e.id i
      | .error r => c.refuse e.id r

theorem receive_refused [Supply] (c : Service) {line : String} {e : Envelope} {r : Refusal}
    (hb : (Text.trim line).isEmpty = false) (he : Envelope.ofText? line = some e)
    (hi : Instruction.ofEnvelope e = .error r) :
    c.receive line = ([.response ⟨e.id, .error r⟩], c) := by
  simp [receive, hb, he, hi, refuse]

/-- The pause of the script that the run waits for is over. -/
def elapse [Supply] (c : Service) : List Line × Service := c.follow c.session.elapse

/-- The client has nothing more to say. -/
def close [Supply] (c : Service) : List Line × Service := release { c with closed := true }

end Service
end Lispbox
