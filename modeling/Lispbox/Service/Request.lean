import Lispbox.Json.Shape
import Lispbox.Session.Basic
import Lispbox.Wire.Session
/-!
# Requests to a service

A request is a line of JSON: an id of any kind, the name of a command, and its parameters. It is
read in two steps, first the three parts and then what the command asks for, so that a request with
an unknown command or unfit parameters can still be answered under its id.

* `Refusal.code`, `Refusal.message`: how a refused request is answered.
-/
namespace Lispbox.Service

/-- The parts of a request. -/
structure Envelope where
  id : Json
  command : String
  params : Json
  deriving Repr

/-- The request that a line is; parameters may be left out. -/
def Envelope.ofText? (line : String) : Option Envelope := do
  let names := ["id", "command", "params"]
  let f ← (← Json.recordOf? names (← Json.readText line)).fields? names
  return ⟨← f.required "id" some, ← f.required "command" Json.text?,
    ← f.optional "params" .null some⟩

/-- The version of the protocol. Mirrors `PROTOCOL_VERSION`. -/
def protocolVersion : String := "1.0.0"

/-- Why a request is refused. -/
inductive Refusal where
  /-- The line is not a request. -/
  | malformed
  /-- The parameters do not describe a run. -/
  | badRun
  /-- A parameter is missing or of the wrong kind. -/
  | badParameter (name : String)
  | unsupported (command : String)
  /-- The client asks for another version of the protocol. -/
  | version (asked : String)
  | busy (b : Busy)
  /-- A run had no outcome. -/
  | fault (f : RunFault)
  deriving DecidableEq, Repr

/-- The word for a kind of refusals. -/
def Refusal.code : Refusal → String
  | .malformed => "parse_error"
  | .badRun | .badParameter _ => "invalid_params"
  | .unsupported _ => "unsupported_command"
  | .version _ => "protocol_error"
  | .busy _ => "busy"
  | .fault (.unknownEvent _) => "unknown_event_kind"
  | .fault .exhausted => "session_error"

/-- The text of a fault of a run. -/
def describeFault : RunFault → String
  | .unknownEvent u => u.describe
  | .exhausted => "the run took too many steps"

/-- The wording of a refusal. -/
def Refusal.message : Refusal → String
  | .malformed => "the line is not a request"
  | .badRun => "the parameters do not describe a run"
  | .badParameter name => "missing or invalid parameter: " ++ name
  | .unsupported command => "Command '" ++ command ++ "' is not supported"
  | .version asked =>
    "unsupported protocol version: expected " ++ protocolVersion ++ ", got " ++ asked
  | .busy b => b.describe
  | .fault f => describeFault f

/-- What a request asks for. -/
inductive Instruction where
  | handshake (client : String)
  | status
  | setSource (text : String) (file : Option String)
  | input (line : String)
  | debug (c : DebugCommand)
  | interrupt
  | files (files : List (String × String))
  | run (request : RunRequest)
  deriving DecidableEq, Repr

/-- A parameter by its name. -/
def param {α : Type} (params : Json) (name : String) (read : Json → Option α) :
    Except Refusal α :=
  match (params.field? name).bind read with
  | some a => .ok a
  | none => .error (.badParameter name)

/-- Texts by their names. -/
def texts? : Json → Option (List (String × String))
  | .obj ms => ms.mapM fun (name, v) => v.text?.map fun text => (name, text)
  | _ => none

/-- The run that parameters describe; without parameters it is that of the current source. Mirrors
`handle_request`. -/
def runOf (params : Json) : Except Refusal RunRequest :=
  let described := match params with
    | .null => .obj []
    | params => params
  match RunRequest.ofJson? described with
  | some r => .ok r
  | none => .error .badRun

/-- The client that introduces itself with the version of the protocol it speaks. Mirrors
`cmd_handshake`. -/
def clientOf (params : Json) : Except Refusal String := do
  let client ← param params "client" Json.text?
  let asked ← param params "protocol_version" Json.text?
  if asked = protocolVersion then return client else throw (.version asked)

/-- What a request asks for, or why it is refused. Mirrors `dispatch`. -/
def Instruction.ofEnvelope (e : Envelope) : Except Refusal Instruction :=
  match e.command with
  | "run" => (runOf e.params).map .run
  | "handshake" => (clientOf e.params).map .handshake
  | "status" => .ok .status
  | "set_source" =>
    (param e.params "source" Json.text?).map fun text =>
      .setSource text ((e.params.field? "filename").bind Json.text?)
  | "input" => (param e.params "text" Json.text?).map .input
  | "debug" => (param e.params "command" DebugCommand.ofJson?).map .debug
  | "interrupt" => .ok .interrupt
  | "files" => (param e.params "files" texts?).map .files
  | command => .error (.unsupported command)

end Lispbox.Service
