import Lispbox.Service.Request
import Lispbox.Wire.Event
/-!
# Lines of a service

A service writes lines of JSON with the members of every object in the order of their keys: a
response to each request, and each message of a run as an event.

* `Response.toJson_ok`: the form of the response to a request that was carried out.
-/
namespace Lispbox

/-- The outcome of a run as JSON. Mirrors `outcome_json`. -/
def Outcome.toJson (o : Outcome) : Json :=
  .obj (("outcome", .str o.kind) ::
    match o with
    | .completed v => [("value", v.toJson)]
    | .compileFailed e => [("error", e.toJson)]
    | .failed e => [("error", e.toJson)]
    | .interrupted => [])

namespace Service

/-- The answer to a request. -/
structure Response where
  /-- The id of the request; null if the line was not a request. -/
  id : Json
  body : Except Refusal Json

/-- What a service writes. -/
inductive Line where
  | event (m : Message)
  | response (r : Response)

/-- A response as JSON. -/
def Response.toJson (r : Response) : Json :=
  match r.body with
  | .ok result => .obj [("id", r.id), ("ok", .bool true), ("result", result)]
  | .error e =>
    .obj [("error", .obj [("code", .str e.code), ("message", .str e.message)]), ("id", r.id),
      ("ok", .bool false)]

theorem Response.toJson_ok (id result : Json) :
    (Response.mk id (.ok result)).toJson
      = .obj [("id", id), ("ok", .bool true), ("result", result)] := rfl

/-- The response to a request for a run that is over. Mirrors the answer in `spawn_run`. -/
def Response.ofResult (id : Json) : Except RunFault Outcome → Response
  | .ok o => ⟨id, .ok o.toJson⟩
  | .error f => ⟨id, .error (.fault f)⟩

/-- A line as JSON. -/
def Line.toJson : Line → Json
  | .event m => (Json.obj [("event", m.toJson)]).normal
  | .response r => r.toJson.normal

/-- The text of a line. Mirrors `write_lines`. -/
def Line.render (l : Line) : String := l.toJson.print

end Service
end Lispbox
