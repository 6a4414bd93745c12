import Lispbox.Event
import Lispbox.Json.Shape
import Lispbox.Message.Basic
/-!
# Events and messages as JSON

An event is an object whose member `kind` tells which one it is, or an array that starts with that
word. Text in a message stays text even if it looks like a number.

* `readPayload_toJson`: a payload within 64 bits is read back.
-/
namespace Lispbox

/-- An event as JSON. -/
def Event.toJson : Event → Json
  | .output o =>
    .obj [("kind", .str "output"), ("stream", .str o.stream.name), ("text", .str o.text),
      ("content_type", .str o.contentType)]
  | .inputRequest prompt => .obj [("kind", .str "input_request"), ("prompt", .str prompt)]
  | .sleep duration => .obj [("kind", .str "sleep"), ("duration_ms", .nat duration)]
  | .interrupt reason => .obj [("kind", .str "interrupt"), ("reason", .str reason)]
  | .debugPause line => .obj [("kind", .str "debug_pause"), ("line", .nat line)]

/-- A stream by its name. -/
def Stream.ofJson? (j : Json) : Option Stream := j.text?.map Stream.ofName

/-- The event of a kind with the fields that are given beside it. -/
def Event.ofKind? (kind : String) (j : Json) : Option Event :=
  match kind with
  | "output" => do
    let f ← j.fields? ["stream", "text", "content_type"]
    let stream ← f.required "stream" Stream.ofJson?
    let text ← f.required "text" Json.text?
    let contentType ← f.required "content_type" Json.text?
    return .output ⟨stream, text, contentType⟩
  | "input_request" => do
    let f ← j.fields? ["prompt"]
    return .inputRequest (← f.required "prompt" Json.text?)
  | "sleep" => do
    let f ← j.fields? ["duration_ms"]
    return .sleep (← f.required "duration_ms" Json.word64?)
  | "interrupt" => do
    let f ← j.fields? ["reason"]
    return .interrupt (← f.required "reason" Json.text?)
  | "debug_pause" => do
    let f ← j.fields? ["line"]
    return .debugPause (← f.required "line" Json.word32?)
  | _ => none

/-- The event that a JSON value stands for. -/
def Event.ofJson? : Json → Option Event
  | .arr (.str kind :: rest) => Event.ofKind? kind (.arr rest)
  | .obj ms =>
    match ms.lookup "kind" with
    | some (.str kind) => Event.ofKind? kind (.obj ms)
    | _ => none
  | _ => none

namespace Message

/-- A payload as JSON. -/
def Payload.toJson : Payload → Json
  | .number n => .nat n
  | .text s => .str s

/-- A payload: a natural number of 64 bits or a text. -/
def readPayload? : Json → Option Payload
  | .str s => some (.text s)
  | j => j.word64?.map .number

theorem readPayload_toJson {p : Payload} (h : ∀ n, p = .number n → n < word64) :
    readPayload? p.toJson = some p := by
  cases p with
  | text s => rfl
  | number n =>
    change (Json.naturalBelow word64 (.whole n)).map Payload.number = some (.number n)
    rw [Json.naturalBelow_whole (h n rfl)]
    rfl

/-- A message as JSON. -/
def toJson (m : Message) : Json :=
  .obj [("type", .str m.kind.name), ("data", m.data.toJson), ("contentType", .str m.contentType)]

/-- The message that a JSON value stands for. -/
def ofJson? (j : Json) : Option Message := do
  let f ← j.fields? ["type", "data", "contentType"]
  let kind ← f.required "type" (Json.word? Kind.ofName?)
  let data ← f.required "data" readPayload?
  let contentType ← f.required "contentType" Json.text?
  return ⟨kind, data, contentType⟩

end Message
end Lispbox
