import Lispbox.CompileError
import Lispbox.Event
import Lispbox.Exception.Explanation
import Lispbox.Json.Printer
import Lispbox.Message.Basic
import Lispbox.Session.State
import Lispbox.Value.Display
/-!
# From events to messages

Output on the standard stream and images become messages with text and content type untouched;
prompts and echoes are not shown; any other stream has no message, and neither has an image whose
content type is not one of an image.
-/
namespace Lispbox

/-- What an event without a message is called. -/
structure UnknownEvent where
  kind : String
  deriving DecidableEq, Repr

/-- The text of the error about an event without a message. -/
def UnknownEvent.describe (u : UnknownEvent) : String := "unknown event kind '" ++ u.kind ++ "'"

/-- How far the installation of modules is. -/
inductive LoadingStatus where
  | loading
  | loaded
  | failed
  deriving DecidableEq, Repr

/-- The word for a status. -/
def LoadingStatus.name : LoadingStatus → String
  | .loading => "loading"
  | .loaded => "loaded"
  | .failed => "failed"

/-- An explanation as JSON. -/
def Explanation.toJson (e : Explanation) : Json :=
  .obj [("name", .str e.name), ("traceback", .str e.traceback), ("info", .str e.info),
    ("why", .str e.why), ("where", .str e.whereText), ("what", .str e.what)]

namespace Message

/-- The message of output, if it has one. Mirrors the part of `translate` for output. -/
def ofOutput (o : Output) : Except UnknownEvent (Option Message) :=
  match o.stream with
  | .stdout => .ok (some ⟨.output, .text o.text, o.contentType⟩)
  | .image =>
    if ContentType.isImage o.contentType then .ok (some ⟨.output, .text o.text, o.contentType⟩)
    else .error ⟨"img with content type '" ++ o.contentType ++ "'"⟩
  | .input | .inputPrompt => .ok none
  | .other name => .error ⟨name⟩

/-- The message of an event; nothing if the event is not shown. Mirrors `translate`. -/
def ofEvent : Event → Except UnknownEvent (Option Message)
  | .output o => ofOutput o
  | .inputRequest prompt => .ok (some ⟨.input, .text prompt, ContentType.plain⟩)
  | .sleep duration => .ok (some ⟨.sleep, .number duration, ContentType.number⟩)
  | .interrupt reason => .ok (some ⟨.interrupt, .text reason, ContentType.plain⟩)
  | .debugPause line => .ok (some ⟨.debug, .number line, ContentType.number⟩)

/-- The first message of a run. -/
def start (mode : RunMode) : Message := ⟨.start, .text mode.name, ContentType.plain⟩

/-- The last message of a run that returned a value. Mirrors `end`. -/
def finish (v : Value) : Message := ⟨.finish, .text v.toJson.print, ContentType.json⟩

/-- How the installation of modules goes on. -/
def loading (modules : List String) (status : LoadingStatus) : Message :=
  ⟨.loading,
    .text (Json.obj [("modules", Json.texts modules), ("status", .str status.name)]).print,
    ContentType.json⟩

/-- A source does not compile. -/
def compileError (e : CompileError) : Message := ⟨.error, .text e.render, ContentType.plain⟩

/-- An exception was not caught. Mirrors `friendly_error`. -/
def explanation (e : Explanation) : Message := ⟨.error, .text e.toJson.print, ContentType.json⟩

/-- An event has no message. Mirrors `protocol_error`. -/
def unknownEvent (u : UnknownEvent) : Message := ⟨.error, .text u.describe, ContentType.plain⟩

/-- The last message of a run that was interrupted. -/
def interrupt (reason : String) : Message := ⟨.interrupt, .text reason, ContentType.plain⟩

end Message
end Lispbox
