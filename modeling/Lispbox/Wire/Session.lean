import Lispbox.CompileError
import Lispbox.Exception.Explanation
import Lispbox.Json.Shape
import Lispbox.Message.Publication
import Lispbox.Session.Config
import Lispbox.Session.Request
/-!
# What sessions exchange, as JSON

* `ExecutionState.ofJson?_toJson`, `RunMode.ofJson?_toJson`, `DebugCommand.ofJson?_toJson`: words
  are read back.
-/
namespace Lispbox

/-- A mode as JSON. -/
def RunMode.toJson (m : RunMode) : Json := .str m.name

/-- The mode that a JSON value stands for. -/
def RunMode.ofJson? (j : Json) : Option RunMode := j.word? RunMode.ofName?

theorem RunMode.ofJson?_toJson (m : RunMode) : RunMode.ofJson? m.toJson = some m := by
  cases m <;> decide

/-- A command as JSON. -/
def DebugCommand.toJson (c : DebugCommand) : Json := .str c.name

/-- The command that a JSON value stands for. -/
def DebugCommand.ofJson? (j : Json) : Option DebugCommand := j.word? DebugCommand.ofName?

theorem DebugCommand.ofJson?_toJson (c : DebugCommand) :
    DebugCommand.ofJson? c.toJson = some c := by
  cases c <;> decide

/-- A state as JSON. -/
def ExecutionState.toJson (s : ExecutionState) : Json := .str s.name

/-- The state that a JSON value stands for. -/
def ExecutionState.ofJson? (j : Json) : Option ExecutionState := j.word? ExecutionState.ofName?

theorem ExecutionState.ofJson?_toJson (s : ExecutionState) :
    ExecutionState.ofJson? s.toJson = some s := by
  cases s <;> decide

/-- The state of a debugger as JSON. -/
def DebugState.toJson : DebugState → Json
  | .inactive => .str "inactive"
  | .autoContinue => .str "auto_continue"
  | .paused line => .obj [("paused", .obj [("line", .nat line)])]
  | .continuing => .str "continuing"
  | .stepping => .str "stepping"

/-- The state of a debugger with a name, unless it is a pause. -/
def DebugState.ofName? (name : String) : Option DebugState :=
  match name with
  | "inactive" => some .inactive
  | "auto_continue" => some .autoContinue
  | "continuing" => some .continuing
  | "stepping" => some .stepping
  | _ => none

/-- The state of a debugger that a JSON value stands for. -/
def DebugState.ofJson? : Json → Option DebugState
  | .obj [("paused", j)] => do
    let f ← j.fields? ["line"]
    return .paused (← f.required "line" Json.word32?)
  | j => j.word? DebugState.ofName?

/-- A request as JSON. -/
def RunRequest.toJson (r : RunRequest) : Json :=
  .obj [("source", Json.ofText? r.source), ("filename", Json.ofText? r.file),
    ("mode", r.mode.toJson), ("breakpoints", .arr (r.breakpoints.map .nat)),
    ("stdin", Json.texts r.stdin)]

/-- The request that a JSON value stands for. -/
def RunRequest.ofJson? (j : Json) : Option RunRequest := do
  let f ← j.fields? ["source", "filename", "mode", "breakpoints", "stdin"]
  return ⟨← f.optional "source" none (Json.orNull? Json.text?),
    ← f.optional "filename" none (Json.orNull? Json.text?),
    ← f.optional "mode" .plain RunMode.ofJson?,
    Debugger.sortLines (← f.optional "breakpoints" [] (Json.list? Json.word32?)),
    ← f.optional "stdin" [] (Json.list? Json.text?)⟩

/-- A source as JSON. -/
def SourceUnit.toJson (u : SourceUnit) : Json :=
  .obj [("text", .str u.text), ("filename", .str u.file), ("revision", .nat u.revision)]

/-- The source that a JSON value stands for. -/
def SourceUnit.ofJson? (j : Json) : Option SourceUnit := do
  let f ← j.fields? ["text", "filename", "revision"]
  return ⟨← f.required "text" Json.text?, ← f.required "filename" Json.text?,
    ← f.required "revision" Json.word64?⟩

/-- A compile error as JSON. -/
def CompileError.toJson (e : CompileError) : Json :=
  .obj [("filename", .str e.file), ("line", .nat e.line), ("column", .nat e.column),
    ("message", .str e.message), ("source_line", .str e.sourceLine)]

/-- The compile error that a JSON value stands for. -/
def CompileError.ofJson? (j : Json) : Option CompileError := do
  let f ← j.fields? ["filename", "line", "column", "message", "source_line"]
  return ⟨← f.required "filename" Json.text?, ← f.required "line" Json.word32?,
    ← f.required "column" Json.word32?, ← f.required "message" Json.text?,
    ← f.required "source_line" Json.text?⟩

/-- The explanation that a JSON value stands for. -/
def Explanation.ofJson? (j : Json) : Option Explanation := do
  let f ← j.fields? ["name", "traceback", "info", "why", "where", "what"]
  return ⟨← f.required "name" Json.text?, ← f.required "traceback" Json.text?,
    ← f.required "info" Json.text?, ← f.required "why" Json.text?,
    ← f.required "where" Json.text?, ← f.required "what" Json.text?⟩

namespace Config

/-- The fields of settings. -/
def fieldNames : List String :=
  ["recursion_limit", "default_filename", "worker_stack_bytes", "honor_sleep"]

/-- Settings as JSON. -/
def toJson (c : Config) : Json :=
  .obj [("recursion_limit", .nat c.recursionLimit), ("default_filename", .str c.defaultFile),
    ("worker_stack_bytes", .nat c.workerStackBytes), ("honor_sleep", .bool c.honorSleep)]

/-- The settings that a JSON value stands for; fields that are missing are taken from `base`. -/
def ofJson? (base : Config) (j : Json) : Option Config := do
  let f ← j.fields? fieldNames
  return ⟨← f.optional "recursion_limit" base.recursionLimit Json.word64?,
    ← f.optional "default_filename" base.defaultFile Json.text?,
    ← f.optional "worker_stack_bytes" base.workerStackBytes Json.word64?,
    ← f.optional "honor_sleep" base.honorSleep Json.bool?⟩

/-- Why a text gives no settings. -/
inductive TextFault where
  /-- The text does not describe settings. -/
  | malformed
  | invalid (f : Fault)
  deriving DecidableEq, Repr

/-- The settings in a text. -/
def ofText (text : String) : Except TextFault Config :=
  match (Json.readText text).bind fun t =>
      (Json.recordOf? fieldNames t).bind (ofJson? .default) with
  | none => .error .malformed
  | some c =>
    match c.validate with
    | .ok () => .ok c
    | .error f => .error (.invalid f)

end Config
end Lispbox
