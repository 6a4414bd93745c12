import Lispbox.Editor.Completion
import Lispbox.Editor.Diagnostic
import Lispbox.Json.Shape
/-!
# What editors exchange, as JSON

* `Severity.ofJson?_toJson`: a severity is read back.
-/
namespace Lispbox

/-- A match as JSON. -/
def TypedMatch.toJson (m : TypedMatch) : Json :=
  .obj [("text", .str m.text), ("from", .nat m.start), ("to", .nat m.stop)]

/-- The match that a JSON value stands for. -/
def TypedMatch.ofJson? (j : Json) : Option TypedMatch := do
  let f ← j.fields? ["text", "from", "to"]
  return ⟨← f.required "text" Json.text?, ← f.required "from" Json.word64?,
    ← f.required "to" Json.word64?⟩

/-- A request as JSON. -/
def CompletionRequest.toJson (r : CompletionRequest) : Json :=
  .obj [("text", .str r.text), ("line", .nat r.line), ("column", .nat r.column),
    ("pos", .nat r.position), ("explicit", .bool r.explicit),
    ("before", match r.before with
      | some b => b.toJson
      | none => .null)]

/-- The request that a JSON value stands for. -/
def CompletionRequest.ofJson? (j : Json) : Option CompletionRequest := do
  let f ← j.fields? ["text", "line", "column", "pos", "explicit", "before"]
  return ⟨← f.required "text" Json.text?, ← f.required "line" Json.word32?,
    ← f.required "column" Json.word32?, ← f.required "pos" Json.word64?,
    ← f.required "explicit" Json.bool?,
    ← f.optional "before" none (Json.orNull? TypedMatch.ofJson?)⟩

/-- An option as JSON; documentation that is missing is left out. -/
def CompletionOption.toJson (o : CompletionOption) : Json :=
  .obj ([("type", .str o.kind), ("label", .str o.label)]
    ++ (match o.info with
      | some info => [("info", .str info)]
      | none => [])
    ++ [("boost", .whole o.boost)])

/-- The option that a JSON value stands for. -/
def CompletionOption.ofJson? (j : Json) : Option CompletionOption := do
  let f ← j.fields? ["type", "label", "info", "boost"]
  return ⟨← f.required "type" Json.text?, ← f.required "label" Json.text?,
    ← f.optional "info" none (Json.orNull? Json.text?), ← f.required "boost" Json.int64?⟩

/-- A response as JSON. -/
def CompletionResponse.toJson (r : CompletionResponse) : Json :=
  .obj [("options", .arr (r.options.map CompletionOption.toJson)), ("from", .nat r.start)]

/-- The response that a JSON value stands for. -/
def CompletionResponse.ofJson? (j : Json) : Option CompletionResponse := do
  let f ← j.fields? ["options", "from"]
  return ⟨← f.required "options" (Json.list? CompletionOption.ofJson?),
    ← f.required "from" Json.word64?⟩

/-- A severity as JSON. -/
def Severity.toJson (s : Severity) : Json := .str s.name

/-- The severity that a JSON value stands for. -/
def Severity.ofJson? (j : Json) : Option Severity := j.word? Severity.ofName?

theorem Severity.ofJson?_toJson (s : Severity) : Severity.ofJson? s.toJson = some s := by
  cases s <;> decide

/-- A finding as JSON. -/
def Diagnostic.toJson (d : Diagnostic) : Json :=
  .obj [("lineNr", .nat d.line), ("columnNr", .nat d.column), ("endLineNr", .nat d.endLine),
    ("endColumnNr", .nat d.endColumn), ("severity", d.severity.toJson),
    ("message", .str d.message)]

/-- The finding that a JSON value stands for. -/
def Diagnostic.ofJson? (j : Json) : Option Diagnostic := do
  let f ← j.fields? ["lineNr", "columnNr", "endLineNr", "endColumnNr", "severity", "message"]
  return ⟨← f.required "lineNr" Json.word32?, ← f.required "columnNr" Json.word32?,
    ← f.required "endLineNr" Json.word32?, ← f.required "endColumnNr" Json.word32?,
    ← f.required "severity" Severity.ofJson?, ← f.required "message" Json.text?⟩

end Lispbox
