/-!
# Events

What a running script does that somebody outside can notice. The set of output streams is open:
native functions may write on streams of their own.

* `Stream.name_ofName`: the stream of a name has that name.
-/
namespace Lispbox

/-- Where output is written to. -/
inductive Stream where
  | stdout
  /-- Images, as base64 text. -/
  | image
  /-- The echo of a line that was entered. -/
  | input
  /-- Text shown before a line is read. -/
  | inputPrompt
  | other (name : String)
  deriving DecidableEq, Repr

/-- The name of a stream. -/
def Stream.name : Stream → String
  | .stdout => "stdout"
  | .image => "img"
  | .input => "input"
  | .inputPrompt => "input_prompt"
  | .other name => name

/-- The stream with a name. -/
def Stream.ofName (name : String) : Stream :=
  if name = "stdout" then .stdout
  else if name = "img" then .image
  else if name = "input" then .input
  else if name = "input_prompt" then .inputPrompt
  else .other name

theorem Stream.name_ofName (name : String) : (Stream.ofName name).name = name := by
  unfold Stream.ofName
  split
  · next h => exact h.symm
  split
  · next h => exact h.symm
  split
  · next h => exact h.symm
  split
  · next h => exact h.symm
  · rfl

/-- Content types. -/
def ContentType.plain : String := "text/plain"

@[inherit_doc ContentType.plain]
def ContentType.json : String := "text/json"

@[inherit_doc ContentType.plain]
def ContentType.number : String := "application/number"

/-- The content type of an image in the given format, encoded in base64. -/
def ContentType.image (format : String) : String := "img/" ++ format ++ ";base64"

/-- The content type is one of an image. -/
def ContentType.isImage (contentType : String) : Bool :=
  contentType.startsWith "img/" && contentType.endsWith ";base64"

/-- Something written on a stream. -/
structure Output where
  stream : Stream
  text : String
  contentType : String
  deriving DecidableEq, Repr

/-- Something that happened in a run. -/
inductive Event where
  | output (o : Output)
  /-- The script waits for a line. -/
  | inputRequest (prompt : String)
  /-- The script pauses for some milliseconds. -/
  | sleep (duration : Nat)
  | interrupt (reason : String)
  /-- The debugger stopped before a line. -/
  | debugPause (line : Nat)
  deriving DecidableEq, Repr

end Lispbox
