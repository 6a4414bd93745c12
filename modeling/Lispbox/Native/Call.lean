import Lispbox.Native.Compute
import Lispbox.Native.Supply
/-!
# Calling native functions

The functions that talk to the host, and `Native.call` for all native functions. What supplied ones
do is a parameter (`Supply`).

* `call_of_compute`: a function without effects only computes.
-/
namespace Lispbox.Native

/-- Emits plain text on a stream. -/
def emitText (stream : Stream) (text : String) : Script Unit :=
  Script.ask (.emit (.output ⟨stream, text, ContentType.plain⟩))

/-- The arguments in a line. Mirrors `print`. -/
def printValues (args : List Value) : Script Value := do
  emitText .stdout (" ".intercalate (args.map Value.display) ++ "\n")
  return .nil

/-- Asks for a line: the prompt is shown if there is one, and the line is echoed. Mirrors
`input`. -/
def readLine (prompt : String) : Script Value := do
  if !prompt.isEmpty then emitText .inputPrompt prompt
  let line ← Script.ask (.input prompt)
  emitText .input (line ++ "\n")
  return .text line

/-- The whole milliseconds nearest to a number of seconds, kept within 64 bits. Mirrors a part of
`sleep`. -/
def milliseconds (seconds : Float) : Nat := (seconds * 1000.0).round.toUInt64.toNat

/-- The seconds that a pause is asked for. Mirrors a part of `sleep`. -/
def sleepSeconds (args : List Value) : Except Cause Float := do
  let seconds ← number "sleep" (← oneArgument "sleep" args)
  if !isFinite seconds || decide (seconds < 0.0) then .error .badSleep else .ok seconds

/-- The name of the file to be read. Mirrors the checks of `read_file`. -/
def fileName (args : List Value) : Except Cause String := do
  match ← oneArgument "read-file" args with
  | .text name => .ok name
  | v => .error (.fileNameKind v.kind)

/-- The format and the data of an image to be shown. Mirrors the checks of `image_show`. -/
def imageParts (args : List Value) : Except Cause (String × String) := do
  match ← twoArguments "show" args with
  | (.text format, .text data) =>
    if format.isEmpty || !format.toList.all Char.isAlphanum then .error (.imageFormat format)
    else .ok (format, data)
  | _ => .error .imageArguments

/-- Calls a native function. Mirrors `sleep`, `read_file` and `image_show`. -/
def call [Supply] (n : Native) (args : List Value) : Script Value :=
  match n.compute? args with
  | some r => Script.ofCause r
  | none =>
    match n with
    | .print => printValues args
    | .input =>
      match args with
      | [] => readLine ""
      | [prompt] => readLine prompt.display
      | _ => Script.raise (.nativeCount "input" 1 args.length)
    | .sleep => do
      let seconds ← Script.ofCause (sleepSeconds args)
      Script.ask (.sleep (milliseconds seconds))
      return .nil
    | .readFile => do
      let name ← Script.ofCause (fileName args)
      match ← Script.ask (.readFile name) with
      | some text => return .text text
      | none => Script.raise (.noFile name)
    | .showImage => do
      let (format, data) ← Script.ofCause (imageParts args)
      Script.ask (.emit (.output ⟨.image, data, ContentType.image format⟩))
      return .nil
    | .supplied f => (Supply.act f args).script
    | _ => return .nil

theorem call_of_compute [Supply] {n : Native} {args : List Value} {r : Except Cause Value}
    (h : n.compute? args = some r) : n.call args = Script.ofCause r := by
  simp [call, h]

end Lispbox.Native
