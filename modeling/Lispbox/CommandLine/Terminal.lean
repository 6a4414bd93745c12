import Lispbox.Json.Reader
import Lispbox.Json.Printer
import Lispbox.Session.Debugger
import Lispbox.Wire.Event
/-!
# What a terminal shows

Messages of a script are shown as lines of JSON, or as a user reads them: text as it is, other
output by its content type, prompts, and the rest on the error stream. Lines of the user answer the
script, or are commands while the debugger is at a pause.
-/
namespace Lispbox.CommandLine

/-- A piece of text for one of the two output streams. -/
inductive Print where
  | out (text : String)
  | err (text : String)
  deriving DecidableEq, Repr

/-- A text with the end of a line. -/
def withNewline (text : String) : String := text ++ "\n"

/-- A text member of an object; empty if there is none. -/
def textMember (j : Json) (key : String) : String :=
  match j.field? key with
  | some (.str s) => s
  | _ => ""

/-- The text of an error: of an explanation the traceback and what happened, else the text itself.
Mirrors `render_error`. -/
def errorText (data : String) : String :=
  match Json.parse data with
  | some (.obj ms) => textMember (.obj ms) "traceback" ++ "\n" ++ textMember (.obj ms) "what"
  | _ => data

/-- What is shown for a message to a user. Mirrors `print_message`. -/
def Print.forUser (m : Message) : List Print :=
  let text := m.data.text?.getD ""
  match m.kind with
  | .output =>
    if m.contentType.startsWith "text/" then [.out text]
    else [.out (withNewline ("[" ++ m.contentType ++ " output]"))]
  | .input => if text.isEmpty then [] else [.out text]
  | .debug =>
    match m.data.number? with
    | some line => [.err (withNewline ("paused at line " ++ toString line ++ " (c/s/q)"))]
    | none => []
  | .error => [.err (withNewline (errorText text))]
  | .interrupt => [.err (withNewline text)]
  | .loading | .start | .finish | .sleep => []

/-- What is shown for a message. Mirrors `print_message`. -/
def Print.ofMessage (json : Bool) (m : Message) : List Print :=
  if json then [.out (withNewline m.toJson.print)] else forUser m

/-- The command that a line is at a pause of the debugger. Mirrors `parse_debug_command`. -/
def debugCommand? (line : String) : Option DebugCommand :=
  match Text.trim line with
  | "c" | "continue" => some .continue_
  | "s" | "step" | "" => some .step
  | "q" | "quit" => some .quit
  | _ => none

/-- What is shown for a line that is no command. -/
def debugHint : String := "debugger commands: c(ontinue), s(tep), q(uit)"

end Lispbox.CommandLine
