/-!
# Messages

A run is published as an ordered stream of messages. Each has a kind, a payload and the content type
of the payload.

* `Kind.isTerminal`: the kinds that end a run.
-/
namespace Lispbox.Message

/-- The kinds of messages. -/
inductive Kind where
  | output
  /-- A compile error or an explained exception. -/
  | error
  /-- The script waits for a line. -/
  | input
  | sleep
  | interrupt
  /-- The debugger paused before a line. -/
  | debug
  /-- Modules are being installed. -/
  | loading
  | start
  | finish
  deriving DecidableEq, Repr

/-- The word for a kind. -/
def Kind.name : Kind → String
  | .output => "output"
  | .error => "error"
  | .input => "input"
  | .sleep => "sleep"
  | .interrupt => "interrupt"
  | .debug => "debug"
  | .loading => "loading"
  | .start => "start"
  | .finish => "end"

/-- All kinds. -/
def Kind.all : List Kind :=
  [.output, .error, .input, .sleep, .interrupt, .debug, .loading, .start, .finish]

/-- The kind with a name. -/
def Kind.ofName? (name : String) : Option Kind := Kind.all.find? (·.name == name)

theorem Kind.ofName?_name (k : Kind) : Kind.ofName? k.name = some k := by
  cases k <;> decide

/-- The kind ends a run. -/
def Kind.isTerminal : Kind → Bool
  | .finish | .error | .interrupt => true
  | _ => false

/-- What a message carries. -/
inductive Payload where
  | number (n : Nat)
  | text (s : String)
  deriving DecidableEq, Repr

/-- The text of a payload. -/
def Payload.text? : Payload → Option String
  | .text s => some s
  | .number _ => none

/-- The number of a payload. -/
def Payload.number? : Payload → Option Nat
  | .number n => some n
  | .text _ => none

end Lispbox.Message

namespace Lispbox

/-- A message. -/
structure Message where
  kind : Message.Kind
  data : Message.Payload
  contentType : String
  deriving DecidableEq, Repr

end Lispbox
