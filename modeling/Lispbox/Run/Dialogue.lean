import Lispbox.Event
import Lispbox.Run.Machine
/-!
# Dialogues

A run is a dialogue with the surroundings of the script, its host. The script asks: before every
node it asks whether to go on, and it asks for lines, time and files and reports lines and output.
The host answers, or it gives a signal in place of the answer, and the dialogue goes on from there:
a signal is one more reason to skip the rest of a script.

A `Script` is a part of such a dialogue. It changes the state of the run and ends with a result, or
with the reason why what follows is to be skipped.

* `Dialogue.bind_done`, `Dialogue.bind_abort`, `Dialogue.bind_ask`: what comes after a dialogue.
* `Script.bind_pure`: what comes after a result.
-/
namespace Lispbox

/-- What a script asks or reports. -/
inductive Query where
  /-- Whether to go on; asked before every node. -/
  | poll
  /-- A statement is about to be executed. -/
  | line (file : String) (number : Nat)
  | emit (e : Event)
  /-- Asks for a line. -/
  | input (prompt : String)
  /-- A pause of some milliseconds. -/
  | sleep (duration : Nat)
  /-- Asks for the text of a file. -/
  | readFile (name : String)
  deriving DecidableEq, Repr

/-- What can be answered. -/
abbrev Query.Answer : Query → Type
  | .input _ => String
  | .readFile _ => Option String
  | _ => Unit

/-- A host may give a signal in place of the answer; the text of a file is never refused. -/
def Query.mayStop : Query → Bool
  | .readFile _ => false
  | _ => true

/-- How a host stops a run. -/
inductive Signal where
  | interrupt
  /-- The debugger ends the program. -/
  | quit
  deriving DecidableEq, Repr

/-- Why a dialogue breaks off without a result. -/
inductive Abort where
  /-- A native function failed in a way that no script can handle. -/
  | crashed (reason : String)
  /-- The steps that were allowed are used up. -/
  | exhausted
  deriving DecidableEq, Repr

/-- What is said between a script and its host until there is a result; every question comes with
the state of the run in which it is asked. -/
inductive Dialogue (ρ : Type) where
  | done (r : ρ) (m : Machine)
  | abort (a : Abort) (m : Machine)
  | ask (m : Machine) (q : Query) (resume : Except Signal q.Answer → Dialogue ρ)

namespace Dialogue

/-- Goes on with what follows from the result. -/
def bind {ρ τ : Type} : Dialogue ρ → (ρ → Machine → Dialogue τ) → Dialogue τ
  | .done r m, f => f r m
  | .abort a m, _ => .abort a m
  | .ask m q resume, f => .ask m q fun a => (resume a).bind f

@[simp] theorem bind_done {ρ τ : Type} (r : ρ) (m : Machine) (f : ρ → Machine → Dialogue τ) :
    (done r m).bind f = f r m := rfl

@[simp] theorem bind_abort {ρ τ : Type} (a : Abort) (m : Machine) (f : ρ → Machine → Dialogue τ) :
    (abort a m : Dialogue ρ).bind f = .abort a m := rfl

@[simp] theorem bind_ask {ρ τ : Type} (m : Machine) (q : Query)
    (resume : Except Signal q.Answer → Dialogue ρ) (f : ρ → Machine → Dialogue τ) :
    (ask m q resume).bind f = .ask m q fun a => (resume a).bind f := rfl

end Dialogue

/-- Why the rest of a script is skipped. -/
inductive Exit where
  | raise (e : Exception)
  /-- A body ends with a value. -/
  | leave (v : Value)
  /-- The host stops the run. -/
  | stop (s : Signal)
  deriving Repr

/-- A part of a dialogue, from the state it starts in. -/
def Script (α : Type) : Type := Machine → Dialogue (Except Exit α)

namespace Script

instance : Monad Script where
  pure a := fun m => .done (.ok a) m
  bind s f := fun m => (s m).bind fun r m =>
    match r with
    | .ok a => f a m
    | .error e => .done (.error e) m

/-- The state of the run. -/
def get : Script Machine := fun m => .done (.ok m) m

/-- Replaces the state of the run. -/
def set (m : Machine) : Script Unit := fun _ => .done (.ok ()) m

/-- Changes the state of the run. -/
def modify (f : Machine → Machine) : Script Unit := fun m => .done (.ok ()) (f m)

/-- The answer to a question, or the exit of the signal that is given in its place. -/
def heed {α : Type} : Except Signal α → Except Exit α
  | .ok a => .ok a
  | .error s => .error (.stop s)

/-- Asks the host. -/
def ask (q : Query) : Script q.Answer := fun m => .ask m q fun a => .done (heed a) m

/-- Ends with an exit. -/
def exit {α : Type} (e : Exit) : Script α := fun m => .done (.error e) m

/-- Raises the exception of a cause. -/
def raise {α : Type} (c : Cause) : Script α := exit (.raise (.ofCause c))

/-- Ends the run: the interpreter itself failed. -/
def crash {α : Type} (reason : String) : Script α := fun m => .abort (.crashed reason) m

/-- Ends the run: it took more steps than were allowed. -/
def exhausted {α : Type} : Script α := fun m => .abort .exhausted m

/-- Executes a script whatever its result is. -/
def outcome {α : Type} (s : Script α) : Script (Except Exit α) := fun m =>
  (s m).bind fun r m => .done (.ok r) m

/-- A result that is known already. -/
def ofExcept {α : Type} (r : Except Exit α) : Script α := fun m => .done r m

/-- The result of a computation that may raise. -/
def ofCause {α : Type} : Except Cause α → Script α
  | .ok a => pure a
  | .error c => raise c

theorem bind_pure {α β : Type} (a : α) (f : α → Script β) : (pure a >>= f) = f a := rfl

end Script
end Lispbox
