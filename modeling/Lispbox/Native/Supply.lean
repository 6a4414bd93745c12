import Lispbox.Run.Dialogue
import Lispbox.Value.Display
/-!
# Supplied functions

What the native functions do that the user of the interpreter supplies. On its arguments such a
function is a `Behaviour`: a course of questions to the host, of any kind and in any order, with
events of any kind among them. It hears every answer and every signal, and may heed them or not. In
the end it returns a value, or leaves with any exit, or crashes. It does not see the state of the
run, and has none of its own.

A `Supply` says this of all supplied functions. Everything that is executed has one; where none is
mentioned it is that of the module `probe` (`Supply.probe`), whose functions write on any stream and
crash.

A theorem with `[Supply]` among its binders holds whatever supplied functions do. A theorem without
it is about the functions of `probe`. Its proof rests on what these have in common with all other
native functions: they pass signals on, leave with no exception of their own making (a missing
module is one, and so is one with frames), and emit nothing but output.

* `Supply.MayEmit`: some function can emit an event.
* `script_probe`: what the functions of `probe` do.
-/
namespace Lispbox

/-- What a supplied function does. -/
inductive Behaviour where
  | ends (r : Except Exit Value)
  /-- It fails in a way that no script can handle. -/
  | crashes (reason : String)
  | asks (q : Query) (next : Except Signal q.Answer → Behaviour)

namespace Behaviour

/-- The behaviour as a part of a dialogue. -/
def script : Behaviour → Script Value
  | .ends r => Script.ofExcept r
  | .crashes reason => Script.crash reason
  | .asks q next => fun m => .ask m q fun a => (next a).script m

/-- On some course of the behaviour the event is emitted. -/
inductive MayEmit (e : Event) : Behaviour → Prop where
  | now (next : Except Signal Unit → Behaviour) : MayEmit e (.asks (.emit e) next)
  | later {q : Query} {next : Except Signal q.Answer → Behaviour} (a : Except Signal q.Answer)
    (h : MayEmit e (next a)) : MayEmit e (.asks q next)

end Behaviour

/-- What the supplied functions do with their arguments. -/
class Supply where
  act : Supplied → List Value → Behaviour

/-- Some supplied function emits the event, with some arguments and some answers of the host. -/
def Supply.MayEmit [Supply] (e : Event) : Prop := ∃ f args, (Supply.act f args).MayEmit e

/-! ## The module `probe` -/

namespace Native

/-- The display text of an argument; empty if it is missing. -/
def argumentText (args : List Value) (i : Nat) : String :=
  match args[i]? with
  | some v => v.display
  | none => ""

/-- The output that a script asks for: a stream, a text and a content type. -/
def outputOf (args : List Value) : Output :=
  ⟨Stream.ofName (argumentText args 0), argumentText args 1, argumentText args 2⟩

/-- The reason of a crash that a script asks for. -/
def crashReason : List Value → String
  | [] => "static boom"
  | .text s :: _ => s
  | _ => "unknown panic"

end Native

/-- Emits an event and returns nil; a signal is passed on. -/
def Behaviour.emits (e : Event) : Behaviour :=
  .asks (.emit e) fun
    | .ok () => .ends (.ok .nil)
    | .error s => .ends (.error (.stop s))

/-- The functions of the module `probe`; others write as `emit` does. -/
instance Supply.probe : Supply where
  act f args :=
    if f = .explode then .crashes (Native.crashReason args)
    else .emits (.output (Native.outputOf args))

open Script in
theorem Behaviour.script_emits (e : Event) :
    (Behaviour.emits e).script = (do ask (.emit e); return .nil) := by
  funext m
  refine congrArg (Dialogue.ask m (.emit e)) (funext fun a => ?_)
  cases a <;> rfl

open Script in
theorem script_probe (f : Supplied) (args : List Value) :
    (Supply.act f args).script =
      if f = .explode then crash (Native.crashReason args)
      else do
        ask (.emit (.output (Native.outputOf args)))
        return .nil := by
  simp only [Supply.act]
  split
  · rfl
  · exact Behaviour.script_emits _

end Lispbox
