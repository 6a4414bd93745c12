import Lispbox.Run.Host
/-!
# Interpreters

An interpreter executes programs one after another, all with the same modules. What a run leaves
behind is kept until the next one begins, and that one has globals, frames, modules and sources of
its own. Only serial numbers are not used again: objects of earlier runs may still be around, and so
may be those that native modules have as members.
-/
namespace Lispbox

/-! ## Serial numbers -/

mutual
/-- The serial numbers of the objects in a value are below this one. -/
def Value.serialBound : Value → Nat
  | .list items => serialBoundItems items
  | .module serial _ members => max (serial + 1) (serialBoundBindings members)
  | .deferred serial _ locals _ _ => max (serial + 1) (serialBoundBindings locals)
  | .nil | .bool _ | .integer _ | .float _ | .text _ | .function _ _ _ | .native _ => 0

/-- The serial numbers of the objects in values are below this one. -/
def serialBoundItems : List Value → Nat
  | [] => 0
  | v :: vs => max v.serialBound (serialBoundItems vs)

/-- The serial numbers of the objects in values that are bound are below this one. -/
def serialBoundBindings : List (String × Value) → Nat
  | [] => 0
  | (_, v) :: bs => max v.serialBound (serialBoundBindings bs)
end

/-- The serial numbers of the objects in the members of a module are below this one. -/
def Module.serialBound (m : Module) : Nat :=
  match m.source with
  | .native members => serialBoundBindings members
  | .script _ => 0

/-- The serial numbers of the objects in the members of modules are below this one. -/
def Registry.serialBound (r : Registry) : Nat :=
  r.modules.foldr (fun m bound => max m.serialBound bound) 0

/-! ## Runs -/

/-- What stays fixed in the runs of an interpreter, and the state in which the last one ended. -/
structure Interpreter where
  env : Environment
  machine : Machine
  deriving Repr

/-- The state before a program is executed; of the last run it only has the serial number that comes
next. Mirrors the start of `run`. -/
def Machine.restart (m : Machine) (p : Program) : Machine :=
  { m with
    namespaces := [⟨.program, p.file, []⟩]
    frames := []
    loaded := []
    sources := [(p.file, p.source)]
    refusals := 0 }

namespace Interpreter

/-- An interpreter that has executed nothing. -/
def new (env : Environment) : Interpreter := ⟨env, ⟨[], [], [], [], env.registry.serialBound, 0⟩⟩

/-- The globals of the last run. -/
def globals (i : Interpreter) : Bindings := i.machine.globals

/-- The dialogue of the next run. -/
def dialogue [Supply] (i : Interpreter) (fuel : Nat) (p : Program) : Dialogue (Except Exit Value) :=
  runProgram i.env fuel p (i.machine.restart p)

/-- Executes a program from the beginning: how the run ends, the interpreter afterwards, and the
state of the host. Mirrors `run`. -/
def run [Supply] {σ : Type} (h : Host σ) (fuel : Nat) (p : Program) (i : Interpreter) (t : σ) :
    RunEnd × Interpreter × σ :=
  let (r, m, t) := (i.dialogue fuel p).run h t
  (.ofResult r, { i with machine := m }, t)

end Interpreter
end Lispbox
