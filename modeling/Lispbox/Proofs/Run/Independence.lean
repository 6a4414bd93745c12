import Lispbox.Proofs.Run.Renumbering

/-!
# Runs on one interpreter

What a run leaves behind does not reach the next one: an interpreter that has executed programs
executes the next one as a new interpreter does. It may be that earlier runs were stopped in the
middle of frames and imports. Only the serial numbers of objects are higher, and no script can tell
(`Interpreter.RunsAs`).

* `Interpreter.Used.serial_le`: numbers of earlier objects are not given away again.
* `runs_independent`: the next run, however the runs before it ended.
-/
namespace Lispbox

variable {σ : Type}

/-- The end of a run with other serial numbers. -/
def RunEnd.renumber (c : Numbering) : RunEnd → RunEnd
  | .ended (.returned v) => .ended (.returned (v.renumber c))
  | r => r

theorem RunEnd.ofResult_renumber (c : Numbering) (r : Except Abort (Except Exit Value)) :
    ofResult (r.map (c.outcome (Value.renumber c))) = (ofResult r).renumber c := by
  match r with
  | .ok (.ok v) | .ok (.error (.leave v)) => rfl
  | .ok (.error (.raise e)) => rfl
  | .ok (.error (.stop s)) => rfl
  | .error (.crashed reason) => rfl
  | .error .exhausted => rfl

namespace Interpreter

/-- The next run of `j` is that of `i` with other serial numbers: the same is said to the host,
which is left in the same state, and the end and the globals are the same. The texts of values, and
whether they are equal, do not depend on the numbers. -/
structure RunsAs (c : Numbering) (i j : Interpreter) (h : Host σ) (fuel : Nat) (p : Program)
    (t : σ) : Prop where
  said : ((j.dialogue fuel p).exchanges h t).map Exchange.said =
    ((i.dialogue fuel p).exchanges h t).map Exchange.said
  host : (j.run h fuel p t).2.2 = (i.run h fuel p t).2.2
  ended : (j.run h fuel p t).1 = (i.run h fuel p t).1.renumber c
  globals : (j.run h fuel p t).2.1.globals = (i.run h fuel p t).2.1.globals.renumber c
  seen : ∀ v w : Value, (v.renumber c).repr = v.repr ∧
    (v.renumber c).same (w.renumber c) = v.same w

/-- The interpreter was created with the modules and the limit, and has executed some programs
since, for hosts of any kind. -/
inductive Used (env : Environment) : Interpreter → Prop where
  | new : Used env (.new env)
  | run {σ : Type} {i : Interpreter} (hi : Used env i) (h : Host σ) (fuel : Nat) (p : Program)
    (t : σ) : Used env (i.run h fuel p t).2.1

variable {env : Environment} {i : Interpreter}

theorem Used.env_eq (hi : i.Used env) : i.env = env := by
  induction hi with
  | new => rfl
  | run _ _ _ _ _ ih => exact ih

/-- A new number is one that no object among the members of modules has. -/
theorem Used.serial_le (hi : i.Used env) : env.registry.serialBound ≤ i.machine.serial := by
  induction hi with
  | new => exact Nat.le_refl _
  | @run σ i hi h fuel p t ih =>
    -- with the same numbers on both sides, what is of use here is that none is below the base
    have hbase : i.env.registry.serialBound ≤ env.registry.serialBound :=
      Nat.le_of_eq (by rw [hi.env_eq])
    have hrun := renumbers_runProgram (c := .shift env.registry.serialBound 0) hbase fuel p
      (i.machine.restart p) ih
    exact (hrun.run h t).2.2

end Interpreter

open Interpreter

/-- The next run on an interpreter that has executed programs, however these runs ended, is that on
a new interpreter with the same modules and limit, for a host in the same state. -/
theorem runs_independent (h : Host σ) {env : Environment} {i : Interpreter} (hi : i.Used env)
    (fuel : Nat) (p : Program) (t : σ) : ∃ c, RunsAs c (.new env) i h fuel p t := by
  obtain ⟨d, hd⟩ := Nat.exists_eq_add_of_le hi.serial_le
  have hstart : ((Interpreter.new env).machine.restart p).renumber
      (.shift env.registry.serialBound d) = i.machine.restart p := by
    have hserial : (Numbering.shift env.registry.serialBound d).number env.registry.serialBound =
        i.machine.serial := by
      rw [hd]
      exact if_neg (Nat.lt_irrefl _)
    rw [Machine.restart, Machine.restart, ← hserial]
    rfl
  have hrun := renumbers_runProgram (c := .shift env.registry.serialBound d) (Nat.le_refl _) fuel p
    ((Interpreter.new env).machine.restart p) (Nat.le_refl _)
  rw [hstart] at hrun
  obtain ⟨hsaid, hresult, -⟩ := hrun.run h t
  have hdialogue : i.dialogue fuel p = runProgram env fuel p (i.machine.restart p) := by
    rw [Interpreter.dialogue, hi.env_eq]
  refine ⟨.shift env.registry.serialBound d, ?_, ?_, ?_, ?_, ?_⟩
  · rw [hdialogue]
    exact hsaid
  · rw [Interpreter.run, hdialogue, hresult]
    rfl
  · rw [Interpreter.run, hdialogue, hresult]
    exact RunEnd.ofResult_renumber _ _
  · rw [Interpreter.run, hdialogue, hresult]
    exact Machine.globals_renumber _
  · exact fun v w => ⟨v.repr_renumber, v.same_renumber w⟩

namespace Independence

def env : Environment := ⟨.standard, 9⟩

/-- Imports a module, and fails in a function. -/
def failing : Program :=
  ⟨"main.scm", "", [.load 1 "math", .define 2 "f" [] [.raise 2 "Error" none] "main.scm" 1,
    .call 3 (.variable 3 "f") []]⟩

def importing : Program := ⟨"main.scm", "", [.load 1 "image"]⟩

def used : Interpreter := ((Interpreter.new env).run .obliging 9 failing ()).2.1

def image (serial : Nat) : Value := .module serial "image" [("show", .native .showImage)]

/-- After a run that has failed the module object of the next one has the next number, in place of
the first one. -/
theorem runs_independent_failing :
    (∃ e, ((Interpreter.new env).run .obliging 9 failing ()).1 = .ended (.raised e)) ∧
      used.Used env ∧
      ((Interpreter.new env).run .obliging 9 importing ()).2.1.globals = [("image", image 0)] ∧
      (used.run .obliging 9 importing ()).2.1.globals = [("image", image 1)] ∧
      ∃ c, RunsAs c (.new env) used .obliging 9 importing () ∧ c.number 0 = 1 := by
  have hused : used.Used env := .run .new .obliging 9 failing ()
  have hnew : ((Interpreter.new env).run .obliging 9 importing ()).2.1.globals =
      [("image", image 0)] := rfl
  have hnext : (used.run .obliging 9 importing ()).2.1.globals = [("image", image 1)] := rfl
  obtain ⟨c, hruns⟩ := runs_independent .obliging hused 9 importing ()
  have hglobals := hruns.globals
  rw [hnew, hnext] at hglobals
  simp only [Bindings.renumber, List.map_cons, List.map_nil, image, Value.renumber_module,
    List.cons.injEq, Prod.mk.injEq, Value.module.injEq, true_and, and_true] at hglobals
  exact ⟨⟨_, rfl⟩, hused, hnew, hnext, c, hruns, hglobals.1.symm⟩

end Independence
end Lispbox
