import Lispbox.Proofs.Run.Evaluation
import Lispbox.Run.Host

/-!
# The frame stack

Nothing has to be required of values, code or the host for the frames to be kept: the discipline
without requirements is lawful (`free_lawful`; more generally one that requires something of
exceptions only, `raising_lawful`), so every evaluation that comes to an end, whatever the end is,
keeps the frames in the sense of `Machine.Kept`.

* `frames_kept`: the frames after an evaluation, and after a call, an await and an import.
-/
namespace Lispbox

/-- Something is required of exceptions only. -/
def Discipline.raising (P : Exception → Prop) : Discipline where
  value _ _ := True
  node _ _ := True
  place _ _ _ := True
  exception := P
  asks _ _ := True
  aborts _ := True

/-- Nothing is required. -/
def Discipline.free : Discipline where
  value _ _ := True
  node _ _ := True
  place _ _ _ := True
  exception _ := True
  asks _ _ := True
  aborts _ := True

namespace Discipline

theorem raising_lawful (env : Environment) {P : Exception → Prop}
    (hcause : ∀ c, (∀ name, c ≠ .noModule name) → P (.ofCause c))
    (hmissing : ∀ name, env.registry.get? name = none → P (.ofCause (.noModule name)))
    (hraised : ∀ name text, P (.raised name text))
    (hframes : ∀ e frames, P e → P { e with frames := frames }) : (raising P).Lawful env where
  value_mono _ h := h
  place_mono _ h := h
  value_data _ := trivial
  value_builtin _ := trivial
  value_member _ v _ := Value.all_of_forall (fun _ => trivial) v
  value_function _ _ := trivial
  value_deferred _ _ := trivial
  node_parts _ _ _ := trivial
  function_body _ := ⟨trivial, fun _ _ => trivial⟩
  deferred_body _ := ⟨trivial, fun _ _ => trivial⟩
  script_body _ := ⟨trivial, fun _ _ => trivial⟩
  exception_cause hc := hcause _ hc
  exception_noModule _ hnone := hmissing _ hnone
  exception_raised _ := hraised _ _
  exception_frames he := hframes _ _ he
  asks_poll _ := trivial
  asks_line _ _ _ _ := trivial
  asks_native _ _ _ := trivial
  aborts_exhausted := trivial
  runs_supplied h _ _ := runs_probe h (fun _ => trivial) (fun _ => trivial) trivial _ _

theorem free_lawful (env : Environment) : free.Lawful env :=
  raising_lawful env (fun _ _ => trivial) (fun _ _ => trivial) (fun _ _ => trivial)
    fun _ _ _ => trivial

theorem free_valid (m : Machine) (v : Value) : free.Valid m v :=
  Value.all_of_forall (fun _ => trivial) v

theorem free_sound (m : Machine) : free.Sound m :=
  ⟨fun v _ => free_valid m v, fun _ _ => trivial, trivial⟩

variable {D : Discipline} {α σ : Type} {K : Machine → Prop} {Q : Machine → α → Prop}

theorem Verdict.state {g : Option Stopped} {r : Except Exit α} {m : Machine}
    (h : D.Verdict K Q g r m) : K m := by
  match g, r, h with
  | none, .ok _, h => exact h.1
  | none, .error (.raise _), h => exact h.1
  | none, .error (.leave _), h => exact h.1
  | some _, .error (.stop _), h => exact h.1

/-- The state that a conversation ends in. -/
theorem Runs.state {s : Script α} {m m' : Machine} {h : Host σ} {t t' : σ} {r : Except Exit α}
    (hs : D.Runs s K Q m) (hr : (s m).run h t = (.ok r, m', t')) : K m' := by
  have hrun := Dialogue.every_run hs h t
  rw [hr] at hrun
  obtain ⟨g, hg⟩ := hrun
  exact hg.state

end Discipline

theorem RunEnd.raised_of_result {r : Except Abort (Except Exit Value)} {e : Exception}
    (h : RunEnd.ofResult r = .ended (.raised e)) : r = .ok (.error (.raise e)) := by
  unfold RunEnd.ofResult at h
  split at h <;> cases h
  rfl

theorem Program.dialogue_of_raised {σ : Type} {h : Host σ} {env : Environment} {fuel : Nat}
    {p : Program} {t t' : σ} {e : Exception} {m : Machine}
    (hrun : p.run h env fuel t = (.ended (.raised e), m, t')) :
    (p.dialogue env fuel).run h t = (.ok (.error (.raise e)), m, t') := by
  obtain ⟨hr, hrest⟩ := Prod.mk.inj hrun
  exact Prod.ext (RunEnd.raised_of_result hr) hrest

open Discipline in
/-- Whatever an evaluation ends with, a value or an exit: there are as many frames as before, those
below the innermost one are the same, the innermost one still executes the same function of the same
file with the same globals, with locals or without, and no namespace is lost. A function that is
called, a deferred body that is awaited and a module that is imported leave all frames as they were.
-/
theorem frames_kept {σ : Type} (h : Host σ) (env : Environment) (fuel rounds : Nat) (m m' : Machine)
    (t t' : σ) (r : Except Exit Value) :
    (∀ n, (eval env fuel n m).run h t = (.ok r, m', t') →
      m'.frames.length = m.frames.length ∧ m'.frames.tail = m.frames.tail ∧
        m'.frames.head?.map Frame.shape = m.frames.head?.map Frame.shape ∧
        m.namespaces.length ≤ m'.namespaces.length) ∧
    (∀ callee args, (callValue env (eval env fuel) callee args m).run h t = (.ok r, m', t') →
      m'.frames = m.frames ∧ m.namespaces.length ≤ m'.namespaces.length) ∧
    (∀ v, (settle env (eval env fuel) rounds v m).run h t = (.ok r, m', t') →
      m'.frames = m.frames ∧ m.namespaces.length ≤ m'.namespaces.length) ∧
    ∀ name, (load env (eval env fuel) name m).run h t = (.ok r, m', t') →
      m'.frames = m.frames ∧ m.namespaces.length ≤ m'.namespaces.length := by
  have hD := free_lawful env
  have hev := eval_evaluates hD fuel
  have hm := free_sound m
  refine ⟨?_, ?_, ?_, ?_⟩
  · intro n hr
    have hk := (hev n m hm trivial).state hr
    exact ⟨hk.length, hk.below, hk.top, hk.namespaces_le⟩
  · intro callee args hr
    have hargs : ∀ v ∈ args, free.Valid m v := fun v _ => free_valid m v
    have hk := (runs_callValue hD hev hm (free_valid m callee) hargs).state hr
    exact ⟨hk.frames, hk.kept.namespaces_le⟩
  · intro v hr
    have hk := (runs_settle hD hev hm (free_valid m v) rounds).state hr
    exact ⟨hk.frames, hk.kept.namespaces_le⟩
  · intro name hr
    have hk := (runs_load hD hev hm 0 trivial).state hr
    exact ⟨hk.frames, hk.kept.namespaces_le⟩

namespace FrameStack

/-- The main program calls a function with a local. -/
def inFunction : Machine :=
  { Machine.start ⟨"main", "", []⟩ with
    frames := [⟨"f", "main", 1, none, some [("x", .bool true)], 0⟩,
      ⟨"<module>", "main", 1, none, none, 0⟩] }

/-- A body that binds `x`. -/
def body : Block := [.bind 1 "x" (.literal 1 .nil)]

/-- A function and a deferred body of it. -/
def callee : Value := .function ⟨"g", ["x"], body, "main", 1, 1⟩ .program 0

def deferred : Value := .deferred 0 body [("x", .bool true)] "main" 0

def env : Environment := ⟨.standard, 9⟩

/-- The body is awaited and called from a frame that has an `x` of its own, and a module is
imported. -/
theorem frames_kept_inFunction :
    (∃ m', (eval env 9 (.await 1 (.defer 1 body)) inFunction).run .obliging () =
        (.ok (.ok .nil), m', ()) ∧ m'.frames.length = 2) ∧
      (∃ m', (callValue env (eval env 9) callee [.nil] inFunction).run .obliging () =
        (.ok (.ok .nil), m', ()) ∧ m'.frames = inFunction.frames) ∧
      (∃ m', (settle env (eval env 9) 9 deferred inFunction).run .obliging () =
        (.ok (.ok .nil), m', ()) ∧ m'.frames = inFunction.frames) ∧
      ∃ m' v, (load env (eval env 9) "image" inFunction).run .obliging () =
        (.ok (.ok v), m', ()) ∧ m'.frames = inFunction.frames := by
  refine ⟨⟨_, rfl, ?_⟩, ⟨_, rfl, ?_⟩, ⟨_, rfl, ?_⟩, ⟨_, _, rfl, ?_⟩⟩
  · exact ((frames_kept .obliging env 9 9 inFunction _ () () _).1
      (.await 1 (.defer 1 body)) rfl).1
  · exact ((frames_kept .obliging env 9 9 inFunction _ () () _).2.1 callee [.nil] rfl).1
  · exact ((frames_kept .obliging env 9 9 inFunction _ () () _).2.2.1 deferred rfl).1
  · exact ((frames_kept .obliging env 9 9 inFunction _ () () _).2.2.2 "image" rfl).1

end FrameStack
end Lispbox
