import Lispbox.Proofs.Run.Agreement

/-!
# Whose locals an evaluation sees

A function, a deferred body and a module have the globals of their own file and what they were
given. The locals of the code that called them are out of reach for all that they do, however deep
the calls are nested: names are not looked up along the stack, no binding is made in a frame further
out, a deferred body takes no locals along but those of its own frame, and a traceback shows none.

* `callers_locals_unseen`: evaluations in two states that differ only in what callers have.

The relation of the two states is `Machine.Agree`: on the innermost frame for the evaluation of a
node, on no frame at all for what begins in a frame of its own.
-/
namespace Lispbox

variable {σ : Type}

/-- Two evaluations of a node take the same course, down to the traceback of an exception and what
the innermost frame, the namespaces, the modules and the sources are in the end, if the states that
they begin in differ only in the locals and reported lines of frames below the innermost one. For a
function that is called, a deferred body that is awaited and a module that is imported the innermost
frame is that of the caller, and may differ as well. -/
theorem callers_locals_unseen [Supply] (h : Host σ) (env : Environment) (fuel rounds : Nat)
    (s : σ) :
    (∀ n (m m' : Machine), m.Agree 1 m' →
      (eval env fuel n m).SameCourse h s 1 (eval env fuel n m')) ∧
    ∀ m m' : Machine, m.Agree 0 m' →
      (∀ callee args, (callValue env (eval env fuel) callee args m).SameCourse h s 0
        (callValue env (eval env fuel) callee args m')) ∧
      (∀ v, (settle env (eval env fuel) rounds v m).SameCourse h s 0
        (settle env (eval env fuel) rounds v m')) ∧
      ∀ name, (load env (eval env fuel) name m).SameCourse h s 0
        (load env (eval env fuel) name m') := by
  let C : Congruence env env := agreement rfl (Nat.le_refl _)
  have hev := C.eval fuel
  -- both sides have the same room
  have course {k : Nat} {t : Script Value} (ht : Script.Follows env env k t t) {m m' : Machine}
      (hm : m.Agree k m') : (t m).SameCourse h s k (t m') :=
    (ht m m' hm).run h s fun hlt => absurd hlt (Nat.lt_irrefl _)
  refine ⟨fun n m m' hm => course (hev 0 n) hm, fun m m' hm => ⟨?_, ?_, ?_⟩⟩
  · exact fun callee args => course (C.of_callValue hev callee args) hm
  · exact fun v => course (C.of_settle hev rounds v) hm
  · exact fun name => course (C.of_load hev name) hm

namespace Scoping

/-- A function that was called by one with a local `x`. -/
def calledWith (x : Bool) : Machine :=
  { Machine.start ⟨"main", "", []⟩ with
    frames := [⟨"g", "main", 1, none, some [], 0⟩, ⟨"f", "main", 2, none, some [("x", .bool x)], 0⟩,
      ⟨"<module>", "main", 3, none, none, 0⟩] }

def env : Environment := ⟨.standard, 9⟩

/-- The name of the exception that a conversation ends with. -/
def raised? (r : Except Abort (Except Exit Value)) : Option String :=
  match r with
  | .ok (.error (.raise e)) => some e.name
  | _ => none

/-- The `x` of the caller is not found, and cannot be assigned to. -/
theorem callers_locals_unseen_here :
    (calledWith true).Agree 1 (calledWith false) ∧
      raised? ((eval env 9 (.variable 1 "x") (calledWith true)).run .obliging ()).1 =
        some "NameError" ∧
      (eval env 9 (.variable 1 "x") (calledWith true)).SameCourse .obliging () 1
        (eval env 9 (.variable 1 "x") (calledWith false)) ∧
      (calledWith true).Agree 0 (calledWith false) ∧
      (load env (eval env 9) "math" (calledWith true)).SameCourse .obliging () 0
        (load env (eval env 9) "math" (calledWith false)) := by
  have hm : (calledWith true).Agree 1 (calledWith false) := ⟨rfl, rfl, rfl⟩
  refine ⟨hm, by decide, ?_, hm.mono (Nat.zero_le 1), ?_⟩
  · exact (callers_locals_unseen .obliging env 9 9 ()).1 (.variable 1 "x") _ _ hm
  · exact ((callers_locals_unseen .obliging env 9 9 ()).2 _ _ (hm.mono (Nat.zero_le 1))).2.2 "math"

end Scoping
end Lispbox
