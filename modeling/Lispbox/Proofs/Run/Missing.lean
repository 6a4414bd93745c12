import Lispbox.Proofs.Run.FrameStack

/-!
# Exceptions that name a module

An exception names the module that could not be imported only if an import has raised it: the module
is not in the registry of the run, and the exception is that of the cause, with the frames through
which it has come (`Registry.Misses`). Scripts raise exceptions of the same name, but these name no
module (`raised_unnamed`).

* `raised_misses`: the exception that a run ends with.
-/
namespace Lispbox

/-- The exception is not one for want of a module, or it is raised by an import of a module that is
not in the registry. -/
def Registry.Misses (r : Registry) (e : Exception) : Prop :=
  ∀ name, e.missingModule = some name → r.get? name = none ∧
    ∃ frames, e = { Exception.ofCause (.noModule name) with frames := frames }

theorem raised_unnamed (name text : String) : (Exception.raised name text).missingModule = none :=
  rfl

theorem Exception.missingModule_ofCause {c : Cause} (h : ∀ name, c ≠ .noModule name) :
    (Exception.ofCause c).missingModule = none := by
  unfold ofCause
  dsimp only
  split
  · next name => exact absurd rfl (h name)
  · rfl

open Discipline

theorem misses_lawful (env : Environment) : (raising env.registry.Misses).Lawful env := by
  refine raising_lawful env ?_ ?_ ?_ ?_
  · intro c hc name h
    rw [Exception.missingModule_ofCause hc] at h
    cases h
  · rintro name hnone _ ⟨⟩
    exact ⟨hnone, [], rfl⟩
  · intro name text _ h
    rw [raised_unnamed] at h
    cases h
  · intro e frames he name h
    obtain ⟨hnone, frames', heq⟩ := he name h
    exact ⟨hnone, frames, by rw [heq]⟩

/-- A run that ends with an exception for want of a module has imported it in vain. -/
theorem raised_misses {σ : Type} (h : Host σ) (env : Environment) (fuel : Nat) (p : Program)
    {t : σ} {e : Exception} (hr : (p.run h env fuel t).1 = .ended (.raised e)) :
    env.registry.Misses e := by
  have hsound : (raising env.registry.Misses).Sound (.start p) := .start trivial
  have hruns := Dialogue.every_run
    (runs_runProgram (misses_lawful env) hsound trivial (fun _ _ => trivial) fuel) h t
  have hraised : ((runProgram env fuel p (.start p)).run h t).1 = .ok (.error (.raise e)) :=
    RunEnd.raised_of_result hr
  rw [hraised] at hruns
  obtain ⟨g, hverdict⟩ := hruns
  cases g with
  | none => exact hverdict.2.2
  | some stopped => exact hverdict.elim

end Lispbox
