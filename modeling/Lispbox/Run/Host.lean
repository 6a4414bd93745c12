import Lispbox.Integer.Power
import Lispbox.Run.Eval
/-!
# Hosts

A host answers the questions of a dialogue, or gives a signal. `Dialogue.run` is the whole
conversation.

* `Dialogue.run_bind`: the conversation of one dialogue after another.
-/
namespace Lispbox

/-- A host with a state of its own. -/
structure Host (σ : Type) where
  reply : σ → (q : Query) → Except Signal q.Answer × σ

/-- Agrees to everything, has empty lines to give and no files. -/
def Host.obliging : Host Unit where
  reply _ q :=
    match q with
    | .input _ => (.ok "", ())
    | .readFile _ => (.ok none, ())
    | .poll | .line _ _ | .emit _ | .sleep _ => (.ok (), ())

/-- The conversation of a dialogue with a host: the result, and the states of both. -/
def Dialogue.run {ρ σ : Type} (h : Host σ) : Dialogue ρ → σ → Except Abort ρ × Machine × σ
  | .done r m, s => (.ok r, m, s)
  | .abort a m, s => (.error a, m, s)
  | .ask _ q resume, s => (resume (h.reply s q).1).run h (h.reply s q).2

theorem Dialogue.run_bind {ρ τ σ : Type} (h : Host σ) (d : Dialogue ρ)
    (f : ρ → Machine → Dialogue τ) (s : σ) :
    (d.bind f).run h s =
      match d.run h s with
      | (.ok r, m, s) => (f r m).run h s
      | (.error a, m, s) => (.error a, m, s) := by
  induction d generalizing s with
  | done r m => rfl
  | abort a m => rfl
  | ask m q resume ih => exact ih _ _

/-- How a run ends of itself. -/
inductive Ending where
  | returned (v : Value)
  | raised (e : Exception)
  /-- A native function failed in a way that no script can handle. -/
  | crashed (reason : String)
  /-- The steps that were allowed are used up. -/
  | exhausted
  deriving Repr

/-- How a run ends. -/
inductive RunEnd where
  | ended (e : Ending)
  | stopped (s : Signal)
  deriving Repr

/-- The end of a run whose dialogue is over. -/
def RunEnd.ofResult : Except Abort (Except Exit Value) → RunEnd
  | .ok (.ok v) | .ok (.error (.leave v)) => .ended (.returned v)
  | .ok (.error (.raise e)) => .ended (.raised e)
  | .ok (.error (.stop s)) => .stopped s
  | .error (.crashed reason) => .ended (.crashed reason)
  | .error .exhausted => .ended .exhausted

/-- Executes a program: how the run ends, and the states of both. Mirrors `run`. -/
def Program.run [Supply] {σ : Type} (h : Host σ) (env : Environment) (fuel : Nat) (p : Program)
    (s : σ) : RunEnd × Machine × σ :=
  let (r, m, s) := (p.dialogue env fuel).run h s
  (.ofResult r, m, s)

/-- More steps than any run takes in practice. -/
def ampleFuel : Nat := twoTo 62

end Lispbox
