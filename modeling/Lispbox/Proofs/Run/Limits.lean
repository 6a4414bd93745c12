import Lispbox.Proofs.Run.Agreement

/-!
# Runs with more room for frames

The limit of the active frames is consulted in one place, where a body begins. A run that is never
refused a frame there does not depend on the limit, not even through the exceptions that it handles.

* `dialogue_follows`: a run beside the one with a higher limit, up to a frame that is refused.
* `higher_limit_unseen`: if none is, they are the same run.
-/
namespace Lispbox

variable {σ : Type}

theorem Environment.depth_mono {env env' : Environment} (h : env.limit ≤ env'.limit) :
    env.depth ≤ env'.depth :=
  Nat.max_le.mpr ⟨Nat.le_max_left _ _, Nat.le_trans h (Nat.le_max_right _ _)⟩

theorem dialogue_follows [Supply] {env env' : Environment} (hr : env'.registry = env.registry)
    (hle : env.limit ≤ env'.limit) (fuel : Nat) (p : Program) (k : Nat) :
    (p.dialogue env fuel).Follows env env' k 0 (p.dialogue env' fuel) := by
  have hdepth := Environment.depth_mono hle
  have body := (agreement hr hdepth).of_main (k := k) fuel p
  exact Script.follows_enter hdepth body (.start p) (.start p) (.refl k _)

/-- If a run is never refused a frame, the run of the same program with a higher limit asks the same
of its host, with the same answers and in the same order, and it ends with the same result, the same
globals and the same state in every other respect. -/
theorem higher_limit_unseen [Supply] (h : Host σ) (r : Registry) {limit limit' : Nat}
    (hlimit : limit ≤ limit') (fuel : Nat) (p : Program) (s : σ)
    (hroom : (p.run h ⟨r, limit⟩ fuel s).2.1.refusals = 0) :
    ((p.dialogue ⟨r, limit'⟩ fuel).exchanges h s).map Exchange.said =
        ((p.dialogue ⟨r, limit⟩ fuel).exchanges h s).map Exchange.said ∧
      p.run h ⟨r, limit'⟩ fuel s = p.run h ⟨r, limit⟩ fuel s := by
  -- all frames that there are in the end are to be agreed on
  let k := (p.run h ⟨r, limit⟩ fuel s).2.1.frames.length
  have hfollows : Dialogue.Follows ⟨r, limit⟩ ⟨r, limit'⟩ k 0 (p.dialogue ⟨r, limit⟩ fuel)
      (p.dialogue ⟨r, limit'⟩ fuel) := dialogue_follows (by rfl) hlimit fuel p k
  obtain ⟨hsaid, hresult, hhost, hstates⟩ := hfollows.run h s fun _ => Nat.le_of_eq hroom
  have hstate := hstates.eq (Nat.le_refl k)
  refine ⟨hsaid, Prod.ext (congrArg RunEnd.ofResult hresult) (Prod.ext hstate hhost)⟩

namespace Limits

/-- Calls a function once. -/
def program : Program :=
  ⟨"main", "", [.define 1 "f" [] [.literal 1 (.bool true)] "main" 1, .call 2 (.variable 2 "f") []]⟩

/-- The program needs two frames. -/
theorem higher_limit_unseen_two :
    (2 : Nat) ≤ 9 ∧ (program.run .obliging ⟨.standard, 2⟩ 9 ()).2.1.refusals = 0 ∧
      program.run .obliging ⟨.standard, 9⟩ 9 () = program.run .obliging ⟨.standard, 2⟩ 9 () := by
  have hroom : (program.run .obliging ⟨.standard, 2⟩ 9 ()).2.1.refusals = 0 := by decide
  exact ⟨by decide, hroom,
    (higher_limit_unseen .obliging .standard (by decide : 2 ≤ 9) 9 program () hroom).2⟩

end Limits
end Lispbox
