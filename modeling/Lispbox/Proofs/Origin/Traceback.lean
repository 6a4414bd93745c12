import Lispbox.Proofs.Origin.Tracing
import Lispbox.Proofs.Run.Depth
import Lispbox.Proofs.Run.Isolation

/-!
# Tracebacks

What the traceback of an exception has to do with its origin, for the exceptions that no handler of
a program catches:

* `frames_of_raise`: the frames of the exception are those that were active when it was raised. Only
  an exception that is raised outside all nodes goes without them: `uncaught_without_frames`.
* `lines_of_traceback`: the line of a frame is that of the call or statement that is being evaluated
  in it, unless something before within the same form was on another line, as in
  `argument_on_other_line`. A call that is being made has its own line.

Both come from one lemma about runs that meet a discipline, `raised_origin`.
-/
namespace Lispbox

variable {σ : Type}

/-! ## The origin of an exception that is not caught -/

namespace Discipline

variable {D : Discipline} {env : Environment} {p : Program}

/-- The account of a program goes side by side with its dialogue; in the end its frame is left. -/
theorem parallel_account (hD : D.Lawful env) (hm : D.Sound (.enterMain p))
    (hp : ∀ n ∈ p.body, D.node p.file n) (fuel : Nat) :
    (p.account env fuel).Parallel (fun r r' m => ∃ m₁, D.Reports (fun _ => True)
      (Origin.IsLast env) r r' m₁ ∧ (Machine.enterMain p).Kept m₁ ∧ m = m₁.pop)
      (p.dialogue env fuel) := by
  rw [account_main, dialogue_main]
  refine .bind ((Dialogue.Parallel.every (tells_main hD hm hp fuel)
    (runs_main hD hm hp fuel)).mono fun r r' m₁ ⟨hr, g, hv⟩ => .done ⟨m₁, hr, hv.state, rfl⟩)

/-- An exception that is not caught is as required. -/
theorem exception_of_raised (hD : D.Lawful env) (hm : D.Sound (.enterMain p))
    (hp : ∀ n ∈ p.body, D.node p.file n) {h : Host σ} {fuel : Nat} {t t' : σ} {e : Exception}
    {m : Machine} (hrun : p.run h env fuel t = (.ended (.raised e), m, t')) : D.exception e := by
  have hdialogue := Program.dialogue_of_raised hrun
  rw [dialogue_main, Dialogue.run_bind] at hdialogue
  split at hdialogue
  · next r m₁ t₁ hbody =>
    cases hdialogue
    have hend := Dialogue.every_run (runs_main hD hm hp fuel) h t
    rw [hbody] at hend
    obtain ⟨g, hg⟩ := hend
    match g, hg with
    | none, hg => exact hg.2.2
  · cases hdialogue

/-- What is known of an exception that is not caught, and of its origin. The state is that before
the frame of the main program is left. -/
theorem raised_origin (hD : D.Lawful env) (hm : D.Sound (.enterMain p))
    (hp : ∀ n ∈ p.body, D.node p.file n) {h : Host σ} {fuel : Nat} {t t' : σ} {e : Exception}
    {m : Machine} (hrun : p.run h env fuel t = (.ended (.raised e), m, t')) :
    ∃ o m₁, (p.account env fuel).run h t = (.ok (.error (.raise o)), m, t') ∧
      D.Told (Origin.IsLast env) o e m₁ ∧ (Machine.enterMain p).Kept m₁ ∧ m = m₁.pop := by
  obtain ⟨d, hrun', m₁, hreport, hk, hpop⟩ :=
    (parallel_account hD hm hp fuel).run h t t' (Program.dialogue_of_raised hrun)
  match d, hreport with
  | .error (.raise o), hreport => exact ⟨o, m₁, hrun', hreport.1, hk, hpop⟩

/-- A frame of an exception, from the innermost one on, shows a frame that was active. -/
theorem Told.frame {o : Origin} {e : Exception} {m : Machine} (h : D.Told (Origin.IsLast env) o e m)
    {i : Nat} {f : TraceFrame} (hf : e.frames.reverse[i]? = some f) :
    ∃ g, o.machine.frames[i]? = some g ∧
      f = ⟨g.file, g.line, g.function, o.machine.sourceLine? g.file g.line⟩ := by
  obtain ⟨horigin, -, ⟨-, rfl⟩ | ⟨-, rfl, -⟩⟩ := h
  · rw [Origin.thrown, Machine.traceback, ← List.map_reverse, List.reverse_reverse,
      List.getElem?_map, Option.map_eq_some_iff] at hf
    obtain ⟨g, hg, rfl⟩ := hf
    exact ⟨g, hg, rfl⟩
  · rw [horigin.bare] at hf
    cases hf

/-- An exception that was raised in a node has a frame for each part of the trail. -/
theorem Told.length {o : Origin} {e : Exception} {m : Machine}
    (h : D.Told (Origin.IsLast env) o e m) (hnode : o.InNode) :
    e.frames.length = o.trail.length := by
  obtain ⟨horigin, -, ⟨-, rfl⟩ | ⟨hlast, -⟩⟩ := h
  · simpa [Origin.thrown, Machine.traceback] using horigin.trail.length_eq.symm
  · obtain ⟨s, outer, htrail⟩ := hnode
    rw [hlast.trail] at htrail
    cases htrail

/-- What is being evaluated in one of the frames of a trail. -/
theorem Fit.fits {trail : Trail} {frames : List Frame} (h : D.Fit trail frames) {i : Nat}
    {s : Spot} {f : Frame} (hs : trail[i]? = some (some s)) (hf : frames[i]? = some f) :
    D.Fits f s := by
  induction h generalizing i with
  | nil => cases hs
  | @cons spot g trail frames hfits _ ih =>
    cases i with
    | zero =>
      cases hs
      cases hf
      exact hfits s rfl
    | succ i => exact ih hs hf

end Discipline

namespace Machine

variable {p : Program} {m m₁ : Machine}

/-- The outermost frame stays that of the main program. -/
theorem Kept.outermost (hk : (Machine.enterMain p).Kept m₁) (hu : m.Unwound m₁) :
    ∃ line text, m.traceback.head? = some ⟨p.file, line, "<module>", text⟩ := by
  obtain ⟨hnil, -⟩ | ⟨g, f, fs, hg, hf, hshape⟩ := hk.stack
  · cases hnil
  · obtain ⟨rfl, rfl⟩ := List.cons.inj hg
    obtain ⟨inner, hinner⟩ := hu.frames
    have hfile : f.file = p.file := Frame.file_eq hshape
    have hname : f.function = "<module>" := congrArg Prod.fst hshape
    refine ⟨f.line, m.sourceLine? p.file f.line, ?_⟩
    have hstart : (start p).frames = [] := rfl
    rw [traceback, ← hinner, hf, List.reverse_append]
    simp [hfile, hname, hstart]

/-- With no frame but that of the main program, a refusal takes a limit of one. -/
theorem Kept.limit_of_refusal {env : Environment} (hk : (Machine.enterMain p).Kept m₁)
    (hfull : env.depth ≤ m₁.frames.length) : env.limit ≤ 1 := by
  rw [hk.length] at hfull
  exact Nat.le_trans (Nat.le_max_right 1 env.limit) hfull

end Machine

open Discipline

/-- The account of a run asks what the run asks, and in the same states. An exception that is not
caught is the one that was raised, with the frames that were active then, outermost first; the first
one is that of the main program. Whatever the exception has passed since then has changed nothing in
it.

There is one exception to this. If only one frame may be active and the program ends with a deferred
value, the frame of its body is refused outside all nodes, and the exception has no frames. -/
theorem frames_of_raise (h : Host σ) (env : Environment) (fuel : Nat) (p : Program) (t : σ) :
    (p.account env fuel).exchanges h t = (p.dialogue env fuel).exchanges h t ∧
    ∀ e m t', p.run h env fuel t = (.ended (.raised e), m, t') →
      ∃ o, (p.account env fuel).run h t = (.ok (.error (.raise o)), m, t') ∧
        ((o.InNode ∧ e = { o.exception with frames := o.machine.traceback } ∧
            ∃ line text, e.frames.head? = some ⟨p.file, line, "<module>", text⟩) ∨
          (o.IsLast env ∧ env.limit ≤ 1 ∧ e = o.exception)) := by
  have hD := free_lawful env
  have hm := free_sound (.enterMain p)
  refine ⟨(parallel_account hD hm (fun _ _ => trivial) fuel).exchanges h t,
    fun e m t' hrun => ?_⟩
  obtain ⟨o, m₁, haccount, ⟨-, hu, he⟩, hk, -⟩ := raised_origin hD hm (fun _ _ => trivial) hrun
  refine ⟨o, haccount, he.imp ?_ ?_⟩
  · rintro ⟨hnode, rfl⟩
    exact ⟨hnode, rfl, hk.outermost hu⟩
  · rintro ⟨hlast, rfl, rfl⟩
    exact ⟨hlast, hk.limit_of_refusal hlast.refusal.full, rfl⟩

namespace Traceback

def env : Environment := ⟨.standard, 9⟩

/-- An exception goes out of a function, out of a deferred body that is awaited, and past a handler
of others. -/
def passing : Program :=
  ⟨"main.scm", "", [.define 1 "f" [] [.raise 2 "Error" none] "main.scm" 1,
    .attempt 3 [.await 4 (.defer 4 [.call 5 (.variable 5 "f") []])] [⟨some "Other", none, []⟩]]⟩

/-- It has the three frames that were active when it was raised. -/
theorem frames_of_raise_passing : ∃ e m, ∃ o : Origin,
    passing.run .obliging env 9 () = (.ended (.raised e), m, ()) ∧ o.InNode ∧
      e = { o.exception with frames := o.machine.traceback } ∧
      e.frames.map TraceFrame.function = ["<module>", "<async>", "f"] := by
  obtain ⟨o, -, ⟨hnode, he, -⟩ | ⟨-, hlimit, -⟩⟩ :=
    (frames_of_raise .obliging env 9 passing ()).2 _ _ _ rfl
  · exact ⟨_, _, o, rfl, hnode, he, rfl⟩
  · exact absurd hlimit (by decide)

/-- The value of the program is a deferred body. -/
def deferring : Program := ⟨"main.scm", "(async 1)", [.defer 1 [.literal 1 (.integer 1)]]⟩

/-- With a limit of one frame there is no room for the body, and the exception has no frames. -/
theorem uncaught_without_frames :
    (deferring.run .obliging ⟨.standard, 1⟩ 9 ()).1 = .ended (.raised
      ⟨"RecursionError", "maximum recursion depth exceeded", [], none⟩) := rfl

end Traceback

/-- The frames of an exception that is not caught, from the innermost one on, are at the lines of
what was being evaluated in them when it was raised. A frame is at the line of the innermost call or
statement to which the node belongs that was being evaluated, or at one of the lines of what this
form had evaluated before; if these are all on the line of the form, so is the frame. If the node is
a call that was being made, then the frame is at the line of the call, whatever was evaluated
before. -/
theorem lines_of_traceback (h : Host σ) (env : Environment) (fuel : Nat) (p : Program) (t : σ)
    {e : Exception} {m : Machine} {t' : σ}
    (hrun : p.run h env fuel t = (.ended (.raised e), m, t')) :
    ∃ o, (p.account env fuel).run h t = (.ok (.error (.raise o)), m, t') ∧
      (o.InNode → e.frames.length = o.trail.length) ∧
      ∀ (i : Nat) (f : TraceFrame) (s : Spot),
        e.frames.reverse[i]? = some f → o.trail[i]? = some (some s) →
        s.form.Governs s.node ∧ (f.line = s.form.line ∨ f.line ∈ s.before) ∧
          (s.IsSteady → f.line = s.form.line) ∧
          (s.node.isCall = true → f.line = s.node.line) := by
  have hD := free_lawful env
  obtain ⟨o, m₁, haccount, htold, -⟩ :=
    raised_origin hD (free_sound (.enterMain p)) (fun _ _ => trivial) hrun
  refine ⟨o, haccount, htold.length, fun i f s hf hs => ?_⟩
  obtain ⟨g, hg, rfl⟩ := htold.frame hf
  obtain ⟨-, hgoverned, hline, hcall⟩ := htold.origin.trail.fits hs hg
  refine ⟨hgoverned, List.mem_cons.mp hline, fun hsteady => ?_, fun hiscall => ?_⟩
  · rcases List.mem_cons.mp hline with hline | hline
    · exact hline
    · exact hsteady _ hline
  · rw [hcall hiscall, hgoverned.of_call hiscall] at hline
    exact List.mem_singleton.mp hline

namespace Traceback

/-- A call on the third line with an argument on the fourth one. -/
def call : Node := .call 3 (.variable 3 "f")
  [.call 4 (.variable 4 "+") [.literal 4 (.integer 1), .literal 4 (.integer 2)]]

/-- The function that is called fails. -/
def calling : Program :=
  ⟨"main.scm", "", [.define 1 "f" ["x"] [.raise 2 "Error" none] "main.scm" 1, call]⟩

/-- The function is at the line of its statement, and its caller at the line of the call. -/
theorem lines_of_traceback_calling : ∃ e m,
    calling.run .obliging env 9 () = (.ended (.raised e), m, ()) ∧
      (∀ f, e.frames.reverse[0]? = some f → f.line = 2) ∧
      ∀ f, e.frames.reverse[1]? = some f → f.line = 3 := by
  obtain ⟨o, haccount, -, hlines⟩ := lines_of_traceback .obliging env 9 calling () rfl
  have hinner : o.trail[0]? =
      some (some ⟨.raise 2 "Error" none, .raise 2 "Error" none, []⟩) := by
    cases haccount
    rfl
  have houter : o.trail[1]? = some (some ⟨call, call, []⟩) := by
    cases haccount
    rfl
  refine ⟨_, _, rfl, fun f hf => ?_, fun f hf => ?_⟩
  · exact (hlines 0 f _ hf hinner).2.2.1 (by simp [Spot.IsSteady])
  · exact (hlines 1 f _ hf houter).2.2.2 rfl

/-- A name is unknown after an argument on another line. -/
def printing : Node := .call 1 (.variable 1 "print")
  [.call 2 (.variable 2 "+") [.literal 2 (.integer 1), .literal 2 (.integer 2)], .variable 3 "x"]

def program : Program := ⟨"main.scm", "(print\n (+ 1 2)\n x)", [printing]⟩

/-- The call on the first line evaluates the name, and the frame is at the line of the argument. -/
theorem argument_on_other_line : ∃ e m, ∃ o : Origin,
    program.run .obliging env 9 () = (.ended (.raised e), m, ()) ∧
      (program.account env 9).run .obliging () = (.ok (.error (.raise o)), m, ()) ∧
      o.trail = [some ⟨.variable 3 "x", printing, [2]⟩] ∧ printing.line = 1 ∧
      e.frames.map TraceFrame.line = [2] :=
  ⟨_, _, _, rfl, rfl, rfl, rfl, rfl⟩

end Traceback
end Lispbox
