import Lispbox.Proofs.Exception.Excerpt
import Lispbox.Proofs.Origin.Quoting

/-!
# What explanations show

The explanation of an exception shows an excerpt of its traceback. It is found by two texts, the
name of the file and the name of the exception, in a text that has much else in it. Both are there:
the outermost frame of the traceback is that of the main program, and the name of an exception is
on one line, because the program gives it as a symbol (`Discipline.naming`).

* `single_line_of_raised`: the names of the exceptions of a run have no line feed.
* `excerpt_of_failure`: the excerpt begins with the line of the main program and ends with the first
  line below it that mentions the name.
-/
namespace Lispbox

variable {σ : Type}

/-- The modules that are scripts raise only exceptions whose names have no line feed. -/
def Registry.RaisesLines (r : Registry) : Prop :=
  ∀ name s p, r.get? name = some ⟨s, .script p⟩ → p.RaisesLines

/-! ## The names of exceptions -/

theorem ExceptionKind.single_line (k : ExceptionKind) : '\n' ∉ k.name.toList := by
  cases k <;> decide

namespace Discipline

/-- What is executed raises only exceptions whose names have no line feed. -/
def naming : Discipline where
  value _
    | .function d _ _ => ∀ n ∈ d.body, n.RaisesLines
    | .deferred _ body _ _ _ => ∀ n ∈ body, n.RaisesLines
    | _ => True
  node _ := Node.RaisesLines
  place _ _ _ := True
  exception e := '\n' ∉ e.name.toList
  asks _ _ := True
  aborts _ := True

theorem naming_lawful {env : Environment} (hr : env.registry.AllStandard)
    (hlines : env.registry.RaisesLines) : naming.Lawful env where
  value_mono _ hv := hv
  place_mono _ _ := trivial
  value_data {o v} hc := by
    cases v with
    | function d home scope => cases hc
    | deferred serial body locals file scope => cases hc
    | _ => trivial
  value_builtin _ := trivial
  value_member hm := (hr.get hm).all rfl trivial fun _ _ => trivial
  value_function _ hn := hn.inside
  value_deferred _ hn := hn.inside
  node_parts hn c hc := hn.inside c (Node.mem_inside hc)
  function_body hv := ⟨trivial, hv⟩
  deferred_body hv := ⟨trivial, hv⟩
  script_body hq := ⟨trivial, hlines _ _ _ hq⟩
  exception_cause {c} _ := c.kind.single_line
  exception_noModule _ _ := ExceptionKind.moduleNotFound.single_line
  exception_raised hn := hn.self _ rfl
  exception_frames he := he
  asks_poll _ := trivial
  asks_line _ _ _ _ := trivial
  asks_native _ _ _ := trivial
  aborts_exhausted := trivial
  runs_supplied h _ _ := runs_probe h (fun _ => trivial) (fun _ => trivial) trivial _ _

end Discipline

open Discipline

theorem single_line_of_raised {h : Host σ} {env : Environment} (hr : env.registry.AllStandard)
    (hlines : env.registry.RaisesLines) {p : Program} (hp : p.RaisesLines) {fuel : Nat} {t t' : σ}
    {e : Exception} {m : Machine} (hrun : p.run h env fuel t = (.ended (.raised e), m, t')) :
    '\n' ∉ e.name.toList :=
  exception_of_raised (naming_lawful hr hlines) (.enterMain trivial) hp hrun

/-- The frame of the main program is the outermost one. -/
theorem outermost_of_raised {h : Host σ} {env : Environment} (hlimit : 2 ≤ env.limit) {p : Program}
    {fuel : Nat} {t t' : σ} {e : Exception} {m : Machine}
    (hrun : p.run h env fuel t = (.ended (.raised e), m, t')) :
    ∃ line text fs, e.frames = ⟨p.file, line, "<module>", text⟩ :: fs := by
  obtain ⟨o, m₁, -, ⟨-, hu, he⟩, hk, -⟩ :=
    raised_origin (free_lawful env) (free_sound (.enterMain p)) (fun _ _ => trivial) hrun
  rcases he with ⟨-, rfl⟩ | ⟨hlast, -, rfl⟩
  · obtain ⟨line, text, hhead⟩ := hk.outermost hu
    exact ⟨line, text, List.head?_eq_some_iff.mp hhead⟩
  · have hone : env.limit ≤ 1 := hk.limit_of_refusal hlast.refusal.full
    omega

/-- The explanation of an exception that is not caught, if there are only standard modules and
scripts and two frames may be active, for a file whose name is on one line and not a part of the
first line of a traceback; so it is not empty either. The excerpt begins with the line of the
outermost frame, that of the main program, ends with the first line below it that mentions the
exception, and is a contiguous part of the traceback. Compiled programs raise exceptions with names
on one line. -/
theorem excerpt_of_failure (h : Host σ) {env : Environment} (hr : env.registry.AllStandard)
    (hlines : env.registry.RaisesLines) (hlimit : 2 ≤ env.limit) {p : Program}
    (hp : p.RaisesLines) (hfile : '\n' ∉ p.file.toList)
    (hheader : Text.contains "Traceback (most recent call last):" p.file = false) (fuel : Nat)
    (t : σ) {e : Exception} {m : Machine} {t' : σ}
    (hrun : p.run h env fuel t = (.ended (.raised e), m, t')) (x : Explainer) :
    (∀ source file depth q, compile source file depth = .ok q → q.file = file ∧ q.RaisesLines) ∧
    ∃ line text first inner last after,
      e.frames.head? = some ⟨p.file, line, "<module>", text⟩ ∧
      first = "  File \"" ++ p.file ++ "\", line " ++ toString line ++ ", in <module>" ∧
      Text.split '\n' (e.explain p.file x).traceback =
        "Traceback (most recent call last):" :: first :: (inner ++ last :: after) ∧
      (∀ l ∈ inner, Text.contains l e.name = false) ∧ Text.contains last e.name = true ∧
      (e.explain p.file x).whereText = "\n".intercalate (first :: (inner ++ [last])) ∧
      (e.explain p.file x).whereText ≠ "" ∧
      ∃ start rest,
        (e.explain p.file x).traceback = start ++ ((e.explain p.file x).whereText ++ rest) := by
  refine ⟨fun _ _ _ _ hq => ⟨(compile_isOwn hq).1, compile_raisesLines hq⟩, ?_⟩
  have hname := single_line_of_raised hr hlines hp hrun
  obtain ⟨line, text, fs, hframes⟩ := outermost_of_raised hlimit hrun
  have hmain : '\n' ∉ "<module>".toList := by decide
  obtain ⟨inner, last, after, hexcerpt⟩ :=
    Exception.excerpt hframes hfile hmain hname hheader x
  refine ⟨line, text, _, inner, last, after, by rw [hframes]; rfl, ?_, hexcerpt⟩
  rw [TraceFrame.headline, String.append_assoc]
  rfl

namespace Explaining

open Quoting

theorem lib_raisesLines : lib.RaisesLines :=
  List.forall_mem_singleton.mpr (.of (fun _ h => by cases h; decide) nofun)

theorem program_raisesLines : program.RaisesLines :=
  List.forall_mem_cons.mpr ⟨.of nofun nofun, List.forall_mem_singleton.mpr (.of nofun nofun)⟩

/-- The exception of the module is mentioned where the traceback quotes the module. -/
theorem excerpt_of_failure_lib :
    ∃ e m, program.run .obliging env 9 () = (.ended (.raised e), m, ()) ∧
      Text.contains "Traceback (most recent call last):" program.file = false ∧
      ∃ inner last, (e.explain program.file .builtin).whereText = "\n".intercalate
          ("  File \"main.scm\", line 2, in <module>" :: (inner ++ [last])) ∧
        Text.contains last "E" = true := by
  have hheader : Text.contains "Traceback (most recent call last):" program.file = false := by
    decide +kernel
  obtain ⟨-, line, text, first, inner, last, -, hhead, rfl, -, -, hlast, hwhere, -⟩ :=
    excerpt_of_failure .obliging allStandard_env (fun _ _ _ hq => script_env hq ▸ lib_raisesLines)
      (by decide) program_raisesLines (by decide) hheader 9 () rfl .builtin
  cases hhead
  exact ⟨_, _, rfl, hheader, inner, last, hwhere, hlast⟩

end Explaining
end Lispbox
