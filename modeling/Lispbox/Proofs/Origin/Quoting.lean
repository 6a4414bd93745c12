import Lispbox.Proofs.Origin.Traceback

/-!
# What tracebacks quote

A frame of a traceback quotes the line it is at. The text comes from a table of sources with a file
name for each, which every import extends. Whose code the frame executes is another matter: the node
that is being evaluated in it is part of a program, the main one or that of a module
(`Registry.MayRun`), and frames, functions and deferred bodies know the file of this program
(`Discipline.authorship`).

* `Steps.sourced`: the table has an entry for the file of every namespace, and no entry but those of
  programs that the run may execute.
* `quoted_lines`: each frame quotes a program with the file name of the program whose code it
  executes, and that is this program unless another one has its file name, as in
  `module_of_same_file`.
-/
namespace Lispbox

/-- The node is part of the program, at any depth. -/
inductive Program.Contains (q : Program) : Node → Prop where
  | statement {n : Node} (hn : n ∈ q.body) : q.Contains n
  | inside {n c : Node} (hn : q.Contains n) (hc : c ∈ n.inside) : q.Contains c

theorem Program.Contains.isOf {q : Program} {n : Node} (h : q.Contains n) (hq : q.IsOwn) :
    n.IsOf q.file := by
  induction h with
  | statement hn => exact hq _ hn
  | inside _ hc ih => exact ih.inside _ hc

/-- The program is the main one or that of a module. -/
def Registry.MayRun (r : Registry) (p q : Program) : Prop :=
  q = p ∨ ∃ name s, r.get? name = some ⟨s, .script q⟩

theorem Registry.MayRun.isOwn {r : Registry} {p q : Program} (h : r.MayRun p q) (hr : r.IsOwn)
    (hp : p.IsOwn) : q.IsOwn := by
  rcases h with rfl | ⟨name, s, hq⟩
  · exact hp
  · exact hr name s q hq

/-! ## Whose code is executed -/

/-- The node is part of a program with the file. -/
def Registry.Wrote (r : Registry) (p : Program) (file : String) (n : Node) : Prop :=
  ∃ q, r.MayRun p q ∧ q.file = file ∧ q.Contains n

namespace Discipline

/-- What is executed is part of a program, and is executed for the file of the program; the lines
that are reported for a file are those of such parts. -/
def authorship (r : Registry) (p : Program) : Discipline where
  value o
    | .function d _ scope => OwnedBy o d.file scope ∧ ∀ n ∈ d.body, r.Wrote p d.file n
    | .deferred _ body _ file scope => OwnedBy o file scope ∧ ∀ n ∈ body, r.Wrote p file n
    | _ => True
  node := r.Wrote p
  place := OwnedBy
  exception _ := True
  asks _ q := ∀ file line, q = .line file line → ∃ n, r.Wrote p file n ∧ n.line = line
  aborts _ := True

variable {env : Environment} {p : Program}

theorem authorship_lawful (hr : env.registry.AllStandard) (hown : env.registry.IsOwn)
    (hp : p.IsOwn) : (authorship env.registry p).Lawful env where
  value_mono {o o' v} ho hv := by
    cases v with
    | function d home scope => exact ⟨hv.1.mono ho, hv.2⟩
    | deferred serial body locals file scope => exact ⟨hv.1.mono ho, hv.2⟩
    | _ => trivial
  place_mono ho hp := hp.mono ho
  value_data {o v} hc := by
    cases v with
    | function d home scope => cases hc
    | deferred serial body locals file scope => cases hc
    | _ => trivial
  value_builtin _ := trivial
  value_member hm := (hr.get hm).all rfl trivial fun _ _ => trivial
  value_function := by
    rintro o file scope home line name params body f column hplace ⟨q, hq, rfl, hn⟩
    -- the definition names the file that it is of
    cases (hn.isOf (hq.isOwn hown hp)).self _ rfl
    exact ⟨hplace, fun c hc => ⟨q, hq, rfl, .inside hn hc⟩⟩
  value_deferred := by
    rintro o file scope line body serial locals hplace ⟨q, hq, rfl, hn⟩
    exact ⟨hplace, fun c hc => ⟨q, hq, rfl, .inside hn hc⟩⟩
  node_parts := by
    rintro file n ⟨q, hq, rfl, hn⟩ c hc
    exact ⟨q, hq, rfl, .inside hn (Node.mem_inside hc)⟩
  function_body hv := hv
  deferred_body hv := hv
  script_body {o name s q} hq :=
    ⟨⟨.module name, by simp⟩, fun n hn => ⟨q, .inr ⟨name, s, hq⟩, rfl, .statement hn⟩⟩
  exception_cause _ := trivial
  exception_noModule _ _ := trivial
  exception_raised _ := trivial
  exception_frames _ := trivial
  asks_poll _ := nofun
  asks_line {m f fs n} _ _ _ hn := by
    rintro _ _ ⟨⟩
    exact ⟨n, hn, rfl⟩
  asks_native _ _ hq := by
    rintro file line rfl
    cases hq
  aborts_exhausted := trivial
  runs_supplied h _ _ := runs_probe h (fun _ => nofun) (fun _ => trivial) trivial _ _

end Discipline

/-! ## The table of sources -/

namespace Machine

variable {env : Environment} {r : Registry} {p : Program} {m m' : Machine}

/-- The file of every namespace has a source, and the sources are those of programs. -/
structure Sourced (r : Registry) (p : Program) (m : Machine) : Prop where
  known : ∀ o ∈ m.owners, ∃ x ∈ m.sources, x.1 = o.2
  written : ∀ x ∈ m.sources, ∃ q, r.MayRun p q ∧ x = (q.file, q.source)

theorem Sourced.start (r : Registry) (p : Program) : (start p).Sourced r p where
  known o ho := ⟨(p.file, p.source), List.mem_singleton.mpr rfl, by
    rw [List.mem_singleton.mp ho]⟩
  written x hx := ⟨p, .inl rfl, List.mem_singleton.mp hx⟩

/-- The namespaces and sources of a step are those before, or a module begins. -/
theorem Step.sources (h : m.Step env m') : (m'.sources = m.sources ∧ m'.owners = m.owners) ∨
    ∃ name s q, env.registry.get? name = some ⟨s, .script q⟩ ∧
      m'.sources = (q.file, q.source) :: m.sources ∧
      m'.owners = m.owners ++ [(.module name, q.file)] := by
  have howners (name : String) (q : Program) :
      (m.openModule name q).owners = m.owners ++ [(.module name, q.file)] := by
    simp [owners, openModule]
  cases h with
  | setLine line =>
    refine .inl ⟨?_, (m.alters_setLine line).owners⟩
    unfold Machine.setLine
    split <;> rfl
  | reportFrom line =>
    refine .inl ⟨?_, (m.alters_reportFrom line).owners⟩
    unfold Machine.reportFrom
    split <;> rfl
  | bind hb =>
    refine .inl ⟨?_, hb.owners⟩
    cases hb <;> rfl
  | @refuseModule name s q hnew hr => exact .inr ⟨name, s, q, hr, rfl, howners name q⟩
  | @enterModule name s q hnew hr => exact .inr ⟨name, s, q, hr, rfl, howners name q⟩
  | advance | refuse | push | pop | native | finishModule => exact .inl ⟨rfl, rfl⟩

theorem Step.sourced (h : m.Step env m') (hm : m.Sourced env.registry p) :
    m'.Sourced env.registry p := by
  obtain ⟨hsources, howners⟩ | ⟨name, s, q, hq, hsources, howners⟩ := h.sources
  · exact ⟨by rw [hsources, howners]; exact hm.known, by rw [hsources]; exact hm.written⟩
  · constructor
    · intro o ho
      rw [howners, List.mem_append, List.mem_singleton] at ho
      rw [hsources]
      rcases ho with ho | rfl
      · obtain ⟨x, hx, hfile⟩ := hm.known o ho
        exact ⟨x, List.mem_cons_of_mem _ hx, hfile⟩
      · exact ⟨_, List.mem_cons_self, rfl⟩
    · rw [hsources]
      exact List.forall_mem_cons.mpr ⟨⟨q, .inr ⟨name, s, hq⟩, rfl⟩, hm.written⟩

theorem Steps.sourced (h : m.Steps env m') (hm : m.Sourced env.registry p) :
    m'.Sourced env.registry p := by
  induction h with
  | refl => exact hm
  | tail _ hs ih => exact hs.sourced ih

/-- The sources are not touched when frames are left. -/
theorem Sourced.before (h : m'.Sourced r p) (hu : m.Unwound m') : m.Sourced r p := by
  rw [hu.store] at h
  exact ⟨h.known, h.written⟩

/-- A line of a file that has a namespace is quoted from a program with this file name. -/
theorem Sourced.quote (h : m.Sourced r p) {file : String} {scope : Nat}
    (ho : OwnedBy m.owners file scope) (line : Nat) :
    ∃ q, r.MayRun p q ∧ q.file = file ∧
      m.sourceLine? file line = some (Text.trim (Text.lineText q.source line)) := by
  obtain ⟨home, hhome⟩ := ho
  obtain ⟨x, hx, hfile⟩ := h.known _ (List.mem_of_getElem? hhome)
  obtain ⟨source, hsource⟩ := Option.isSome_iff_exists.mp
    (List.lookup_isSome_iff.mpr ⟨x, hx, beq_iff_eq.mpr hfile.symm⟩)
  obtain ⟨before, after, hentries, -⟩ := List.lookup_eq_some_iff.mp hsource
  obtain ⟨q, hq, he⟩ := h.written (file, source) (by simp [hentries])
  cases he
  exact ⟨q, hq, rfl, by rw [sourceLine?, hsource]; rfl⟩

end Machine

open Discipline

/-- Every line that a run reports for a file is that of a node of a program with the file. -/
theorem reported_written {σ : Type} (h : Host σ) {env : Environment}
    (hr : env.registry.AllStandard) (hown : env.registry.IsOwn) {p : Program} (hp : p.IsOwn)
    (fuel : Nat) (t : σ) {x : Exchange} (hx : x ∈ (p.dialogue env fuel).exchanges h t)
    {file : String} {line : Nat} (hq : x.query = .line file line) :
    ∃ n, env.registry.Wrote p file n ∧ n.line = line :=
  asks_of_main (authorship_lawful hr hown hp) (.enterMain ⟨.program, rfl⟩)
    (fun _ hn => ⟨p, .inl rfl, rfl, .statement hn⟩) fuel h t x hx file line hq

/-- The lines that the traceback of an exception quotes, if there are only standard modules and
scripts. What a frame was executing, from the innermost one on, is part of a program that has the
file name of the frame: the main program or that of a module. The frame quotes the line it is at
from such a program, trimmed; and this is the program that it was executing, unless there are
programs of the same file name with another source. Compiled programs are code of their files. -/
theorem quoted_lines {σ : Type} (h : Host σ) {env : Environment} (hr : env.registry.AllStandard)
    (hown : env.registry.IsOwn) {p : Program} (hp : p.IsOwn) (fuel : Nat) (t : σ) {e : Exception}
    {m : Machine} {t' : σ} (hrun : p.run h env fuel t = (.ended (.raised e), m, t')) :
    (∀ source file depth q, compile source file depth = .ok q → q.file = file ∧ q.IsOwn) ∧
    ∃ o, (p.account env fuel).run h t = (.ok (.error (.raise o)), m, t') ∧
      (o.InNode → e.frames.length = o.trail.length) ∧
      ∀ (i : Nat) (f : TraceFrame) (s : Option Spot),
        e.frames.reverse[i]? = some f → o.trail[i]? = some s →
        ∃ q q', env.registry.MayRun p q ∧ q.file = f.file ∧
          (∀ spot ∈ s, q.Contains spot.node) ∧
          env.registry.MayRun p q' ∧ q'.file = f.file ∧
          f.sourceLine = some (Text.trim (Text.lineText q'.source f.line)) ∧
          ((∀ q₁, env.registry.MayRun p q₁ → q₁.file = f.file → q₁.source = q.source) →
            f.sourceLine = some (Text.trim (Text.lineText q.source f.line))) := by
  have hD := authorship_lawful hr hown hp
  have hbody : ∀ n ∈ p.body, env.registry.Wrote p p.file n := fun n hn =>
    ⟨p, .inl rfl, rfl, .statement hn⟩
  obtain ⟨o, m₁, haccount, htold, -, hpop⟩ :=
    raised_origin hD (.enterMain ⟨.program, rfl⟩) hbody hrun
  have hsourced : o.machine.Sourced env.registry p := by
    have hsteps := ((dialogue_walks env fuel p).steps h t).2
    have hend : ((p.dialogue env fuel).run h t).2.1 = m₁.pop :=
      (congrArg (fun end_ => end_.2.1) hrun).trans hpop
    rw [hend] at hsteps
    have hlast := (Machine.Steps.sourced hsteps (.start _ p)).before (Machine.Unwound.refl m₁).pop
    exact hlast.before htold.unwound
  refine ⟨fun _ _ _ _ hq => compile_isOwn hq, o, haccount, htold.length, fun i f s hf hs => ?_⟩
  obtain ⟨g, hg, rfl⟩ := htold.frame hf
  obtain ⟨q', hq', hfile', hquote⟩ := hsourced.quote
    (htold.origin.sound.places g (List.mem_of_getElem? hg)) g.line
  cases s with
  | none => exact ⟨q', q', hq', hfile', nofun, hq', hfile', hquote, fun _ => hquote⟩
  | some spot =>
    obtain ⟨q, hq, hfile, hcontains⟩ := (htold.origin.trail.fits hs hg).code
    refine ⟨q, q', hq, hfile, ?_, hq', hfile', hquote, fun hsame => ?_⟩
    · rintro _ ⟨⟩
      exact hcontains
    · rw [← hsame q' hq' hfile']
      exact hquote

namespace Quoting

/-- A module that fails, and the program that imports it. -/
def lib : Program := ⟨"lib.scm", "(raise E)", [.raise 1 "E" none]⟩

def program : Program := ⟨"main.scm", "nil\n (import lib)", [.literal 1 .nil, .load 2 "lib"]⟩

def env : Environment := ⟨⟨[⟨"lib", .script lib⟩]⟩, 9⟩

theorem allStandard_env : env.registry.AllStandard := by
  intro m hm
  rw [List.mem_singleton.mp hm]
  exact .inr (.inr ⟨"lib", lib, rfl⟩)

theorem script_env {name s : String} {q : Program}
    (h : env.registry.get? name = some ⟨s, .script q⟩) : q = lib := by
  have hmem := List.mem_of_find?_eq_some h
  simp only [env, List.mem_singleton, Module.mk.injEq, ModuleSource.script.injEq] at hmem
  exact hmem.2

theorem lib_isOwn : lib.IsOwn := List.forall_mem_singleton.mpr (isOf_leaf _ rfl rfl)

theorem program_isOwn : program.IsOwn :=
  List.forall_mem_cons.mpr ⟨isOf_leaf _ rfl rfl,
    List.forall_mem_singleton.mpr (isOf_leaf _ rfl rfl)⟩

/-- The innermost frame executes the module, and quotes it. -/
theorem quoted_lines_lib : ∃ e m, program.run .obliging env 9 () = (.ended (.raised e), m, ()) ∧
    ∃ f, e.frames.reverse[0]? = some f ∧ f.file = "lib.scm" ∧
      f.sourceLine = some (Text.trim (Text.lineText lib.source 1)) := by
  obtain ⟨-, o, haccount, -, hframes⟩ := quoted_lines .obliging allStandard_env
    (fun _ _ _ hq => script_env hq ▸ lib_isOwn) program_isOwn 9 () rfl
  have htrail : o.trail[0]? = some (some ⟨.raise 1 "E" none, .raise 1 "E" none, []⟩) := by
    cases haccount
    rfl
  obtain ⟨-, q, -, -, -, hq, hfile, hquote, -⟩ := hframes 0 _ _ rfl htrail
  refine ⟨_, _, rfl, _, rfl, rfl, ?_⟩
  rcases hq with rfl | ⟨name, s, hq⟩
  · exact absurd hfile (by decide)
  · cases script_env hq
    exact hquote

/-- A program that imports a module with its own file name, of another source. -/
def twin : Program := ⟨"a.scm", "(let x 1)\n(let y 2)",
  [.bind 1 "x" (.literal 1 (.integer 1)), .bind 2 "y" (.literal 2 (.integer 2))]⟩

def importing : Program := ⟨"a.scm", "(import a)\n(raise E)", [.load 1 "a", .raise 2 "E" none]⟩

/-- The second line of the module is quoted for the second line of the program. -/
theorem module_of_same_file :
    (∃ e m, importing.run .obliging ⟨⟨[⟨"a", .script twin⟩]⟩, 9⟩ 9 () =
      (.ended (.raised e), m, ()) ∧
        e.frames = [⟨"a.scm", 2, "<module>", some "(let y 2)"⟩]) ∧
      (∃ m, ∃ o : Origin, (importing.account ⟨⟨[⟨"a", .script twin⟩]⟩, 9⟩ 9).run .obliging () =
        (.ok (.error (.raise o)), m, ()) ∧
        o.trail = [some ⟨.raise 2 "E" none, .raise 2 "E" none, []⟩]) ∧
      importing.Contains (.raise 2 "E" none) ∧
      Text.trim (Text.lineText importing.source 2) = "(raise E)" :=
  ⟨⟨_, _, rfl, by decide +kernel⟩, ⟨_, _, rfl, rfl⟩, .statement (by simp [importing]),
    by decide +kernel⟩

end Quoting
end Lispbox
