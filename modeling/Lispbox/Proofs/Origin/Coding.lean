import Lispbox.Proofs.Origin.Traceback
import Lispbox.Proofs.Program.Imports
import Lispbox.Proofs.Run.Missing
import Lispbox.Proofs.Session.Standard
import Lispbox.Exception.Explanation
import Lispbox.Session.Attempt

/-!
# The exceptions that code can raise

All the code that a run executes is there when the run begins: that of the program, of the scripts
that can be imported, and of the functions and deferred bodies that native modules may have as
members. So what holds of this code at any depth (`Program.Everywhere`, `Registry.Everywhere`) tells
which modules can be missing, and which names exceptions can have.

* `raised_of_code`: an exception that is not caught is one that the code can raise.
* `imports_complete`: the modules that a run misses are among those collected from the program.
* `raised_explained`: where no code raises exceptions of its own, every exception has a kind, and is
  explained by the text for this kind.
-/
namespace Lispbox

variable {σ : Type} {S : Node → Prop} {E : Exception → Prop} {r : Registry} {p : Program}

/-- The code that is executed when the value is called or awaited. -/
def Value.code : Value → Block
  | .function d _ _ => d.body
  | .deferred _ body _ _ _ => body
  | _ => []

/-- The code of the program is as required, at any depth. -/
def Program.Everywhere (S : Node → Prop) (p : Program) : Prop := ∀ n ∈ p.body, n.Everywhere S

/-- The code of the module is as required, at any depth. -/
def Module.Everywhere (S : Node → Prop) (m : Module) : Prop :=
  match m.source with
  | .native members => ∀ v ∈ Bindings.values members, v.All fun v => ∀ n ∈ v.code, n.Everywhere S
  | .script p => p.Everywhere S

/-- The code of the modules is as required, at any depth. -/
def Registry.Everywhere (S : Node → Prop) (r : Registry) : Prop := ∀ m ∈ r.modules, m.Everywhere S

theorem Registry.Everywhere.get {name : String} {m : Module} (hr : r.Everywhere S)
    (hget : r.get? name = some m) : m.Everywhere S :=
  hr m (List.mem_of_find?_eq_some hget)

theorem Registry.Everywhere.install {m : Module} (hr : r.Everywhere S) (hm : m.Everywhere S) :
    (r.install m).Everywhere S :=
  List.forall_mem_cons.mpr ⟨hm, fun n hn => hr n (List.mem_filter.mp hn).1⟩

/-- Native functions have no code. -/
theorem Module.everywhere_ofNatives (name : String) (natives : List Native) :
    (Module.ofNatives name natives).Everywhere S := by
  intro v hv
  simp only [Bindings.values, List.map_map, List.mem_map, Function.comp_apply] at hv
  obtain ⟨n, -, rfl⟩ := hv
  refine .of (fun c hc => ?_) fun w hw => ?_
  · cases hc
  · cases hw

/-- Standard modules that are native have no code. -/
theorem Registry.AllStandard.everywhere (hr : r.AllStandard)
    (hscripts : ∀ m ∈ r.modules, ∀ p, m.source = .script p → p.Everywhere S) :
    r.Everywhere S := by
  intro m hm
  have hscript := hscripts m hm
  obtain ⟨name, source⟩ := m
  cases source with
  | native members => exact (hr _ hm).all rfl nofun fun _ _ => nofun
  | script p => exact hscript p rfl

/-- The exceptions that code as required raises while these modules are installed. -/
structure Registry.Raises (r : Registry) (S : Node → Prop) (E : Exception → Prop) : Prop where
  cause : ∀ c, (∀ name, c ≠ .noModule name) → E (.ofCause c)
  noModule : ∀ line name, S (.load line name) → r.get? name = none → E (.ofCause (.noModule name))
  raised : ∀ line name message text, S (.raise line name message) → E (.raised name text)
  frames : ∀ e frames, E e → E { e with frames := frames }

namespace Discipline

/-- All code is as required, and the exceptions are. -/
def coding (S : Node → Prop) (E : Exception → Prop) : Discipline where
  value _ v := ∀ n ∈ v.code, n.Everywhere S
  node _ := Node.Everywhere S
  place _ _ _ := True
  exception := E
  asks _ _ := True
  aborts _ := True

theorem coding_lawful {env : Environment} (hE : env.registry.Raises S E)
    (hr : env.registry.Everywhere S) : (coding S E).Lawful env where
  value_mono _ hv := hv
  place_mono _ hp := hp
  value_data {o v} hc := by
    cases v with
    | function d home scope => cases hc
    | deferred serial body locals file scope => cases hc
    | _ => exact fun n hn => nomatch hn
  value_builtin _ := nofun
  value_member hm := hr.get hm
  value_function _ hn := hn.inside
  value_deferred _ hn := hn.inside
  node_parts hn c hc := hn.inside c (Node.mem_inside hc)
  function_body hv := ⟨trivial, hv⟩
  deferred_body hv := ⟨trivial, hv⟩
  script_body hq := ⟨trivial, hr.get hq⟩
  exception_cause := hE.cause _
  exception_noModule hn := hE.noModule _ _ hn.self
  exception_raised hn := hE.raised _ _ _ _ hn.self
  exception_frames := hE.frames _ _
  asks_poll _ := trivial
  asks_line _ _ _ _ := trivial
  asks_native _ _ _ := trivial
  aborts_exhausted := trivial
  runs_supplied h _ _ := runs_probe h (fun _ => trivial) (fun _ => trivial) nofun _ _

end Discipline

open Discipline

/-- An exception that is not caught is one of those that the code raises. -/
theorem raised_of_code {env : Environment} (hE : env.registry.Raises S E)
    (hr : env.registry.Everywhere S) (hp : p.Everywhere S) {h : Host σ} {fuel : Nat} {t t' : σ}
    {e : Exception} {m : Machine} (hrun : p.run h env fuel t = (.ended (.raised e), m, t')) : E e :=
  exception_of_raised (coding_lawful hE hr) (.enterMain trivial) hp hrun

/-! ## Missing modules -/

/-- What holds of the nodes of a node holds of it everywhere. -/
theorem Node.everywhere_of_nodes {n : Node} (h : ∀ c ∈ n.nodes, S c) : n.Everywhere S := by
  induction n using Node.nodes.induct with
  | case1 n ih =>
    rw [nodes_eq] at h
    obtain ⟨hself, hinside⟩ := List.forall_mem_cons.mp h
    exact .of hself fun c hc =>
      ih ⟨c, hc⟩ fun d hd => hinside d (List.mem_flatMap.mpr ⟨c, hc, hd⟩)

theorem Program.everywhere_of_nodes (h : ∀ n ∈ p.nodes, S n) : p.Everywhere S := fun n hn =>
  n.everywhere_of_nodes fun c hc => h c (List.mem_flatMap.mpr ⟨n, hn, hc⟩)

/-- The names of the modules that import forms of the program name, wherever these are: without
repetitions, and in the order in which the program names them first. -/
structure Program.IsCollected (p : Program) (names : List String) : Prop where
  mem : ∀ name, name ∈ names ↔ ∃ n ∈ p.nodes, n.loaded? = some name
  nodup : names.Nodup
  order : names.Pairwise fun a b =>
    (p.nodes.filterMap Node.loaded?).idxOf a < (p.nodes.filterMap Node.loaded?).idxOf b

theorem imports_collected (p : Program) : p.IsCollected p.imports where
  mem name := by
    rw [Program.imports, mem_dedup, p.loads_eq_nodes, List.mem_filterMap]
    simp
  nodup := nodup_dedup _ _
  order := by
    rw [← p.loads_eq_nodes]
    exact dedup_order _ _

/-- All modules are native: their members are there from the start. No member is or holds a function
or a deferred body of a script, so all the code that is executed is that of the program. -/
def Registry.IsNative (r : Registry) : Prop :=
  ∀ m ∈ r.modules, ∃ members, m.source = .native members ∧
    ∀ v ∈ Bindings.values members, v.All fun v => v.code = []

theorem Registry.IsNative.everywhere (hr : r.IsNative) : r.Everywhere S := by
  intro m hm
  obtain ⟨members, hsource, hcode⟩ := hr m hm
  rw [Module.Everywhere, hsource]
  intro v hv
  refine (hcode v hv).mono fun w hw n hn => ?_
  rw [hw] at hn
  cases hn

theorem Registry.isNative_standard : Registry.standard.IsNative := by
  have codeless {m : Module} {name : String} {members : Bindings} (hm : m.IsStandard)
      (h : m = ⟨name, .native members⟩) :
      ∀ v ∈ Bindings.values members, v.All fun v => v.code = [] :=
    hm.all h rfl fun _ _ => rfl
  intro m hm
  rcases allStandard_standard m hm with rfl | rfl | ⟨name, p, rfl⟩
  · exact ⟨_, rfl, codeless (.inl rfl) rfl⟩
  · exact ⟨_, rfl, codeless (.inr (.inl rfl)) rfl⟩
  · simp [Registry.standard, Registry.install, Registry.empty, Module.math, Module.image,
      Module.ofNatives] at hm

/-- A module that cannot be imported is one that the code names, and is not installed. -/
theorem raises_missing (r : Registry) (names : List String) :
    r.Raises (fun n => ∀ name ∈ n.loaded?, name ∈ names) fun e =>
      ∀ name, e.missingModule = some name → name ∈ names ∧ r.get? name = none where
  cause c hc name h := by
    rw [Exception.missingModule_ofCause hc] at h
    cases h
  noModule line name hn hget := by
    rintro _ ⟨⟩
    exact ⟨hn name rfl, hget⟩
  raised line name message text hn x h := by
    rw [raised_unnamed] at h
    cases h
  frames e frames he := he

/-- The modules that are collected from a program are those that it imports anywhere. If all modules
that are installed are native, every module that a run of the program fails for is one of them, and
is not installed. Native functions raise no exception about a missing module here, and neither do
the supplied ones, which are those of `Supply.probe`; one that made up such an exception could name
any module. -/
theorem imports_complete (p : Program) :
    p.IsCollected p.imports ∧
      ∀ (σ : Type) (h : Host σ) (env : Environment) (fuel : Nat) (t t' : σ) (e : Exception)
        (m : Machine), env.registry.IsNative →
        p.run h env fuel t = (.ended (.raised e), m, t') →
        ∀ name, e.missingModule = some name →
          name ∈ p.imports ∧ env.registry.get? name = none := by
  refine ⟨imports_collected p, fun σ h env fuel t t' e m hr hrun => ?_⟩
  have hp : p.Everywhere fun n => ∀ name ∈ n.loaded?, name ∈ p.imports :=
    p.everywhere_of_nodes fun n hn name hname =>
      ((imports_collected p).mem name).mpr ⟨n, hn, hname⟩
  exact raised_of_code (raises_missing env.registry p.imports) hr.everywhere hp hrun

namespace Coding

/-- Modules are imported in a function, in its condition and in its branches. -/
def importing : Program :=
  ⟨"main.scm", "", [.define 1 "f" [] [.branch 2 (.load 2 "math") [.load 3 "a"] [.load 4 "b"]]
    "main.scm" 1, .call 5 (.variable 5 "f") [], .load 6 "a"]⟩

/-- The run fails for a module that the function names, one of the three that are collected. -/
theorem imports_complete_nested : importing.imports = ["math", "a", "b"] ∧ ∃ e m,
    importing.run .obliging ⟨.standard, 9⟩ 9 () = (.ended (.raised e), m, ()) ∧
      e.missingModule = some "b" ∧ "b" ∈ importing.imports ∧
      Registry.standard.get? "b" = none := by
  refine ⟨by decide, _, _, rfl, rfl, ?_⟩
  exact (imports_complete importing).2 Unit .obliging ⟨.standard, 9⟩ 9 () () _ _
    Registry.isNative_standard rfl "b" rfl

end Coding

/-! ## Exceptions of the interpreter -/

/-- The exceptions that the interpreter raises have kinds. -/
theorem raises_kinds (r : Registry) :
    r.Raises (fun n => n.raised? = none) fun e => ∃ k : ExceptionKind, e.name = k.name where
  cause c _ := ⟨c.kind, rfl⟩
  noModule _ _ _ _ := ⟨.moduleNotFound, rfl⟩
  raised _ _ _ _ hn := nomatch hn
  frames _ _ he := he

/-- An exception of a kind is explained by the text for the kind, which is not the one for
exceptions that programs raise. -/
theorem builtinInfo_of_kind {e : Exception} {k : ExceptionKind} (h : e.name = k.name) :
    builtinInfo e = k.info ∧ k.info ≠ e.name ++ " was raised by your program." := by
  refine ⟨?_, ?_⟩
  · rw [builtinInfo, h, ExceptionKind.ofName?_name]
  · rw [h]
    cases k <;> simp [ExceptionKind.info, ExceptionKind.name]

/-- A source without forms that raise exceptions is compiled to code that raises none itself. -/
theorem compile_raiseless {source file : String} {maxDepth : Nat} {fs : List Form}
    (hparse : parse source file maxDepth = .ok fs) (h : compile source file maxDepth = .ok p)
    (hforms : ∀ f ∈ formsWithin fs, ¬f.isHeadedBy "raise") :
    p.Everywhere fun n => n.raised? = none := by
  obtain ⟨fs', hparse', -, -, hbody⟩ := compile_made h
  cases hparse.symm.trans hparse'
  refine fun n hn => (hbody n hn).mono fun c ⟨f, hf, hmade⟩ => ?_
  exact Option.eq_none_iff_forall_not_mem.mpr fun name hname =>
    hforms f hf (hmade.raised name hname).1

/-- Sources without forms that raise exceptions are compiled to code that raises none itself. If
the program and the modules have only such code, every exception that is not caught, and the one
that stands for a failure of the interpreter itself, is of one of the kinds that have a text of
their own, and is explained by this text. -/
theorem raised_explained (h : Host σ) {env : Environment}
    (hr : env.registry.Everywhere fun n => n.raised? = none) {p : Program}
    (hp : p.Everywhere fun n => n.raised? = none) (fuel : Nat) (t : σ) {result : RunEnd}
    {m : Machine} {t' : σ} (hrun : p.run h env fuel t = (result, m, t')) {e : Exception}
    (he : AttemptEnd.ofRun? result = some (.raised e)) :
    (∀ source file maxDepth fs q, parse source file maxDepth = .ok fs →
      compile source file maxDepth = .ok q → (∀ f ∈ formsWithin fs, ¬f.isHeadedBy "raise") →
      q.Everywhere fun n => n.raised? = none) ∧
    ∃ k : ExceptionKind, e.name = k.name ∧ builtinInfo e = k.info ∧
      k.info ≠ e.name ++ " was raised by your program." := by
  refine ⟨fun _ _ _ _ _ => compile_raiseless, ?_⟩
  have hkind : ∃ k : ExceptionKind, e.name = k.name := by
    match result, he with
    | .ended (.raised _), rfl => exact raised_of_code (raises_kinds env.registry) hr hp hrun
    | .ended (.crashed reason), rfl => exact ⟨.systemError, rfl⟩
  obtain ⟨k, hk⟩ := hkind
  exact ⟨k, hk, builtinInfo_of_kind hk⟩

namespace Coding

/-- A script that uses a name that it has not defined. -/
def lib : Program := ⟨"lib.scm", "x", [.variable 1 "x"]⟩

def env : Environment := ⟨(Registry.standard.install ⟨"lib", .script lib⟩).install .probe, 9⟩

def loading : Program := ⟨"main.scm", "(import lib)", [.load 1 "lib"]⟩

/-- The interpreter itself fails in the scope of a handler. -/
def failing : Program :=
  ⟨"main.scm", "", [.load 1 "probe",
    .attempt 2 [.call 2 (.member 2 "probe" "explode") []] [⟨none, none, []⟩]]⟩

theorem env_raiseless : env.registry.Everywhere fun n => n.raised? = none := by
  refine .install (Registry.AllStandard.everywhere ?_ fun m hm p hp => ?_) ?_
  · exact Registry.allStandard_standard.install (.inr (.inr ⟨_, _, rfl⟩))
  · rcases List.mem_cons.mp hm with rfl | hm
    · cases hp
      exact List.forall_mem_singleton.mpr (.of rfl nofun)
    · obtain ⟨_, hsource, -⟩ := Registry.isNative_standard m (List.mem_filter.mp hm).1
      cases hp.symm.trans hsource
  · exact Module.everywhere_ofNatives "probe" [.supplied .emit, .supplied .explode]

/-- There is a text for the exception of the script, and one for the failure. -/
theorem raised_explained_lib :
    (∃ m e, loading.run .obliging env 9 () = (.ended (.raised e), m, ()) ∧
      ∃ k : ExceptionKind, e.name = k.name ∧ builtinInfo e = k.info) ∧
    ∃ reason m, failing.run .obliging env 9 () = (.ended (.crashed reason), m, ()) ∧
      ∃ k : ExceptionKind, "SystemError" = k.name ∧
        builtinInfo (.ofCause (.crash reason)) = k.info := by
  have hloading : loading.Everywhere fun n => n.raised? = none :=
    List.forall_mem_singleton.mpr (.of rfl nofun)
  have hfailing : failing.Everywhere fun n => n.raised? = none :=
    List.forall_mem_cons.mpr ⟨.of rfl nofun, List.forall_mem_singleton.mpr
      (.of rfl (List.forall_mem_singleton.mpr
        (.of rfl (List.forall_mem_singleton.mpr (.of rfl nofun)))))⟩
  obtain ⟨-, k, hk, hinfo, -⟩ := raised_explained .obliging env_raiseless hloading 9 () rfl rfl
  obtain ⟨-, k', hk', hinfo', -⟩ := raised_explained .obliging env_raiseless hfailing 9 () rfl rfl
  exact ⟨⟨_, _, rfl, k, hk, hinfo⟩, _, _, rfl, k', hk', hinfo'⟩

end Coding
end Lispbox
