import Lispbox.Proofs.Program.Code
import Lispbox.Proofs.Run.Confinement
import Lispbox.Proofs.Run.Signals
import Lispbox.Proofs.Session.Standard

/-!
# Isolation of modules

Every namespace belongs to one file: that of the main program, or that of the module whose import
created it. Whatever can be executed carries the number of a namespace and the name of a file, and
the file is the owner of the namespace (`Value.Belongs`): of a frame, of a function and of a
deferred value, wherever they are stored (`Machine.Isolated`). The values come to other files as
arguments, as members of modules and as locals of deferred bodies, but they stay what they are.

So what is written in a file is executed in frames of this file, and changes no globals but those of
the file. As long as no code of a file is executed, its globals are left alone (`Script.Spares`): by
the main program, by modules, by callbacks and by deferred bodies alike.

* `isolation_lawful`: programs and modules whose code is of their own files run in isolation.
* `Steps.extends`: namespaces keep their owners, and new ones belong to modules.
* `InPlace.confined`: what code of a file does to the globals of another one.
* `modules_isolated`: all of it, for the states of a run.
-/
namespace Lispbox
open Script

/-! ## Owners -/

/-- The namespace belongs to the file. -/
def OwnedBy (owners : List (Home × String)) (file : String) (scope : Nat) : Prop :=
  ∃ home, owners[scope]? = some (home, file)

theorem OwnedBy.mono {o o' : List (Home × String)} {file : String} {scope : Nat}
    (h : OwnedBy o file scope) (ho : o <+: o') : OwnedBy o' file scope := by
  obtain ⟨home, hhome⟩ := h
  obtain ⟨rest, rfl⟩ := ho
  exact ⟨home, (List.getElem?_append_left (List.getElem?_eq_some_iff.mp hhome).1).trans hhome⟩

/-- A namespace has one owner. -/
theorem OwnedBy.unique {o : List (Home × String)} {file file' : String} {scope : Nat}
    (h : OwnedBy o file scope) (h' : OwnedBy o file' scope) : file = file' := by
  obtain ⟨home, hhome⟩ := h
  obtain ⟨home', hhome'⟩ := h'
  rw [hhome] at hhome'
  exact congrArg Prod.snd (Option.some.inj hhome')

theorem Machine.ownedBy_namespace {m : Machine} {i : Nat} {n : Namespace}
    (hn : m.namespaces[i]? = some n) : OwnedBy m.owners n.file i :=
  ⟨n.home, by simp [owners, hn]⟩

/-- The module of a script. -/
def Registry.Offers (r : Registry) (owner : Home × String) : Prop :=
  ∃ name s q, r.get? name = some ⟨s, .script q⟩ ∧ owner = (.module name, q.file)

namespace Machine

variable {env : Environment} {m m' m'' : Machine}

/-- Namespaces keep their owners, and those that are new belong to modules. -/
structure Extends (r : Registry) (m m' : Machine) : Prop where
  kept : m.owners <+: m'.owners
  new : ∀ o ∈ m'.owners, o ∈ m.owners ∨ r.Offers o

theorem Extends.of_eq {r : Registry} (h : m'.owners = m.owners) : m.Extends r m' :=
  ⟨h ▸ List.prefix_refl _, fun _ ho => .inl (h ▸ ho)⟩

theorem Extends.trans {r : Registry} (h : m.Extends r m') (h' : m'.Extends r m'') :
    m.Extends r m'' where
  kept := h.kept.trans h'.kept
  new o ho := (h'.new o ho).elim (h.new o) .inr

theorem Extends.openModule {r : Registry} {name s : String} {p : Program}
    (hr : r.get? name = some ⟨s, .script p⟩) : m.Extends r (m.openModule name p) where
  kept := (untouched_openModule m name p).owners
  new o ho := by
    have howners : (m.openModule name p).owners = m.owners ++ [(.module name, p.file)] := by
      simp [owners, Machine.openModule]
    rw [howners, List.mem_append, List.mem_singleton] at ho
    exact ho.imp_right fun h => ⟨name, s, p, hr, h⟩

theorem Binds.owners {name : String} {v : Value} (h : m.Binds name v m') :
    m'.owners = m.owners := by
  cases h with
  | nowhere => rfl
  | inLocals => rfl
  | inGlobals scope => exact owners_setGlobal m scope name v

theorem Alters.owners (h : m.Alters m') : m'.owners = m.owners := by
  cases h with
  | nothing => rfl
  | moved => rfl
  | global hf name v => exact owners_setGlobal m _ name v

theorem Step.extends (h : m.Step env m') : m.Extends env.registry m' := by
  cases h with
  | setLine line => exact .of_eq (m.alters_setLine line).owners
  | reportFrom line => exact .of_eq (m.alters_reportFrom line).owners
  | bind hb => exact .of_eq hb.owners
  | refuseModule hnew hr => exact .trans (.openModule hr) (.of_eq rfl)
  | enterModule hnew hr => exact .trans (.openModule hr) (.of_eq rfl)
  | advance | refuse | push | pop | native | finishModule => exact .of_eq rfl

theorem Steps.extends (h : m.Steps env m') : m.Extends env.registry m' := by
  induction h with
  | refl => exact .of_eq rfl
  | tail _ hs ih => exact ih.trans hs.extends

end Machine

/-! ## Isolated states -/

/-- A value that can be executed belongs to the file that owns its namespace, with all its code. -/
def Value.Belongs (owners : List (Home × String)) : Value → Prop
  | .function d _ scope => OwnedBy owners d.file scope ∧ ∀ n ∈ d.body, n.IsOf d.file
  | .deferred _ body _ file scope => OwnedBy owners file scope ∧ ∀ n ∈ body, n.IsOf file
  | _ => True

/-- The frames belong to the files that own their namespaces, and so do the values that are bound
anywhere, with all their parts. -/
structure Machine.Isolated (m : Machine) : Prop where
  frames : ∀ f ∈ m.frames, OwnedBy m.owners f.file f.scope
  values : ∀ v, m.Stores v → v.All (Value.Belongs m.owners)

/-- The state is isolated, and code of a file is executed in a namespace of the file. -/
structure Machine.InPlace (m : Machine) : Prop where
  isolated : m.Isolated
  here : OwnedBy m.owners m.file m.scope

/-- The modules that are scripts are code of their files. -/
def Registry.IsOwn (r : Registry) : Prop :=
  ∀ name s q, r.get? name = some ⟨s, .script q⟩ → q.IsOwn

namespace Discipline

/-- What belongs to a file stays with it. -/
def isolation : Discipline where
  value := Value.Belongs
  node := Node.IsOf
  place := OwnedBy
  exception _ := True
  asks m _ := m.InPlace
  aborts _ := True

theorem Sound.inPlace {m : Machine} (h : isolation.Sound m) : m.InPlace :=
  ⟨⟨h.places, h.stored⟩, h.here⟩

theorem isolation_sound {m : Machine} (h : m.InPlace) : isolation.Sound m :=
  ⟨h.isolated.values, h.isolated.frames, h.here⟩

theorem isolation_lawful {env : Environment} (hr : env.registry.AllStandard)
    (hown : env.registry.IsOwn) : isolation.Lawful env where
  value_mono {o o' v} ho hv := by
    cases v with
    | function d home scope => exact ⟨hv.1.mono ho, hv.2⟩
    | deferred serial body locals file scope => exact ⟨hv.1.mono ho, hv.2⟩
    | _ => trivial
  place_mono ho hp := hp.mono ho
  value_data {o v} hc := by
    cases v with
    | function d home scope => cases hc
    | deferred serial body locals file scope => cases hc
    | _ => trivial
  value_builtin _ := trivial
  value_member hm := (hr.get hm).all rfl trivial fun _ _ => trivial
  value_function hp hn := by
    -- the definition names the file that it is of
    cases hn.self _ rfl
    exact ⟨hp, hn.inside⟩
  value_deferred hp hn := ⟨hp, hn.inside⟩
  node_parts hn c hc := hn.inside c (Node.mem_inside hc)
  function_body hv := hv
  deferred_body hv := hv
  script_body {o name s q} hq := ⟨⟨.module name, by simp⟩, hown name s q hq⟩
  exception_cause _ := trivial
  exception_noModule _ _ := trivial
  exception_raised _ := trivial
  exception_frames _ := trivial
  asks_poll h := h.inPlace
  asks_line h _ _ _ := h.inPlace
  asks_native h _ _ := h.inPlace
  aborts_exhausted := trivial
  runs_supplied h _ _ := runs_probe h (fun _ => h.inPlace) (fun _ => trivial) trivial _ _

end Discipline

namespace Machine

variable {m m' : Machine} {file : String}

theorem Isolated.unwound (h : m.Isolated) (hu : m.Unwound m') : m'.Isolated := by
  have howners : m'.owners = m.owners := by
    rw [hu.store]
    rfl
  refine ⟨fun f hf => howners ▸ h.frames f (hu.frames.subset hf), fun v hv => ?_⟩
  rw [howners]
  refine h.values v ?_
  rw [hu.store] at hv
  exact hv.imp_right fun hv => hv.imp_left fun ⟨f, hf, hw⟩ => ⟨f, hu.frames.subset hf, hw⟩

/-- The namespaces of the file are as they were. -/
def SameGlobals (file : String) (m m' : Machine) : Prop :=
  ∀ (i : Nat) (n : Namespace), m.namespaces[i]? = some n → n.file = file →
    m'.namespaces[i]? = some n

/-- What is bound for a file changes the globals of no other. -/
theorem Alters.sameGlobals (h : m.Alters m') (hm : m.InPlace) (hfile : m.file ≠ file) :
    m.SameGlobals file m' := by
  intro i n hn howner
  subst howner
  have hscope : m.scope ≠ i := by
    rintro rfl
    exact hfile (hm.here.unique (ownedBy_namespace hn))
  exact (h.namespace (elsewhere_of_scope hscope)).trans hn

end Machine

section

variable {env : Environment} {m m' : Machine} {σ α : Type} {file : String}

/-- If no code of the file is executed meanwhile, its globals are the same after the script. -/
def Script.Spares (h : Host σ) (t : σ) (file : String) (m : Machine) (s : Script α) : Prop :=
  (∀ x ∈ (s m).exchanges h t, x.machine.file ≠ file) →
    m.SameGlobals file ((s m).run h t).2.1

/-- The globals of a file are safe from a script that runs in isolation, if it does not work in a
frame of that file. -/
theorem spares_of_runs {s : Script α} {k : Nat} {K : Machine → Prop} {Q : Machine → α → Prop}
    (hs : Discipline.isolation.Runs s K Q m) (hw : Script.Walks env m s)
    (hk : ∀ i n, (Watch.globals i n).Keeps k s) (hm : m.InPlace) (hfile : 0 < k → m.file ≠ file)
    (h : Host σ) (t : σ) : s.Spares h t file m := by
  intro hquiet i n hn howner
  subst howner
  have howned := Machine.ownedBy_namespace hn
  refine globals_unchanged (hk i n) hn (fun hpos => Machine.elsewhere_of_scope ?_) h t
    fun x hx => ?_
  · rintro rfl
    exact hfile hpos (hm.here.unique howned)
  · rintro rfl
    -- the namespace still has its owner when the question is asked
    have hext := ((Dialogue.Walks.steps hw h t).1 x hx).extends
    have hasked := (Dialogue.every_asked hs h t x hx).here
    exact hquiet x hx (hasked.unique (howned.mono hext.kept))

/-- What is evaluated in place ends in place, whatever it ends with. -/
theorem inPlace_of_runs {s : Script α} {Q : Machine → α → Prop}
    (hs : Discipline.isolation.Runs s m.Kept Q m) (hm : m.InPlace) {h : Host σ} {t t' : σ}
    {r : Except Exit α} (hr : (s m).run h t = (.ok r, m', t')) :
    m'.InPlace ∧ m'.file = m.file := by
  have hend := Dialogue.every_run (Dialogue.Every.signalled hs fun _ h => by cases h) h t
  rw [hr] at hend
  obtain ⟨g, hg, hasked⟩ := hend
  have hk := hg.state
  refine ⟨⟨?_, ?_⟩, hk.code.1⟩
  · match g, r, hg with
    | none, .ok _, hg => exact hg.2.1.inPlace.isolated
    | none, .error (.raise _), hg => exact hg.2.1.inPlace.isolated
    | none, .error (.leave _), hg => exact hg.2.1.inPlace.isolated
    | some st, .error (.stop _), hg =>
      obtain ⟨q, hst⟩ := hasked st rfl
      exact hst.isolated.unwound hg.2.2
  · rw [hk.code.1, hk.code.2]
    exact hm.here.mono hk.owners

end

/-! ## Runs -/

namespace Discipline

variable {D : Discipline} {env : Environment} {p : Program}

/-- Nothing is bound when the main program begins. -/
theorem Sound.enterMain (hp : D.place (Machine.start p).owners p.file 0) :
    D.Sound (.enterMain p) where
  stored v hv := by
    simp [Machine.Stores, Machine.enterMain, Machine.push, Machine.start, Bindings.values,
      Frame.values] at hv
  places f hf := by
    rw [List.mem_singleton.mp hf]
    exact hp
  here := hp

/-- What is executed in the frame of the main program. -/
theorem runs_main (hD : D.Lawful env) (h : D.Sound (.enterMain p))
    (hp : ∀ n ∈ p.body, D.node p.file n) (fuel : Nat) :
    D.Runs (p.main env fuel) (Machine.enterMain p).Kept D.Valid (.enterMain p) := by
  have hev := eval_evaluates hD fuel
  refine runs_bind (runs_untilLeft (runs_body hD hev h hp)) fun m₁ v hk₁ h₁ hv => .from hk₁ ?_
  exact (runs_settle hD hev h₁ hv fuel).kept

/-- What a program asks. -/
theorem asks_of_main {σ : Type} (hD : D.Lawful env) (h : D.Sound (.enterMain p))
    (hp : ∀ n ∈ p.body, D.node p.file n) (fuel : Nat) (host : Host σ) (t : σ) :
    ∀ x ∈ (p.dialogue env fuel).exchanges host t, D.asks x.machine x.query := by
  rw [dialogue_main]
  have hevery : ((p.main env fuel (.enterMain p)).bind fun r m => .done r m.pop).Every D.asks
      D.aborts (fun _ _ _ => True) none :=
    Dialogue.every_bind.mpr (Dialogue.Every.mono (fun _ _ _ _ => trivial) (runs_main hD h hp fuel))
  exact Dialogue.every_asked hevery host t

end Discipline

theorem Machine.inPlace_enterMain (p : Program) : (Machine.enterMain p).InPlace :=
  (Discipline.Sound.enterMain (D := Discipline.isolation) ⟨.program, rfl⟩).inPlace

/-- The states of a run in isolation. -/
theorem run_inPlace {σ : Type} (h : Host σ) {env : Environment} (hr : env.registry.AllStandard)
    (hown : env.registry.IsOwn) {p : Program} (hp : p.IsOwn) (fuel : Nat) (t : σ) :
    (∀ x ∈ (p.dialogue env fuel).exchanges h t, x.machine.InPlace) ∧
      ∀ r m t', (p.dialogue env fuel).run h t = (.ok r, m, t') → m.Isolated := by
  have hstart := Machine.inPlace_enterMain p
  have hD := Discipline.isolation_lawful hr hown
  have hsound := Discipline.isolation_sound hstart
  refine ⟨Discipline.asks_of_main hD hsound hp fuel h t, ?_⟩
  · intro r m t' hrun
    have hmain := Discipline.runs_main hD hsound hp fuel
    rw [dialogue_main, Dialogue.run_bind] at hrun
    split at hrun
    · next r₁ m₁ t₁ hbody =>
      cases hrun
      exact (inPlace_of_runs hmain hstart hbody).1.isolated.unwound (Machine.Unwound.refl m₁).pop
    · cases hrun

/-- The states of a run and the owners of their namespaces. -/
theorem run_extends {σ : Type} (h : Host σ) (env : Environment) (p : Program) (fuel : Nat) (t : σ) :
    (∀ x ∈ (p.dialogue env fuel).exchanges h t,
      (Machine.start p).Extends env.registry x.machine) ∧
    (Machine.start p).Extends env.registry ((p.dialogue env fuel).run h t).2.1 ∧
    ∀ before x after, (p.dialogue env fuel).exchanges h t = before ++ x :: after →
      (∀ y ∈ after, x.machine.Extends env.registry y.machine) ∧
        x.machine.Extends env.registry ((p.dialogue env fuel).run h t).2.1 := by
  have hw := dialogue_walks env fuel p
  refine ⟨fun x hx => ((hw.steps h t).1 x hx).extends, (hw.steps h t).2.extends,
    fun before x after hx => ?_⟩
  obtain ⟨-, hlater, hend⟩ := hw.later h t hx
  exact ⟨fun y hy => (hlater y hy).extends, hend.extends⟩

/-- The globals of the main program are those of its file. -/
theorem Machine.Extends.globals {r : Registry} {p : Program} {m m' : Machine}
    (h : (Machine.start p).Extends r m) (hsame : m.SameGlobals p.file m') :
    m'.globals = m.globals := by
  obtain ⟨rest, hrest⟩ := h.kept
  obtain ⟨n, ns, hns⟩ : ∃ n ns, m.namespaces = n :: ns := by
    cases hm : m.namespaces with
    | nil => simp [owners, start, hm] at hrest
    | cons n ns => exact ⟨n, ns, rfl⟩
  have hfile : n.file = p.file := by
    simp only [owners, start, hns, List.map_cons, List.map_nil, List.cons_append, List.cons.injEq,
      Prod.mk.injEq] at hrest
    exact hrest.1.2.symm
  have hn := hsame 0 n (by rw [hns]; rfl) hfile
  unfold Machine.globals
  rw [hns]
  cases hm' : m'.namespaces with
  | nil => rw [hm'] at hn; cases hn
  | cons n' ns' =>
    rw [hm'] at hn
    cases hn
    rfl

/-- No two of the programs that a run may execute are of one file. -/
structure Registry.FilesDistinct (r : Registry) (p : Program) : Prop where
  main : ∀ name s q, r.get? name = some ⟨s, .script q⟩ → q.file ≠ p.file
  modules : ∀ name name' s s' q q', r.get? name = some ⟨s, .script q⟩ →
    r.get? name' = some ⟨s', .script q'⟩ → q.file = q'.file → name = name'

/-- The file of a namespace tells whose it is. -/
theorem Machine.Extends.owner_eq {r : Registry} {p : Program} {m : Machine}
    (h : (Machine.start p).Extends r m) (hd : r.FilesDistinct p) {o o' : Home × String}
    (ho : o ∈ m.owners) (ho' : o' ∈ m.owners) (hfile : o.2 = o'.2) : o = o' := by
  have whose {o : Home × String} (ho : o ∈ m.owners) : o = (.program, p.file) ∨ r.Offers o :=
    (h.new o ho).imp_left fun h => by simpa [owners, start] using h
  rcases whose ho with rfl | ⟨name, s, q, hq, rfl⟩ <;>
    rcases whose ho' with rfl | ⟨name', s', q', hq', rfl⟩
  · rfl
  · exact absurd hfile.symm (hd.main name' s' q' hq')
  · exact absurd hfile (hd.main name s q hq)
  · cases hd.modules name name' s s' q q' hq hq' hfile
    exact congrArg _ hfile

/-- What is executed in the state, for the file of its innermost frame, leaves alone the globals of
another file: what a name is bound or assigned to, and the statements of a block, as long as they do
not make code of that file run. The same holds, with any innermost frame, for a function that is
called, a deferred body that is awaited and a module that is imported. -/
structure Machine.Confined {σ : Type} (h : Host σ) (env : Environment) (fuel : Nat) (t : σ)
    (m : Machine) (file : String) : Prop where
  bound : m.file ≠ file → ∀ name v, m.SameGlobals file (m.bind name v)
  assigned : m.file ≠ file → ∀ name v m', m.assign? name v = some m' → m.SameGlobals file m'
  executed : m.file ≠ file → ∀ ns, (∀ n ∈ ns, n.IsOf m.file) →
    (runBlock (eval env fuel) .nil ns).Spares h t file m
  called : ∀ callee args, callee.All (Value.Belongs m.owners) →
    (∀ v ∈ args, v.All (Value.Belongs m.owners)) →
    (callValue env (eval env fuel) callee args).Spares h t file m
  awaited : ∀ rounds v, v.All (Value.Belongs m.owners) →
    (settle env (eval env fuel) rounds v).Spares h t file m
  imported : ∀ name, (load env (eval env fuel) name).Spares h t file m

theorem Machine.InPlace.confined {σ : Type} {m : Machine} (hm : m.InPlace) (h : Host σ)
    {env : Environment} (hr : env.registry.AllStandard) (hown : env.registry.IsOwn) (fuel : Nat)
    (t : σ) (file : String) : m.Confined h env fuel t file := by
  have hD := Discipline.isolation_lawful hr hown
  have hev := Discipline.eval_evaluates hD fuel
  have hs := Discipline.isolation_sound hm
  have hw := eval_walks env fuel
  let C (i : Nat) (n : Namespace) := Watch.congruence (Watch.globals_lawful env i n)
  -- what begins in a frame of its own may be called from any frame
  have called {s : Script Value} {Q : Machine → Value → Prop}
      (hs : Discipline.isolation.Runs s m.Untouched Q m) (hw : Script.Walks env m s)
      (hk : ∀ i n, (Watch.globals i n).Keeps 0 s) : s.Spares h t file m :=
    spares_of_runs hs hw hk hm (fun hpos => absurd hpos (Nat.lt_irrefl 0)) h t
  constructor
  case bound => exact fun hfile name v => (m.alters_bind name v).sameGlobals hm hfile
  case assigned => exact fun hfile name v m' ha => (Machine.alters_assign ha).sameGlobals hm hfile
  case executed =>
    intro hfile ns hns
    have hk (i : Nat) (n : Namespace) :
        (Watch.globals i n).Keeps 1 (runBlock (eval env fuel) .nil ns) :=
      (C i n).of_runBlock ((C i n).eval fuel) .nil ns
    exact spares_of_runs (Discipline.runs_body hD hev hs hns) (walks_runBlock hw .nil ns) hk hm
      (fun _ => hfile) h t
  case called =>
    intro callee args hc hargs
    exact called (Discipline.runs_callValue hD hev hs hc hargs) (walks_callValue hw callee args)
      fun i n => (C i n).of_callValue ((C i n).eval fuel) callee args
  case awaited =>
    intro rounds v hv
    exact called (Discipline.runs_settle hD hev hs hv rounds) (walks_settle hw rounds v)
      fun i n => (C i n).of_settle ((C i n).eval fuel) rounds v
  case imported =>
    intro name
    exact called (Discipline.runs_load hD hev hs 0 (isOf_leaf m.file rfl rfl)) (walks_load hw name)
      fun i n => (C i n).of_load ((C i n).eval fuel) name

/-- Modules are isolated from each other and from the main program, if there are only standard
modules and scripts. Compiled programs are code of their files, and what is executed for them stays
in place: whenever the host is asked, every frame and every function and deferred value that is
stored anywhere is of the file that owns its namespace. The owner of a namespace is the main program
or a module that the run has imported; it never changes, and with distinct files it is told by the
file.

From a state like this code of a file only ever changes the globals of the file, and it leads to
such a state again. As long as no code of some other file is executed, in between, the globals of
that file stay as they are, which are those of the main program if it is its file. -/
theorem modules_isolated {σ : Type} (h : Host σ) {env : Environment}
    (hr : env.registry.AllStandard) (hown : env.registry.IsOwn) {p : Program} (hp : p.IsOwn)
    (fuel : Nat) (t : σ) :
    (∀ source file depth q, compile source file depth = .ok q → q.IsOwn) ∧
    (∀ x ∈ (p.dialogue env fuel).exchanges h t,
      x.machine.InPlace ∧ (Machine.start p).Extends env.registry x.machine ∧
      (env.registry.FilesDistinct p →
        ∀ o ∈ x.machine.owners, ∀ o' ∈ x.machine.owners, o.2 = o'.2 → o = o') ∧
      ∀ m', x.machine.SameGlobals p.file m' → m'.globals = x.machine.globals) ∧
    (∀ r m t', (p.dialogue env fuel).run h t = (.ok r, m, t') →
      m.Isolated ∧ (Machine.start p).Extends env.registry m) ∧
    (∀ before x after, (p.dialogue env fuel).exchanges h t = before ++ x :: after →
      (∀ y ∈ after, x.machine.Extends env.registry y.machine) ∧
        x.machine.Extends env.registry ((p.dialogue env fuel).run h t).2.1) ∧
    ∀ m : Machine, m.InPlace →
      (∀ n r m' t', n.IsOf m.file → (eval env fuel n m).run h t = (.ok r, m', t') →
        m'.InPlace ∧ m'.file = m.file) ∧
      ∀ file, m.Confined h env fuel t file := by
  obtain ⟨hplaces, hend⟩ := run_inPlace h hr hown hp fuel t
  obtain ⟨hstates, hfinal, hlater⟩ := run_extends h env p fuel t
  refine ⟨fun _ _ _ _ hq => (compile_isOwn hq).2, fun x hx => ⟨hplaces x hx, hstates x hx, ?_, ?_⟩,
    fun r m t' hrun => ⟨hend r m t' hrun, ?_⟩, hlater,
    fun m hm => ⟨fun n r m' t' hn hrun => ?_, hm.confined h hr hown fuel t⟩⟩
  · exact fun hd o ho o' ho' => (hstates x hx).owner_eq hd ho ho'
  · exact fun m' => (hstates x hx).globals
  · rw [hrun] at hfinal
    exact hfinal
  · have hev := Discipline.eval_evaluates (Discipline.isolation_lawful hr hown) fuel
    exact inPlace_of_runs (hev n m (Discipline.isolation_sound hm) hn) hm hrun

namespace Isolation

/-- Binds `x`, as the program does that imports it. -/
def lib : Program := ⟨"lib", "", [.bind 1 "x" (.literal 1 .nil)]⟩

def program : Program := ⟨"main", "", [.bind 1 "x" (.literal 1 (.bool true)), .load 2 "lib"]⟩

def env : Environment := ⟨⟨[⟨"lib", .script lib⟩]⟩, 9⟩

/-- What is asked in the run. -/
def asked : List Exchange := (program.dialogue env 9).exchanges Host.obliging ()

theorem script_lib {name s : String} {q : Program}
    (h : env.registry.get? name = some ⟨s, .script q⟩) : name = "lib" ∧ q = lib := by
  have hmem := List.mem_of_find?_eq_some h
  have hname := List.find?_some h
  simp only [env, List.mem_singleton, Module.mk.injEq, ModuleSource.script.injEq] at hmem
  simp only [hmem.1, beq_iff_eq] at hname
  exact ⟨hname.symm, hmem.2⟩

theorem allStandard_env : env.registry.AllStandard := by
  intro m hm
  rw [List.mem_singleton.mp hm]
  exact .inr (.inr ⟨"lib", lib, rfl⟩)

theorem bind_isOf (file name : String) (line : Nat) (l : Literal) :
    (Node.bind line name (.literal line l)).IsOf file :=
  .plain rfl (List.forall_mem_singleton.mpr (isOf_leaf file rfl rfl))

theorem lib_isOwn : lib.IsOwn := List.forall_mem_singleton.mpr (bind_isOf _ _ _ _)

theorem program_isOwn : program.IsOwn :=
  List.forall_mem_cons.mpr ⟨bind_isOf _ _ _ _,
    List.forall_mem_singleton.mpr (isOf_leaf _ rfl rfl)⟩

theorem filesDistinct_env : env.registry.FilesDistinct program where
  main name s q hq := by
    rw [(script_lib hq).2]
    decide
  modules name name' s s' q q' hq hq' _ := (script_lib hq).1.trans (script_lib hq').1.symm

/-- The body of the module is executed. -/
def inLib : Machine where
  namespaces := [⟨.program, "main", [("x", .bool true)]⟩, ⟨.module "lib", "lib", []⟩]
  frames := [⟨"<module>", "lib", 1, some 1, none, 1⟩, ⟨"<module>", "main", 2, some 2, none, 0⟩]
  loaded := []
  sources := [("lib", ""), ("main", "")]
  serial := 0
  refusals := 0

/-- The module binds its own `x`, and the one of the program stays what it is. -/
theorem modules_isolated_lib : ∃ x ∈ asked, x.machine = inLib ∧ inLib.InPlace ∧
    (∀ o ∈ inLib.owners, ∀ o' ∈ inLib.owners, o.2 = o'.2 → o = o') ∧
    ∃ m', (runBlock (eval env 9) .nil lib.body inLib).run .obliging () = (.ok (.ok .nil), m', ()) ∧
      m'.namespaces.map (·.bindings.map Prod.fst) = [["x"], ["x"]] ∧
      m'.globals = inLib.globals := by
  obtain ⟨-, hstates, -, -, hplace⟩ := modules_isolated .obliging allStandard_env
    (fun _ _ _ hq => by rw [(script_lib hq).2]; exact lib_isOwn) program_isOwn 9 ()
  have hx : (⟨inLib, .line "lib" 1, .ok ()⟩ : Exchange) ∈ asked := by
    have hasked : ∃ before after, asked = before ++ ⟨inLib, .line "lib" 1, .ok ()⟩ :: after :=
      ⟨[_, _, _, _, _], _, rfl⟩
    obtain ⟨before, after, hasked⟩ := hasked
    simp [hasked]
  obtain ⟨hin, -, howners, hglobals⟩ := hstates _ hx
  have hsame := ((hplace inLib hin).2 "main").executed (by decide) lib.body lib_isOwn (by decide)
  exact ⟨_, hx, rfl, hin, howners filesDistinct_env, _, rfl, by decide, hglobals _ hsame⟩

end Isolation
end Lispbox
