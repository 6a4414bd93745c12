import Lispbox.Message.Publication
import Lispbox.Proofs.Run.Emissions
import Lispbox.Proofs.Run.Evaluation
import Lispbox.Run.Host
import Lispbox.Session.Run

/-!
# Standard modules

What a supplied function does is not known: it may emit events that have no message, and crash.
Supplied functions are members of modules of their own. Where only the native modules that every
session has and modules of scripts are installed, no run ever gets hold of them, because native
functions only pass on what they are given (`Discipline.standard_lawful`). So everything that such a
run emits is output, which has a message or is not shown, and no native function crashes.

* `dialogue_standard`: the dialogue of a program with standard modules.
-/
namespace Lispbox

/-- A native module that every session has, or the module of a script. -/
def Module.IsStandard (m : Module) : Prop :=
  m = .math ∨ m = .image ∨ ∃ name p, m = ⟨name, .script p⟩

/-- Only standard modules are installed. -/
def Registry.AllStandard (r : Registry) : Prop := ∀ m ∈ r.modules, m.IsStandard

/-- Only standard modules are found. -/
def Resolver.AllStandard (r : Resolver) : Prop :=
  (∀ name m, r.resolve name = .ok m → m.IsStandard) ∧ ∀ names, ∀ m ∈ r.prefetch names, m.IsStandard

/-- Only standard modules are installed, and only such can be. -/
structure Session.AllStandard (s : Session) : Prop where
  registry : s.registry.AllStandard
  resolver : s.setup.resolver.AllStandard

theorem Registry.allStandard_standard : Registry.standard.AllStandard := by
  intro m hm
  simp [Registry.standard, Registry.install, Registry.empty, Module.math, Module.image,
    Module.ofNatives] at hm
  rcases hm with rfl | rfl
  · exact .inr (.inl rfl)
  · exact .inl rfl

theorem Registry.AllStandard.install {r : Registry} {m : Module} (h : r.AllStandard)
    (hm : m.IsStandard) : (r.install m).AllStandard := by
  intro n hn
  rcases List.mem_cons.mp hn with rfl | hn
  · exact hm
  · exact h n (List.mem_filter.mp hn).1

theorem Registry.AllStandard.installAll {r : Registry} {ms : List Module} (h : r.AllStandard)
    (hm : ∀ m ∈ ms, m.IsStandard) : (ms.foldl Registry.install r).AllStandard := by
  induction ms generalizing r with
  | nil => exact h
  | cons m ms ih =>
    exact ih (h.install (hm m (by simp))) fun n hn => hm n (List.mem_cons_of_mem m hn)

theorem Registry.AllStandard.get {r : Registry} {name : String} {m : Module} (h : r.AllStandard)
    (hg : r.get? name = some m) : m.IsStandard :=
  h m (List.mem_of_find?_eq_some hg)

/-! ## What standard programs hold -/

/-- The value is not a supplied function. -/
def Value.IsStandard (v : Value) : Prop := ∀ f, v ≠ .native (.supplied f)

/-- The event is output that has a message or is not shown. -/
def Event.IsStandard (e : Event) : Prop := ∃ o m, e = .output o ∧ Message.ofOutput o = .ok m

/-- What is emitted has a message or is not shown. -/
def Query.IsStandard (q : Query) : Prop := ∀ e, q = .emit e → e.IsStandard

theorem ContentType.isImage_image (format : String) :
    ContentType.isImage (ContentType.image format) = true := by
  unfold ContentType.isImage ContentType.image
  rw [Bool.and_eq_true, String.startsWith_string_iff, ← String.endsWith_toSlice,
    String.Slice.endsWith_string_iff]
  simp only [String.copy_toSlice, String.toList_append]
  constructor
  · exact ⟨format.toList ++ ";base64".toList, by simp⟩
  · exact ⟨"img/".toList ++ format.toList, by simp⟩

/-- Whatever is emitted by a function that is not supplied has a message. -/
theorem Native.Puts.isStandard {n : Native} {q : Query} (h : n.Puts q)
    (hn : ∀ f, n ≠ .supplied f) : q.IsStandard := by
  intro e he
  cases h with
  | print text => cases he; exact ⟨_, _, rfl, rfl⟩
  | prompt text => cases he; exact ⟨_, _, rfl, rfl⟩
  | input prompt => cases he
  | echo line => cases he; exact ⟨_, _, rfl, rfl⟩
  | sleep duration => cases he
  | readFile name => cases he
  | showImage format data =>
    cases he
    refine ⟨_, some ⟨.output, .text data, ContentType.image format⟩, rfl, ?_⟩
    simp only [Message.ofOutput, ContentType.isImage_image, if_true]
  | supplied f o => exact absurd rfl (hn f)

/-- A standard module that is native has functions that are not supplied as its members, and a
number. -/
theorem Module.IsStandard.all {P : Value → Prop} {s : String} {members : Bindings} {m : Module}
    (hm : m.IsStandard) (h : m = ⟨s, .native members⟩) (hfloat : P (.float pi))
    (hnative : ∀ n, (∀ f, n ≠ .supplied f) → P (.native n)) : ∀ v ∈ members.values, v.All P := by
  intro v hv
  have alone {v : Value} (hs : P v) (hp : v.parts = []) : v.All P := .of hs (by simp [hp])
  have function {n : Native} (hn : ∀ f, n ≠ .supplied f) : (Value.native n).All P :=
    alone (hnative n hn) rfl
  rcases hm with rfl | rfl | ⟨n, p, rfl⟩
  · cases h
    simp only [Bindings.values, List.map_cons, List.map_nil, List.mem_cons, List.not_mem_nil,
      or_false] at hv
    rcases hv with rfl | rfl | rfl | rfl | rfl
    · exact function fun f h => by cases h
    · exact function fun f h => by cases h
    · exact alone hfloat rfl
    · exact function fun f h => by cases h
    · exact function fun f h => by cases h
  · cases h
    simp only [Bindings.values, List.map_cons, List.map_nil, List.mem_cons, List.not_mem_nil,
      or_false] at hv
    subst hv
    exact function fun f h => by cases h
  · cases h

namespace Discipline

/-- What runs with standard modules hold, report and break off for. -/
def standard : Discipline where
  value _ v := v.IsStandard
  node _ _ := True
  place _ _ _ := True
  exception _ := True
  asks _ q := q.IsStandard
  aborts a := a = .exhausted

theorem standard_lawful [Supply] {env : Environment} (h : env.registry.AllStandard) :
    standard.Lawful env where
  value_mono _ hv := hv
  place_mono _ hp := hp
  value_data hc := by
    rintro f rfl
    cases hc
  value_builtin hn := by
    rintro f ⟨⟩
    simp [Native.builtins] at hn
  value_member hr := (h.get hr).all rfl nofun fun n hn f e => hn f (Value.native.inj e)
  value_function _ _ := nofun
  value_deferred _ _ := nofun
  node_parts _ _ _ := trivial
  function_body _ := ⟨trivial, fun _ _ => trivial⟩
  deferred_body _ := ⟨trivial, fun _ _ => trivial⟩
  script_body _ := ⟨trivial, fun _ _ => trivial⟩
  exception_cause _ := trivial
  exception_noModule _ _ := trivial
  exception_raised _ := trivial
  exception_frames _ := trivial
  asks_poll _ := nofun
  asks_line _ _ _ _ := nofun
  asks_native _ hn hq := hq.isStandard fun f e => hn f (by rw [e])
  aborts_exhausted := rfl
  runs_supplied _ hf _ := absurd rfl (hf _)

end Discipline

theorem Dialogue.Every.emits {ρ : Type} {E : Event → Prop} {d : Dialogue ρ}
    {asks : Machine → Query → Prop} {aborts : Abort → Prop}
    {ends : Option Stopped → ρ → Machine → Prop} {g : Option Stopped}
    (hd : d.Every asks aborts ends g) (h : ∀ m q, asks m q → ∀ e, q = .emit e → E e) :
    d.Emits E := by
  induction d generalizing g with
  | done r m => trivial
  | abort a m => trivial
  | ask m q resume ih =>
    obtain ⟨-, hq, hok, hstop⟩ := hd
    refine ⟨h m q hq, fun a => ?_⟩
    cases a with
    | ok a => exact ih _ (hok a)
    | error sig => exact ih _ (hstop sig)

/-- With standard modules everything that is emitted has a message or is not shown. -/
theorem dialogue_standard [Supply] {env : Environment} (h : env.registry.AllStandard) (fuel : Nat)
    (p : Program) : (p.dialogue env fuel).Emits Event.IsStandard :=
  (Discipline.runs_runProgram (Discipline.standard_lawful h) (Discipline.Sound.start trivial)
    trivial (fun _ _ => trivial) fuel).emits fun _ _ hq => hq

end Lispbox
