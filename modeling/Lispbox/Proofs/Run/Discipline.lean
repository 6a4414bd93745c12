import Lispbox.Proofs.Dialogue.Every
import Lispbox.Proofs.Machine.Frames
import Lispbox.Proofs.Machine.Stored
import Lispbox.Proofs.Native.Results

/-!
# Disciplines of a run

A `Discipline` says what is required of the values that a run holds, of the code it executes, of the
exceptions it raises, of its questions and of the reasons for which it breaks off. If the
requirements fit together (`Lawful`: each construct of the language meets them if its parts do),
every evaluation meets them; that is `Lispbox.Proofs.Run.Evaluation`. Here are the judgement and its
rules.

`D.Runs s K Q m` says of the script `s` from the state `m` that, whatever the host answers,

* its questions and aborts are those that `D` allows;
* if it ends with a result, a raised exception or a value that a body is left with, the state is
  sound (`Sound`), the result satisfies `Q`, and the state satisfies `K`, which relates it to the
  state before;
* if the host gives a signal, nothing more is asked, the script ends with that signal, and the state
  satisfies `K`; since the moment of the signal some frames were left, and nothing else has changed.

A script that looks at the outcome of another one (`runs_handle`) has to pass a signal on.
-/
namespace Lispbox

/-- The nodes that the evaluation of a node evaluates in the same frame. -/
def Node.parts : Node → List Node
  | .bind _ _ value | .assign _ _ value | .await _ value => [value]
  | .leave _ (some value) | .raise _ _ (some value) => [value]
  | .branch _ condition taken other => condition :: (taken ++ other)
  | .loop _ condition body => condition :: body
  | .block _ body | .allOf _ body | .anyOf _ body => body
  | .attempt _ body handlers => body ++ handlers.flatMap Clause.body
  | .call _ callee args => callee :: args
  | _ => []

/-- What is required of a run (see the module doc). Owners are those of the namespaces. -/
structure Discipline where
  /-- Of a value, its parts aside. -/
  value : List (Home × String) → Value → Prop
  /-- Of code of a file. -/
  node : String → Node → Prop
  /-- Code of the file may have its globals in the namespace. -/
  place : List (Home × String) → String → Nat → Prop
  exception : Exception → Prop
  asks : Machine → Query → Prop
  aborts : Abort → Prop

namespace Discipline

/-- The state is as required. -/
structure Sound (D : Discipline) (m : Machine) : Prop where
  stored : ∀ v, m.Stores v → v.All (D.value m.owners)
  places : ∀ f ∈ m.frames, D.place m.owners f.file f.scope
  here : D.place m.owners m.file m.scope

/-- The end of a script: the signal that was given, if any, the result and the state. -/
def Verdict (D : Discipline) {α : Type} (K : Machine → Prop) (Q : Machine → α → Prop) :
    Option Stopped → Except Exit α → Machine → Prop
  | none, .ok a, m => K m ∧ D.Sound m ∧ Q m a
  | none, .error (.raise e), m => K m ∧ D.Sound m ∧ D.exception e
  | none, .error (.leave v), m => K m ∧ D.Sound m ∧ v.All (D.value m.owners)
  | some st, .error (.stop s), m => K m ∧ st.signal = s ∧ st.machine.Unwound m
  | _, _, _ => False

/-- Every course of the script is as required (see the module doc). -/
def Runs (D : Discipline) {α : Type} (s : Script α) (K : Machine → Prop) (Q : Machine → α → Prop)
    (m : Machine) : Prop :=
  (s m).Every D.asks D.aborts (D.Verdict K Q) none

/-- A value with all its parts is as required, in a state. -/
def Valid (D : Discipline) (m : Machine) (v : Value) : Prop := v.All (D.value m.owners)

/-- The requirements fit together. -/
structure Lawful [Supply] (D : Discipline) (env : Environment) : Prop where
  -- more namespaces do no harm
  value_mono : ∀ {o o' v}, o <+: o' → D.value o v → D.value o' v
  place_mono : ∀ {o o' file scope}, o <+: o' → D.place o file scope → D.place o' file scope
  -- the values that come into being
  value_data : ∀ {o v}, v.isCode = false → D.value o v
  value_builtin : ∀ {o n}, n ∈ Native.builtins → D.value o (.native n)
  value_member : ∀ {o name s members}, env.registry.get? name = some ⟨s, .native members⟩ →
    ∀ v ∈ Bindings.values members, v.All (D.value o)
  value_function : ∀ {o file scope home line name params body f column}, D.place o file scope →
    D.node file (.define line name params body f column) →
    D.value o (.function ⟨name, params, body, f, line, column⟩ home scope)
  value_deferred : ∀ {o file scope line body serial locals}, D.place o file scope →
    D.node file (.defer line body) → D.value o (.deferred serial body locals file scope)
  -- the code that is executed
  node_parts : ∀ {file n}, D.node file n → ∀ c ∈ n.parts, D.node file c
  function_body : ∀ {o d home scope}, D.value o (.function d home scope) →
    D.place o d.file scope ∧ ∀ n ∈ d.body, D.node d.file n
  deferred_body : ∀ {o serial body locals file scope},
    D.value o (.deferred serial body locals file scope) →
    D.place o file scope ∧ ∀ n ∈ body, D.node file n
  script_body : ∀ {o name s p}, env.registry.get? name = some ⟨s, .script p⟩ →
    D.place (o ++ [(.module name, p.file)]) p.file o.length ∧ ∀ n ∈ p.body, D.node p.file n
  -- the exceptions that are raised
  exception_cause : ∀ {c}, (∀ name, c ≠ .noModule name) → D.exception (.ofCause c)
  exception_noModule : ∀ {file line name}, D.node file (.load line name) →
    env.registry.get? name = none → D.exception (.ofCause (.noModule name))
  exception_raised : ∀ {file line name message text}, D.node file (.raise line name message) →
    D.exception (.raised name text)
  exception_frames : ∀ {e frames}, D.exception e → D.exception { e with frames := frames }
  -- the questions and the reasons to break off
  asks_poll : ∀ {m}, D.Sound m → D.asks m .poll
  asks_line : ∀ {m f fs n}, D.Sound m → m.frames = f :: fs → f.reported = some n.line →
    D.node f.file n → D.asks m (.line f.file n.line)
  asks_native : ∀ {m n q}, D.Sound m → D.value m.owners (.native n) → n.Puts q → D.asks m q
  aborts_exhausted : D.aborts .exhausted
  -- what supplied functions do
  runs_supplied : ∀ {m f args}, D.Sound m → D.value m.owners (.native (.supplied f)) →
    (∀ v ∈ args, D.Valid m v) → D.Runs (Supply.act f args).script m.Untouched D.Valid m

variable {D : Discipline} {α β : Type} {K K' : Machine → Prop} {Q Q' : Machine → α → Prop}
  {R : Machine → β → Prop} {s : Script α} {m : Machine}

theorem Verdict.mono (hK : ∀ m, K m → K' m) (hQ : ∀ m a, K m → D.Sound m → Q m a → Q' m a)
    {g : Option Stopped} {r : Except Exit α} {m : Machine} (h : D.Verdict K Q g r m) :
    D.Verdict K' Q' g r m := by
  match g, r, h with
  | none, .ok a, ⟨hk, hs, hq⟩ => exact ⟨hK _ hk, hs, hQ _ _ hk hs hq⟩
  | none, .error (.raise e), ⟨hk, hs, he⟩ => exact ⟨hK _ hk, hs, he⟩
  | none, .error (.leave v), ⟨hk, hs, hv⟩ => exact ⟨hK _ hk, hs, hv⟩
  | some st, .error (.stop sig), ⟨hk, hsig, hst⟩ => exact ⟨hK _ hk, hsig, hst⟩

theorem Runs.mono (hK : ∀ m, K m → K' m) (hQ : ∀ m a, K m → D.Sound m → Q m a → Q' m a)
    (h : D.Runs s K Q m) : D.Runs s K' Q' m :=
  Dialogue.Every.mono (fun _ _ _ hv => hv.mono hK hQ) h

/-- What is kept from a later state on is kept from an earlier one on. -/
theorem Runs.from {m₀ : Machine} (hk : m₀.Kept m) (h : D.Runs s m.Kept Q m) :
    D.Runs s m₀.Kept Q m :=
  h.mono (fun _ h' => hk.trans h') fun _ _ _ _ hq => hq

/-- What is left untouched from a later state on is so from an earlier one on. -/
theorem Runs.after {m₀ : Machine} (hk : m₀.Untouched m) (h : D.Runs s m.Untouched Q m) :
    D.Runs s m₀.Untouched Q m :=
  h.mono (fun _ h' => hk.trans h') fun _ _ _ _ hq => hq

/-- Frames that are untouched are kept. -/
theorem Runs.kept (h : D.Runs s m.Untouched Q m) : D.Runs s m.Kept Q m :=
  h.mono (fun _ h' => h'.kept) fun _ _ _ _ hq => hq

/-! ## Rules -/

theorem runs_pure {a : α} (hk : K m) (hs : D.Sound m) (hq : Q m a) :
    D.Runs (pure a) K Q m := ⟨hk, hs, hq⟩

theorem runs_bind {f : α → Script β} (h : D.Runs s K Q m)
    (hf : ∀ m' a, K m' → D.Sound m' → Q m' a → D.Runs (f a) K R m') :
    D.Runs (s >>= f) K R m := by
  refine Dialogue.every_bind.mpr (Dialogue.Every.mono (fun g r m' hv => ?_) h)
  match g, r, hv with
  | none, .ok a, ⟨hk, hs, hq⟩ => exact hf m' a hk hs hq
  | none, .error (.raise e), ⟨hk, hs, he⟩ => exact ⟨hk, hs, he⟩
  | none, .error (.leave v), ⟨hk, hs, hv⟩ => exact ⟨hk, hs, hv⟩
  | some st, .error (.stop sig), ⟨hk, hsig, hst⟩ => exact ⟨hk, hsig, hst⟩

theorem runs_get {f : Machine → Script β} (h : D.Runs (f m) K R m) :
    D.Runs (Script.get >>= f) K R m := h

theorem runs_set {m' : Machine} {f : Unit → Script β} (h : D.Runs (f ()) K R m') :
    D.Runs (Script.set m' >>= f) K R m := h

theorem runs_modify {g : Machine → Machine} {f : Unit → Script β}
    (h : D.Runs (f ()) K R (g m)) : D.Runs (Script.modify g >>= f) K R m := h

theorem runs_ask {q : Query} {Q : Machine → q.Answer → Prop} (hk : K m) (hs : D.Sound m)
    (ha : D.asks m q) (hq : ∀ a, Q m a) : D.Runs (Script.ask q) K Q m :=
  ⟨rfl, ha, fun a => ⟨hk, hs, hq a⟩, fun _ => ⟨hk, rfl, .refl m⟩⟩

theorem runs_exit_raise {e : Exception} (hk : K m) (hs : D.Sound m) (he : D.exception e) :
    D.Runs (Script.exit (.raise e)) K Q m := ⟨hk, hs, he⟩

theorem runs_exit_leave {v : Value} (hk : K m) (hs : D.Sound m) (hv : D.Valid m v) :
    D.Runs (Script.exit (.leave v)) K Q m := ⟨hk, hs, hv⟩

theorem runs_raise {c : Cause} (hk : K m) (hs : D.Sound m) (he : D.exception (.ofCause c)) :
    D.Runs (Script.raise c) K Q m := ⟨hk, hs, he⟩

/-- A script that goes on after another one whatever its outcome is: each outcome without a signal
is dealt with, and a signal is passed on at once. -/
theorem runs_handle {k : Except Exit α → Script β} (h : D.Runs s K Q m)
    (hok : ∀ m' a, K m' → D.Sound m' → Q m' a → D.Runs (k (.ok a)) K' R m')
    (hraise : ∀ m' e, K m' → D.Sound m' → D.exception e →
      D.Runs (k (.error (.raise e))) K' R m')
    (hleave : ∀ m' v, K m' → D.Sound m' → D.Valid m' v →
      D.Runs (k (.error (.leave v))) K' R m')
    (hstop : ∀ m' sig, K m' → ∃ m'', k (.error (.stop sig)) m' = .done (.error (.stop sig)) m'' ∧
      K' m'' ∧ ∀ m₀ : Machine, m₀.Unwound m' → m₀.Unwound m'') :
    D.Runs (Script.outcome s >>= k) K' R m := by
  refine Dialogue.every_bind.mpr (Dialogue.every_bind.mpr
    (Dialogue.Every.mono (fun g r m' hv => ?_) h))
  match g, r, hv with
  | none, .ok a, ⟨hk, hs, hq⟩ => exact hok m' a hk hs hq
  | none, .error (.raise e), ⟨hk, hs, he⟩ => exact hraise m' e hk hs he
  | none, .error (.leave v), ⟨hk, hs, hv⟩ => exact hleave m' v hk hs hv
  | some st, .error (.stop sig), ⟨hk, hsig, hst⟩ =>
    obtain ⟨m'', hm, hk'', hunwound⟩ := hstop m' sig hk
    show (k (.error (.stop sig)) m').Every _ _ _ _
    rw [hm]
    exact ⟨hk'', hsig, hunwound _ hst⟩

/-- The functions of the module `probe` report something and return nil, or crash. -/
theorem runs_probe (h : D.Sound m) (hasks : ∀ o, D.asks m (.emit (.output o)))
    (haborts : ∀ reason, D.aborts (.crashed reason)) (hnil : D.value m.owners .nil) (f : Supplied)
    (args : List Value) : D.Runs (Supply.act f args).script m.Untouched D.Valid m := by
  have hvalid : D.Valid m .nil := .of hnil (by simp [Value.parts])
  rw [script_probe]
  split
  · exact ⟨rfl, haborts _⟩
  · exact ⟨rfl, hasks _, fun _ => runs_pure (.refl m) h hvalid, fun _ => ⟨.refl m, rfl, .refl m⟩⟩

end Discipline
end Lispbox
