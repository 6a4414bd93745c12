import Lispbox.Proofs.Run.Congruence

/-!
# What a run emits

The evaluator emits nothing, and native functions that are not supplied emit output only. So the
events of a run that are no output are those that supplied functions may emit (`Supply.MayEmit`),
whatever the program is and whatever the host answers.

That a script emits only events of some sort (`Script.Emits`) is respected by all operations of the
evaluator (`emission`).

* `dialogue_emits`: the dialogue of a program.
* `dialogue_outputs`: where no function is supplied but those of the module `probe`.
-/
namespace Lispbox
open Script

variable {E : Event → Prop}

namespace Dialogue

variable {ρ τ : Type} {d : Dialogue ρ}

/-- On every course of the dialogue, the events that are emitted are of a sort. -/
def Emits (E : Event → Prop) : Dialogue ρ → Prop
  | .done _ _ | .abort _ _ => True
  | .ask _ q resume => (∀ e, q = .emit e → E e) ∧ ∀ a, (resume a).Emits E

theorem Emits.mono {E' : Event → Prop} (hd : d.Emits E) (h : ∀ e, E e → E' e) : d.Emits E' := by
  induction d with
  | done r m => trivial
  | abort a m => trivial
  | ask m q resume ih => exact ⟨fun e he => h e (hd.1 e he), fun a => ih a (hd.2 a)⟩

theorem Emits.and {E' : Event → Prop} (hd : d.Emits E) (hd' : d.Emits E') :
    d.Emits fun e => E e ∧ E' e := by
  induction d with
  | done r m => trivial
  | abort a m => trivial
  | ask m q resume ih =>
    exact ⟨fun e he => ⟨hd.1 e he, hd'.1 e he⟩, fun a => ih a (hd.2 a) (hd'.2 a)⟩

theorem Emits.bind (hd : d.Emits E) {f : ρ → Machine → Dialogue τ}
    (hf : ∀ r m, (f r m).Emits E) : (d.bind f).Emits E := by
  induction d with
  | done r m => exact hf r m
  | abort a m => trivial
  | ask m q resume ih => exact ⟨hd.1, fun a => ih a (hd.2 a)⟩

end Dialogue

/-- From every state, the events that the script emits are of a sort. -/
def Script.Emits (E : Event → Prop) {α : Type} (s : Script α) : Prop := ∀ m, (s m).Emits E

namespace Script

variable {α β : Type}

theorem emits_pure (a : α) : Emits E (pure a) := fun _ => trivial

theorem emits_bind {s : Script α} {f : α → Script β} (hs : s.Emits E) (hf : ∀ a, (f a).Emits E) :
    (s >>= f).Emits E := by
  refine fun m => (hs m).bind fun r m' => ?_
  cases r with
  | ok a => exact hf a m'
  | error e => trivial

theorem emits_handle {s : Script α} {f : Except Exit α → Script β} (hs : s.Emits E)
    (hf : ∀ r, (f r).Emits E) : (outcome s >>= f).Emits E := by
  intro m
  have houtcome : (outcome s m).Emits E := (hs m).bind fun _ _ => trivial
  refine houtcome.bind fun r m' => ?_
  cases r with
  | ok r => exact hf r m'
  | error e => trivial

/-- What is read from the state. -/
theorem emits_get {f : Machine → Script α} (hf : ∀ m, (f m).Emits E) : (get >>= f).Emits E :=
  fun m => hf m m

theorem emits_reportLine (always : Bool) (line : Nat) : (reportLine always line).Emits E := by
  intro m
  rcases reportLine_cases always line m with h | ⟨file, h⟩ <;> rw [h]
  · trivial
  · exact ⟨nofun, fun _ => trivial⟩

theorem emits_enter (env : Environment) (f : Frame) {s : Script Value} (hs : s.Emits E) :
    (enter env f s).Emits E := by
  refine emits_get fun m => ?_
  split
  · exact fun _ => trivial
  · refine emits_bind (fun _ => trivial) fun _ => emits_handle hs fun r => ?_
    exact emits_bind (fun _ => trivial) fun _ _ => trivial

/-- A supplied function emits what it may emit. -/
theorem emits_script {b : Behaviour} (hb : ∀ e, b.MayEmit e → E e) : b.script.Emits E := by
  induction b with
  | ends r => exact fun _ => trivial
  | crashes reason => exact fun _ => trivial
  | asks q next ih =>
    refine fun m => ⟨?_, fun a => ih a (fun e he => hb e (.later a he)) m⟩
    rintro e rfl
    exact hb e (.now next)

end Script

/-- The operations of the evaluator emit events of a sort, if outputs are of it and the events of
the supplied functions are. -/
def emission [Supply] (houtput : ∀ o, E (.output o)) (hsupply : ∀ e, Supply.MayEmit e → E e)
    {env env' : Environment} (hregistry : env'.registry = env.registry) :
    Congruence env env' where
  rel _ {_} s _ := s.Emits E
  allowed _ := True
  registry := hregistry
  of_pure := emits_pure
  of_exit _ _ := trivial
  of_crash _ _ := trivial
  of_exhausted _ := trivial
  of_ask {_ q} hq m := by
    refine ⟨fun e he => ?_, fun _ => trivial⟩
    obtain ⟨o, rfl⟩ := hq e he
    exact houtput o
  of_bind := emits_bind
  of_handle hs hf := emits_handle hs fun r => hf r fun e _ => by cases e <;> trivial
  of_supplied f args := emits_script fun e he => hsupply e ⟨f, args, he⟩
  of_report := emits_reportLine
  of_setLine _ _ := trivial
  of_name _ _ _ := trivial
  of_assign name v := emits_get fun m => by split <;> exact fun _ => trivial
  of_lookup name := emits_get fun m => by split <;> exact fun _ => trivial
  of_define _ _ _ := trivial
  of_defer _ _ := trivial
  of_trace _ _ _ := trivial
  of_known name _ _ hs := emits_get fun m => by
    split
    · exact emits_pure _
    · exact hs
  of_open name p _ _ hf := emits_get fun m => emits_bind (fun _ => trivial) fun _ => hf _
  of_members scope := emits_get fun m => by split <;> exact emits_pure _
  of_add _ _ _ := trivial
  of_empty f v := emits_enter env f (emits_pure v)
  of_body line _ _ _ hs := emits_enter env _ (emits_bind (emits_reportLine false line) fun _ => hs)
  allowed_cause _ := trivial
  allowed_raised _ _ := trivial

theorem dialogue_emits [Supply] (houtput : ∀ o, E (.output o))
    (hsupply : ∀ e, Supply.MayEmit e → E e) (env : Environment) (fuel : Nat) (p : Program) :
    (p.dialogue env fuel).Emits E :=
  emits_enter env _ ((emission houtput hsupply rfl).of_main (k := 0) fuel p) _

/-- The event is an output. -/
def Event.IsOutput (e : Event) : Prop := ∃ o, e = .output o

/-- The functions of the module `probe` emit output only. -/
theorem output_of_probe {e : Event} (h : Supply.MayEmit e) : e.IsOutput := by
  obtain ⟨f, args, h⟩ := h
  simp only [Supply.act] at h
  split at h
  · cases h
  · cases h with
    | now next => exact ⟨_, rfl⟩
    | later a h => cases a <;> cases h

theorem dialogue_outputs (env : Environment) (fuel : Nat) (p : Program) :
    (p.dialogue env fuel).Emits Event.IsOutput :=
  dialogue_emits (fun o => ⟨o, rfl⟩) (fun _ => output_of_probe) env fuel p

end Lispbox
