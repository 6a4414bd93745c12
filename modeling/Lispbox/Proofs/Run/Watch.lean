import Lispbox.Proofs.Run.Congruence
import Lispbox.Proofs.Run.Steps

/-!
# Watching an evaluation

A `Watch` is something to be observed in the states of an evaluation: `before` holds of the states
in which a script begins and ends that works with `k` frames at least, `asks` of those in which it
asks, and the exceptions that it raises are `allowed`. The observation may end early, with the first
question that is asked in a state where `stop` holds (`Dialogue.Until`).

What is executed in a frame changes this frame or a global that it sees (`Machine.Alters`); and with
or without a frame, something may come into being or be counted (`Machine.Grows`). All else happens
in bodies with a frame of their own. If a watch puts up with these changes, and with what comes
before the first question of a body (`Watch.Lawful`), then it is kept by every evaluation.

* `Watch.congruence`: every operation of the evaluator keeps a lawful watch.
-/
namespace Lispbox
open Script

namespace Machine

/-- A change in the innermost frame, or in the globals that it sees. -/
inductive Alters (m : Machine) : Machine → Prop where
  | nothing : m.Alters m
  | moved {f f' : Frame} {fs : List Frame} (hf : m.frames = f :: fs) (hs : f'.shape = f.shape) :
    m.Alters (m.withTop f')
  | global {f : Frame} {fs : List Frame} (hf : m.frames = f :: fs) (name : String) (v : Value) :
    m.Alters (m.setGlobal f.scope name v)

/-- A change that no frame sees. -/
inductive Grows (m : Machine) : Machine → Prop where
  | advance : m.Grows m.advance
  | refuse : m.Grows m.refuse
  | remember (name : String) (v : Value) : m.Grows (m.remember name v)
  | openModule (name : String) (p : Program) : m.Grows (m.openModule name p)

variable {m m' : Machine}

theorem Alters.kept (h : m.Alters m') : m.Kept m' := by
  cases h with
  | nothing => exact .refl m
  | moved hf hs => exact kept_withTop hf hs
  | global hf name v => exact kept_setGlobal m _ name v

theorem Grows.untouched (h : m.Grows m') : m.Untouched m' := by
  cases h with
  | advance => exact untouched_advance m
  | refuse => exact untouched_refuse m
  | remember name v => exact untouched_remember m name v
  | openModule name p => exact untouched_openModule m name p

theorem alters_setLine (m : Machine) (line : Nat) : m.Alters (m.setLine line) := by
  unfold setLine
  split
  · exact .nothing
  · next f fs hf => exact .moved hf rfl

theorem alters_reportFrom (m : Machine) (line : Nat) : m.Alters (m.reportFrom line) := by
  unfold reportFrom
  split
  · exact .nothing
  · next f fs hf => exact .moved hf rfl

theorem alters_local {f : Frame} {fs : List Frame} {locals : Bindings} (hf : m.frames = f :: fs)
    (hl : f.locals = some locals) (name : String) (v : Value) :
    m.Alters (m.withTop { f with locals := some (locals.set name v) }) :=
  .moved hf (by simp [Frame.shape, hl])

theorem alters_bind (m : Machine) (name : String) (v : Value) : m.Alters (m.bind name v) := by
  unfold bind
  split
  · exact .nothing
  · next f fs hf =>
    split
    · next locals hl => exact alters_local hf hl name v
    · exact .global hf name v

theorem alters_assign {name : String} {v : Value} (h : m.assign? name v = some m') :
    m.Alters m' := by
  unfold assign? at h
  split at h
  · cases h
  · next f fs hf =>
    split at h
    · next locals hl =>
      split at h
      · cases h
        exact alters_local hf hl name v
      · split at h
        · cases h
          exact .global hf name v
        · cases h
    · split at h
      · cases h
        exact .global hf name v
      · cases h

end Machine

/-! ## Up to a question -/

namespace Dialogue

variable {ρ τ σ : Type} {stop keep keep' : Machine → Prop} {ends ends' : ρ → Machine → Prop}
  {d : Dialogue ρ}

/-- Up to the first question that is asked in a state where `stop` holds, this one included, `keep`
holds of the states in which the dialogue asks or breaks off, and `ends` of its result. -/
def Until (stop keep : Machine → Prop) (ends : ρ → Machine → Prop) : Dialogue ρ → Prop
  | .done r m => ends r m
  | .abort _ m => keep m
  | .ask m _ resume => keep m ∧ (¬ stop m → ∀ a, (resume a).Until stop keep ends)

theorem Until.mono (hd : d.Until stop keep ends) (hk : ∀ m, keep m → keep' m)
    (he : ∀ r m, ends r m → ends' r m) : d.Until stop keep' ends' := by
  induction d with
  | done r m => exact he r m hd
  | abort a m => exact hk m hd
  | ask m q resume ih => exact ⟨hk m hd.1, fun hgo a => ih a (hd.2 hgo a)⟩

theorem Until.bind {ends : τ → Machine → Prop} {f : ρ → Machine → Dialogue τ}
    (hd : d.Until stop keep fun r m => (f r m).Until stop keep ends) :
    (d.bind f).Until stop keep ends := by
  induction d with
  | done r m => exact hd
  | abort a m => exact hd
  | ask m q resume ih => exact ⟨hd.1, fun hgo a => ih a (hd.2 hgo a)⟩

/-- The questions of a conversation. -/
theorem Until.asked (hd : d.Until stop keep ends) (h : Host σ) (s : σ)
    {before after : List Exchange} {x : Exchange} (hx : d.exchanges h s = before ++ x :: after)
    (hgo : ∀ y ∈ before, ¬ stop y.machine) : keep x.machine := by
  induction d generalizing s before with
  | done r m => simp [exchanges] at hx
  | abort a m => simp [exchanges] at hx
  | ask m q resume ih =>
    rw [exchanges_ask] at hx
    cases before with
    | nil =>
      obtain ⟨rfl, -⟩ := List.cons.inj hx
      exact hd.1
    | cons b bs =>
      obtain ⟨rfl, hlater⟩ := List.cons.inj hx
      exact ih _ (hd.2 (hgo _ List.mem_cons_self) _) _ hlater fun y hy =>
        hgo y (List.mem_cons_of_mem _ hy)

/-- The end of a conversation that no question stops. -/
theorem Until.run (hd : d.Until stop keep ends) (h : Host σ) (s : σ)
    (hgo : ∀ y ∈ d.exchanges h s, ¬ stop y.machine) :
    match (d.run h s).1 with
    | .ok r => ends r (d.run h s).2.1
    | .error _ => keep (d.run h s).2.1 := by
  induction d generalizing s with
  | done r m => exact hd
  | abort a m => exact hd
  | ask m q resume ih =>
    rw [exchanges_ask] at hgo
    exact ih _ (hd.2 (hgo _ List.mem_cons_self) _) _ fun y hy =>
      hgo y (List.mem_cons_of_mem _ hy)

end Dialogue

/-! ## Watches -/

/-- Something to be observed (see the module doc). -/
structure Watch where
  stop : Machine → Prop
  before : Nat → Machine → Prop
  asks : Nat → Machine → Prop
  allowed : Exception → Prop

namespace Watch

/-- The watch fits the evaluator. -/
structure Lawful (W : Watch) (env : Environment) : Prop where
  asks_before : ∀ {k m}, W.before k m → W.asks k m
  asks_outer : ∀ {k m}, W.asks (k + 1) m → W.asks k m
  alters : ∀ {k m m'}, W.before (k + 1) m → m.Alters m' → W.before (k + 1) m'
  grows : ∀ {k m m'}, W.before k m → m.Grows m' → W.before k m'
  -- the first line of a body is reported
  enters : ∀ {k m} (f : Frame) (line : Nat), W.before k m → m.frames.length < env.depth →
    W.asks (k + 1) ((m.push f).reportFrom line) ∧
      (¬ W.stop ((m.push f).reportFrom line) → W.before (k + 1) ((m.push f).reportFrom line))
  leaves : ∀ {k m m' f}, W.before k m → (m.push f).Kept m' → W.before (k + 1) m' →
    W.before k m'.pop
  allowed_bare : ∀ {e : Exception}, e.frames = [] → W.allowed e
  allowed_trace : ∀ {k m e}, W.before k m → W.allowed e →
    W.allowed { e with frames := m.traceback }

/-- The end of a script that began in the state `m`. -/
def Ends (W : Watch) (k : Nat) {α : Type} (m : Machine) (r : Except Exit α) (m' : Machine) : Prop :=
  m.Kept m' ∧ W.before k m' ∧ ∀ e, r = .error e → e.Raises W.allowed

/-- The script keeps the watch, from a state in which it may begin. -/
def Runs (W : Watch) (k : Nat) {α : Type} (s : Script α) (m : Machine) : Prop :=
  (s m).Until W.stop (W.asks k) (W.Ends k m)

/-- The script keeps the watch. -/
def Keeps (W : Watch) (k : Nat) {α : Type} (s : Script α) : Prop :=
  ∀ m, W.before k m → W.Runs k s m

variable {W : Watch} {env : Environment} {k : Nat} {α β : Type} {m m' : Machine}

/-! ## Scripts -/

/-- What was kept before. -/
theorem Keeps.from {s : Script α} {m₀ : Machine} (hs : W.Keeps k s) (hk : m₀.Kept m)
    (hm : W.before k m) : (s m).Until W.stop (W.asks k) (W.Ends k m₀) :=
  (hs m hm).mono (fun _ h => h) fun _ _ h => ⟨hk.trans h.1, h.2⟩

theorem keeps_pure (a : α) : W.Keeps k (pure a : Script α) :=
  fun m hm => ⟨.refl m, hm, fun _ he => by cases he⟩

theorem keeps_exit {e : Exit} (he : e.Raises W.allowed) : W.Keeps k (exit e : Script α) :=
  fun m hm => ⟨.refl m, hm, fun _ h => by cases h; exact he⟩

theorem keeps_raise (hW : W.Lawful env) (c : Cause) : W.Keeps k (raise c : Script α) :=
  keeps_exit (hW.allowed_bare rfl)

theorem keeps_ask (hW : W.Lawful env) (q : Query) : W.Keeps k (ask q) := by
  refine fun m hm => ⟨hW.asks_before hm, fun _ a => ⟨.refl m, hm, fun e he => ?_⟩⟩
  cases a <;> cases he
  trivial

theorem keeps_bind {s : Script α} {f : α → Script β} (hs : W.Keeps k s)
    (hf : ∀ a, W.Keeps k (f a)) : W.Keeps k (s >>= f) := by
  refine fun m hm => .bind ((hs m hm).mono (fun _ h => h) fun r m₁ ⟨hk, hm₁, hr⟩ => ?_)
  cases r with
  | ok a => exact (hf a).from hk hm₁
  | error e => exact ⟨hk, hm₁, fun _ h => by cases h; exact hr e rfl⟩

theorem keeps_handle {s : Script α} {f : Except Exit α → Script β} (hs : W.Keeps k s)
    (hf : ∀ r, (∀ e, r = .error e → e.Raises W.allowed) → W.Keeps k (f r)) :
    W.Keeps k (outcome s >>= f) := by
  refine fun m hm => .bind (.bind ((hs m hm).mono (fun _ h => h) fun r m₁ ⟨hk, hm₁, hr⟩ => ?_))
  exact (hf r hr).from hk hm₁

theorem keeps_talk (hW : W.Lawful env) {asks : Query → Prop} {s : Script α} (h : s.Talks asks) :
    W.Keeps k s := by
  induction h with
  | pure a => exact keeps_pure a
  | raise c => exact keeps_raise hW c
  | crash reason => exact fun _ hm => hW.asks_before hm
  | ask _ _ ih => exact keeps_bind (keeps_ask hW _) ih

/-- What is read from the state. -/
theorem keeps_get {f : Machine → Script α} (hf : ∀ m, W.before k m → W.Runs k (f m) m) :
    W.Keeps k (get >>= f) := hf

theorem runs_alters (hW : W.Lawful env) {f : Unit → Script α} (hm : W.before (k + 1) m)
    (h : m.Alters m') (hf : W.Keeps (k + 1) (f ())) : W.Runs (k + 1) (set m' >>= f) m :=
  hf.from h.kept (hW.alters hm h)

theorem keeps_modify (hW : W.Lawful env) {g : Machine → Machine}
    (h : ∀ m, Machine.Alters m (g m)) : W.Keeps (k + 1) (modify g) :=
  fun m hm => ⟨(h m).kept, hW.alters hm (h m), fun _ he => by cases he⟩

theorem runs_grows (hW : W.Lawful env) {f : Unit → Script α} (hm : W.before k m)
    (h : m.Grows m') (hf : W.Keeps k (f ())) : W.Runs k (set m' >>= f) m :=
  hf.from h.untouched.kept (hW.grows hm h)

/-! ## Operations -/

theorem keeps_reportLine (hW : W.Lawful env) (always : Bool) (line : Nat) :
    W.Keeps (k + 1) (reportLine always line) := by
  refine keeps_get fun m hm => ?_
  split
  · exact keeps_pure () m hm
  · split
    · exact runs_alters hW hm (m.alters_setLine line) (keeps_pure ())
    · exact runs_alters hW hm (m.alters_reportFrom line) (keeps_ask hW _)

theorem keeps_assignName (hW : W.Lawful env) (name : String) (v : Value) :
    W.Keeps (k + 1) (assignName name v) := by
  refine keeps_get fun m hm => ?_
  split
  · next m' ha => exact runs_alters hW hm (Machine.alters_assign ha) (keeps_pure ())
  · exact keeps_raise hW _ m hm

theorem keeps_lookupName (hW : W.Lawful env) (name : String) : W.Keeps k (lookupName name) := by
  refine keeps_get fun m hm => ?_
  split
  · exact keeps_pure _ m hm
  · exact keeps_raise hW _ m hm

/-- The line of a frame that has reported none is reported. -/
theorem reportLine_first {f : Frame} (hf : f.reported = none) (m : Machine) (line : Nat) :
    reportLine false line (m.push f) =
      ask (.line f.file line) ((m.push f).reportFrom line) := by
  unfold reportLine
  change (if !false && f.reported == some line then _ else _ : Script Unit) (m.push f) = _
  rw [hf]
  rfl

/-- A body that reports its first line before anything else. -/
theorem keeps_enter (hW : W.Lawful env) {f : Frame} {line : Nat} {s : Script Value}
    (hf : f.reported = none) (hs : W.Keeps (k + 1) s) :
    W.Keeps k (enter env f (do reportLine false line; s)) := by
  intro m hm
  unfold Runs
  rcases Nat.lt_or_ge m.frames.length env.depth with hroom | hfull
  · obtain ⟨hasks, hbefore⟩ := hW.enters f line hm hroom
    have hkept := Machine.kept_reportFrom (m.push f) line
    have hbody : ((reportLine false line >>= fun _ => s) (m.push f)).Until W.stop (W.asks (k + 1))
        (W.Ends (k + 1) (m.push f)) := by
      change (Dialogue.bind (reportLine false line (m.push f)) _).Until _ _ _
      rw [reportLine_first hf]
      refine ⟨hasks, fun hgo a => ?_⟩
      cases a with
      | ok a => exact hs.from hkept (hbefore hgo)
      | error sig => exact ⟨hkept, hbefore hgo, fun e he => by cases he; trivial⟩
    rw [enter_room hroom]
    exact .bind (hbody.mono (fun _ => hW.asks_outer) fun r m₁ ⟨hk, hm₁, hr⟩ =>
      ⟨hk.pop.kept, hW.leaves hm hk hm₁, hr⟩)
  · rw [enter_full hfull]
    exact (keeps_raise hW _).from m.untouched_refuse.kept (hW.grows hm .refuse)

/-- A body that does nothing. -/
theorem keeps_enter_pure (hW : W.Lawful env) (f : Frame) (v : Value) :
    W.Keeps k (enter env f (pure v)) := by
  intro m hm
  unfold Runs
  rcases Nat.lt_or_ge m.frames.length env.depth with hroom | hfull
  · rw [enter_room hroom]
    exact keeps_pure v m hm
  · rw [enter_full hfull]
    exact (keeps_raise hW _).from m.untouched_refuse.kept (hW.grows hm .refuse)

/-- A watch that fits the evaluator is kept by its operations. -/
def congruence (hW : W.Lawful env) : Congruence env env where
  rel k {_} s _ := W.Keeps k s
  allowed := W.allowed
  registry := rfl
  of_pure := keeps_pure
  of_exit := keeps_exit
  of_crash _ _ hm := hW.asks_before hm
  of_exhausted _ hm := hW.asks_before hm
  of_ask _ := keeps_ask hW _
  of_supplied f args := keeps_talk hW (Native.talks_probe f args)
  of_bind := keeps_bind
  of_handle := keeps_handle
  of_report := keeps_reportLine hW
  of_setLine line := keeps_modify hW fun m => m.alters_setLine line
  of_name name v := keeps_modify hW fun m => m.alters_bind name v
  of_assign := keeps_assignName hW
  of_lookup := keeps_lookupName hW
  of_define name d := keeps_get fun m hm =>
    runs_alters hW hm (m.alters_bind name _) (keeps_pure Value.nil)
  of_defer body := keeps_get fun m hm => runs_grows hW hm .advance (keeps_pure _)
  of_trace he _ := keeps_get fun m hm => by
    refine keeps_exit ?_ m hm
    exact hW.allowed_trace hm he
  of_known name _ _ hs := keeps_get fun m hm => by
    split
    · exact keeps_pure _ m hm
    · exact hs m hm
  of_open name p _ _ hf := keeps_get fun m hm => runs_grows hW hm (.openModule name p) (hf _)
  of_members scope := keeps_get fun m hm => by
    split
    · exact keeps_pure _ m hm
    · exact keeps_pure _ m hm
  of_add name members := keeps_get fun m hm => by
    have hk := m.untouched_advance.trans
      (m.advance.untouched_remember name (.module m.serial name members))
    exact (keeps_pure _).from hk.kept (hW.grows (hW.grows hm .advance) (.remember name _))
  of_empty := keeps_enter_pure hW
  of_body _ _ _ hf hs := keeps_enter hW hf hs
  allowed_cause _ := hW.allowed_bare rfl
  allowed_raised _ _ := hW.allowed_bare rfl

end Watch

/-! ## The main program -/

/-- The main program begins, in its frame. -/
def Machine.enterMain (p : Program) : Machine :=
  (Machine.start p).push ⟨"<module>", p.file, 1, none, none, 0⟩

/-- What is executed in the frame of the main program. -/
def Program.main (env : Environment) (fuel : Nat) (p : Program) : Script Value := do
  let v ← untilLeft (runBlock (eval env fuel) .nil p.body)
  settle env (eval env fuel) fuel v

/-- There is always room for the main program. -/
theorem dialogue_main (env : Environment) (fuel : Nat) (p : Program) :
    p.dialogue env fuel = (p.main env fuel (.enterMain p)).bind fun r m => .done r m.pop :=
  enter_room (Nat.lt_of_lt_of_le Nat.zero_lt_one (Nat.le_max_left 1 env.limit))

end Lispbox
