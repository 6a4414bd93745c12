import Lispbox.Proofs.Native.Results
import Lispbox.Run.Eval

/-!
# Fuel

A run with more fuel is the same run, except that it goes on where the one with less fuel breaks off
for want of steps; and for each step of its fuel a run has asked its host once whether to go on.
So fuel is nothing but a number of polls.

`Dialogue.Lasts` says both at once of a dialogue and the one with more fuel, and follows the
evaluator from part to part: an evaluator that is used for the parts of a node is only known to last
(`Evaluator.Lasts`). What has to be shown of each loop is that a round of it polls: a round of
`while` evaluates the condition, and a deferred body whose value is deferred again is not empty
(`Gain`).

* `eval_lasts`, `dialogue_lasts`: evaluations and programs last as long as their fuel.
-/
namespace Lispbox

/-- How many polls the question is. -/
def Query.polls : Query → Nat
  | .poll => 1
  | _ => 0

namespace Dialogue

variable {ρ τ : Type} {steps n : Nat}

/-- The host has agreed to go on `n` times. The first dialogue breaks off for want of steps only
when the host has agreed `steps` times, and the second one is the same up to there; `ends` is
required of how often the host has agreed in the end, and of the result. -/
inductive Lasts (steps : Nat) (ends : Nat → ρ → Prop) : Nat → Dialogue ρ → Dialogue ρ → Prop where
  | done {n : Nat} {r : ρ} (m : Machine) (h : ends n r) : Lasts steps ends n (.done r m) (.done r m)
  | crashed {n : Nat} (reason : String) (m : Machine) :
    Lasts steps ends n (.abort (.crashed reason) m) (.abort (.crashed reason) m)
  | exhausted {n : Nat} (m : Machine) (d : Dialogue ρ) (h : steps ≤ n) :
    Lasts steps ends n (.abort .exhausted m) d
  | ask {n : Nat} (m : Machine) (q : Query) {k k' : Except Signal q.Answer → Dialogue ρ}
    (agreed : ∀ a, Lasts steps ends (n + q.polls) (k (.ok a)) (k' (.ok a)))
    (stopped : ∀ s, Lasts steps ends n (k (.error s)) (k' (.error s))) :
    Lasts steps ends n (.ask m q k) (.ask m q k')

theorem Lasts.mono {ends ends' : Nat → ρ → Prop} {d d' : Dialogue ρ}
    (hd : d.Lasts steps ends n d') (h : ∀ n r, ends n r → ends' n r) :
    d.Lasts steps ends' n d' := by
  induction hd with
  | done m hends => exact .done m (h _ _ hends)
  | crashed reason m => exact .crashed reason m
  | exhausted m d hn => exact .exhausted m d hn
  | ask m q _ _ hagreed hstopped => exact .ask m q hagreed hstopped

/-- What follows from the results lasts too. -/
theorem Lasts.bind {ends : Nat → τ → Prop} {d d' : Dialogue ρ} {f f' : ρ → Machine → Dialogue τ}
    (hd : d.Lasts steps (fun n r => ∀ m, (f r m).Lasts steps ends n (f' r m)) n d') :
    (d.bind f).Lasts steps ends n (d'.bind f') := by
  induction hd with
  | done m hends => exact hends m
  | crashed reason m => exact .crashed reason m
  | exhausted m d hn => exact .exhausted m _ hn
  | ask m q _ _ hagreed hstopped => exact .ask m q hagreed hstopped

end Dialogue

namespace Script

variable {α β : Type} {steps n : Nat} {Q : Nat → Except Exit α → Prop}
  {R : Nat → Except Exit β → Prop} {s s' : Script α}

/-- From every state the script lasts, beside the one with more fuel. -/
def Lasts (steps n : Nat) (s s' : Script α) (Q : Nat → Except Exit α → Prop) : Prop :=
  ∀ m, (s m).Lasts steps Q n (s' m)

theorem Lasts.mono {Q' : Nat → Except Exit α → Prop} (hs : Lasts steps n s s' Q)
    (h : ∀ n r, Q n r → Q' n r) : Lasts steps n s s' Q' :=
  fun m => (hs m).mono h

theorem lasts_ofExcept {r : Except Exit α} (h : Q n r) :
    Lasts steps n (ofExcept r) (ofExcept r) Q :=
  fun m => .done m h

theorem lasts_pure {a : α} (h : Q n (.ok a)) : Lasts steps n (pure a) (pure a) Q :=
  fun m => .done m h

theorem lasts_exit {e : Exit} (h : Q n (.error e)) : Lasts steps n (exit e) (exit e) Q :=
  fun m => .done m h

theorem lasts_ask {q : Query} {Q : Nat → Except Exit q.Answer → Prop}
    (hok : ∀ a, Q (n + q.polls) (.ok a)) (hstop : ∀ sig, Q n (.error (.stop sig))) :
    Lasts steps n (ask q) (ask q) Q :=
  fun m => .ask m q (fun a => .done m (hok a)) fun sig => .done m (hstop sig)

theorem lasts_bind {f f' : α → Script β} (hs : Lasts steps n s s' Q)
    (hok : ∀ n a, Q n (.ok a) → Lasts steps n (f a) (f' a) R)
    (herror : ∀ n e, Q n (.error e) → R n (.error e)) :
    Lasts steps n (s >>= f) (s' >>= f') R := by
  intro m
  refine Dialogue.Lasts.bind ((hs m).mono fun n r hq m => ?_)
  cases r with
  | ok a => exact hok n a hq m
  | error e => exact .done m (herror n e hq)

/-- A script that goes on after another one whatever its outcome is. -/
theorem lasts_handle {k k' : Except Exit α → Script β} (hs : Lasts steps n s s' Q)
    (hk : ∀ n r, Q n r → Lasts steps n (k r) (k' r) R) :
    Lasts steps n (outcome s >>= k) (outcome s' >>= k') R := by
  intro m
  refine Dialogue.Lasts.bind (Dialogue.Lasts.bind ((hs m).mono fun n r hq m => ?_))
  exact .done m fun m => hk n r hq m

theorem lasts_get {f f' : Machine → Script β} (h : ∀ m, Lasts steps n (f m) (f' m) R) :
    Lasts steps n (get >>= f) (get >>= f') R :=
  fun m => h m m

theorem lasts_set {m : Machine} {f f' : Unit → Script β} (h : Lasts steps n (f ()) (f' ()) R) :
    Lasts steps n (set m >>= f) (set m >>= f') R :=
  fun _ => h m

theorem lasts_modify {g : Machine → Machine} {f f' : Unit → Script β}
    (h : Lasts steps n (f ()) (f' ()) R) : Lasts steps n (modify g >>= f) (modify g >>= f') R :=
  fun m => h (g m)

end Script

open Script

/-- The host has agreed to go on since it had done so `n` times, if a value with the property came
about. -/
def Gain (p : Value → Prop) (n : Nat) (n' : Nat) (r : Except Exit Value) : Prop :=
  n ≤ n' ∧ ∀ v, r = .ok v ∨ r = .error (.leave v) → p v → n < n'

/-- The host has agreed to go on no less often than before. -/
def Since {α : Type} (n : Nat) (n' : Nat) (_ : Except Exit α) : Prop := n ≤ n'

/-- The value is a deferred body. -/
def Value.IsDeferred (v : Value) : Prop := v.kind = .deferred

/-- Evaluations last from when the host has agreed `n` times, and each value takes a poll. -/
def Evaluator.Lasts (steps n : Nat) (ev ev' : Evaluator) : Prop :=
  ∀ n' node, n ≤ n' → Script.Lasts steps n' (ev node) (ev' node) (Gain (fun _ => True) n')

variable {steps n n' : Nat} {ev ev' : Evaluator} {p : Value → Prop}

theorem Gain.since {r : Except Exit Value} (h : Gain p n n' r) : Since n n' r := h.1

theorem Gain.ok {v : Value} (h : Gain (fun _ => True) n n' (.ok v)) : n < n' :=
  h.2 v (.inl rfl) trivial

theorem gain_of_lt {r : Except Exit Value} (h : n < n') : Gain p n n' r :=
  ⟨Nat.le_of_lt h, fun _ _ _ => h⟩

/-- An exit without a value takes no poll. -/
theorem gain_error {e : Exit} (h : n ≤ n') (he : ∀ v, e ≠ .leave v) : Gain p n n' (.error e) := by
  refine ⟨h, fun v hv => ?_⟩
  rcases hv with hv | hv <;> cases hv
  exact absurd rfl (he v)

theorem Evaluator.Lasts.from (h : Evaluator.Lasts steps n ev ev') (hn : n ≤ n') :
    Evaluator.Lasts steps n' ev ev' :=
  fun k node hk => h k node (Nat.le_trans hn hk)

/-! ## Scripts that are the same with any fuel -/

theorem lasts_raise {α : Type} {Q : Nat → Except Exit α → Prop} {c : Cause}
    (h : Q n (.error (.raise (.ofCause c)))) : Lasts steps n (raise c) (raise c) Q :=
  lasts_exit h

theorem lasts_report (q : Query) : Lasts steps n (Script.ask q) (Script.ask q) (Since n) :=
  lasts_ask (fun _ => Nat.le_add_right n _) fun _ => Nat.le_refl n

/-- No value comes about when a line is reported. -/
theorem lasts_reportLine (always : Bool) (line : Nat) :
    Lasts steps n (reportLine always line) (reportLine always line)
      fun n' r => n ≤ n' ∧ ∀ v, r ≠ .error (.leave v) := by
  unfold reportLine
  refine lasts_get fun m => ?_
  split
  · exact lasts_pure ⟨Nat.le_refl n, nofun⟩
  · split
    · exact fun _ => .done _ ⟨Nat.le_refl n, nofun⟩
    · exact lasts_set (lasts_ask (fun _ => ⟨Nat.le_add_right n _, nofun⟩)
        fun _ => ⟨Nat.le_refl n, nofun⟩)

/-- What a script does after it has got on. -/
theorem lasts_after {α β : Type} {s s' : Script α} {f f' : α → Script β}
    (hs : Lasts steps n s s' (Since n))
    (hf : ∀ k a, n ≤ k → Lasts steps k (f a) (f' a) (Since k)) :
    Lasts steps n (s >>= f) (s' >>= f') (Since n) :=
  lasts_bind hs (fun k a hk => (hf k a hk).mono fun _ _ => Nat.le_trans hk) fun _ _ hk => hk

theorem lasts_talk {α : Type} {asks : Query → Prop} {s : Script α} (h : s.Talks asks) :
    Lasts steps n s s (Since n) := by
  induction h generalizing n with
  | pure a => exact lasts_pure (Nat.le_refl n)
  | raise c => exact lasts_raise (Nat.le_refl n)
  | crash reason => exact fun m => .crashed reason m
  | ask _ _ ih => exact lasts_after (lasts_report _) fun _ a _ => ih a

theorem lasts_native (native : Native) (args : List Value) :
    Lasts steps n (native.call args) (native.call args) (Since n) :=
  lasts_talk (native.talks_call args)

/-! ## Blocks and calls -/

variable {env : Environment} {rounds rounds' : Nat}

/-- What a script does with the value of a node. -/
theorem Evaluator.Lasts.after {β : Type} (hev : Evaluator.Lasts steps n ev ev') (node : Node)
    {f f' : Value → Script β}
    (hf : ∀ k v, n < k → Script.Lasts steps k (f v) (f' v) (Since k)) :
    Script.Lasts steps n (ev node >>= f) (ev' node >>= f') (Since n) :=
  lasts_bind (hev n node (Nat.le_refl n))
    (fun k v hg => (hf k v hg.ok).mono fun _ _ => Nat.le_trans hg.since) fun _ _ hg => hg.since

theorem lasts_runBlock (hev : Evaluator.Lasts steps n ev ev') (last : Value) (ns : Block) :
    Lasts steps n (runBlock ev last ns) (runBlock ev' last ns) (Since n) := by
  induction ns generalizing n last with
  | nil => exact lasts_pure (Nat.le_refl n)
  | cons node ns ih =>
    refine lasts_after ((lasts_reportLine false node.line).mono fun _ _ h => h.1) fun k _ hk => ?_
    exact (hev.from hk).after node fun k' v hk' => ih ((hev.from hk).from (Nat.le_of_lt hk')) v

/-- A body whose value is deferred is not empty, so the host was asked. -/
theorem lasts_body (hev : Evaluator.Lasts steps n ev ev') (ns : Block) :
    Lasts steps n (runBlock ev .nil ns) (runBlock ev' .nil ns) (Gain Value.IsDeferred n) := by
  cases ns with
  | nil => exact lasts_pure ⟨Nat.le_refl n, by rintro v (h | h) hd <;> cases h; cases hd⟩
  | cons node ns =>
    refine lasts_bind (lasts_reportLine false node.line) (fun k _ hk => ?_) fun k e hk => ?_
    · refine lasts_bind (hev k node hk.1) (fun k' v hg => ?_) fun k' e hg => ?_
      · have hlt : n < k' := Nat.lt_of_le_of_lt hk.1 hg.ok
        exact (lasts_runBlock (hev.from (Nat.le_of_lt hlt)) v ns).mono
          fun _ _ h => gain_of_lt (Nat.lt_of_lt_of_le hlt h)
      · exact ⟨Nat.le_trans hk.1 hg.1, fun v hv _ => Nat.lt_of_le_of_lt hk.1 (hg.2 v hv trivial)⟩
    · exact gain_error hk.1 fun v he => hk.2 v (by rw [he])

theorem lasts_untilLeft {s s' : Script Value} (h : Lasts steps n s s' (Gain p n)) :
    Lasts steps n (untilLeft s) (untilLeft s') (Gain p n) := by
  refine lasts_handle h fun k r hg => ?_
  split
  · next v => exact lasts_pure ⟨hg.1, by rintro w (hw | hw) <;> cases hw; exact hg.2 v (.inr rfl)⟩
  · exact lasts_ofExcept hg

theorem lasts_enter {f : Frame} {s s' : Script Value} (h : Lasts steps n s s' (Gain p n)) :
    Lasts steps n (enter env f s) (enter env f s') (Gain p n) := by
  unfold enter
  refine lasts_get fun m => ?_
  split
  · exact lasts_set (lasts_raise (gain_error (Nat.le_refl n) nofun))
  · exact lasts_set (lasts_handle h fun k r hg => lasts_modify (lasts_ofExcept hg))

/-- A body in a frame of its own. -/
theorem lasts_enterBody (hev : Evaluator.Lasts steps n ev ev') (f : Frame) (body : Block) :
    Lasts steps n (enter env f (untilLeft (runBlock ev .nil body)))
      (enter env f (untilLeft (runBlock ev' .nil body))) (Gain Value.IsDeferred n) :=
  lasts_enter (lasts_untilLeft (lasts_body hev body))

theorem lasts_evalAll (hev : Evaluator.Lasts steps n ev ev') (ns : List Node) :
    Lasts steps n (evalAll ev ns) (evalAll ev' ns) (Since n) := by
  induction ns generalizing n with
  | nil => exact lasts_pure (Nat.le_refl n)
  | cons node ns ih =>
    refine hev.after node fun k v hk => ?_
    exact lasts_after (ih (hev.from (Nat.le_of_lt hk))) fun k' vs _ => lasts_pure (Nat.le_refl k')

theorem lasts_evalUntil (hev : Evaluator.Lasts steps n ev ev') (stop : Bool) (last : Value)
    (ns : List Node) :
    Lasts steps n (evalUntil ev stop last ns) (evalUntil ev' stop last ns) (Since n) := by
  induction ns generalizing n last with
  | nil => exact lasts_pure (Nat.le_refl n)
  | cons node ns ih =>
    refine hev.after node fun k v hk => ?_
    split
    · exact lasts_pure (Nat.le_refl k)
    · exact ih (hev.from (Nat.le_of_lt hk)) v

theorem lasts_callValue (hev : Evaluator.Lasts steps n ev ev') (callee : Value)
    (args : List Value) :
    Lasts steps n (callValue env ev callee args) (callValue env ev' callee args) (Since n) := by
  unfold callValue
  split
  · unfold callFunction
    split
    · exact lasts_raise (Nat.le_refl n)
    · exact (lasts_enterBody hev _ _).mono fun _ _ => Gain.since
  · exact lasts_native _ args
  · exact lasts_raise (Nat.le_refl n)

theorem settle_of_not_deferred {v : Value} (h : ¬ v.IsDeferred) (rounds : Nat) :
    settle env ev rounds v = pure v := by
  unfold settle
  split
  · exact absurd rfl h
  · exact absurd rfl h
  · rfl

/-- Each round but the last one polls. -/
theorem lasts_settle (hev : Evaluator.Lasts steps n ev ev') (hr : rounds ≤ rounds') {v : Value}
    (hv : v.IsDeferred → steps ≤ n + rounds) :
    Lasts steps n (settle env ev rounds v) (settle env ev' rounds' v) (Since n) := by
  induction rounds generalizing n rounds' v with
  | zero =>
    by_cases hd : v.IsDeferred
    · cases v <;> cases hd
      exact fun m => .exhausted m _ (hv rfl)
    · rw [settle_of_not_deferred hd, settle_of_not_deferred hd]
      exact lasts_pure (Nat.le_refl n)
  | succ rounds ih =>
    by_cases hd : v.IsDeferred
    · obtain ⟨rounds', rfl⟩ : ∃ r, rounds' = r + 1 := ⟨rounds' - 1, by omega⟩
      cases v <;> cases hd
      refine lasts_bind (lasts_enterBody hev _ _) (fun k w hg => ?_) fun k e hg => hg.since
      refine (ih (hev.from hg.since) (Nat.le_of_succ_le_succ hr) fun hw => ?_).mono
        fun _ _ => Nat.le_trans hg.since
      have hlt : n < k := hg.2 w (.inl rfl) hw
      have hsteps := hv rfl
      omega
    · rw [settle_of_not_deferred hd, settle_of_not_deferred hd]
      exact lasts_pure (Nat.le_refl n)

/-! ## Modules -/

theorem lasts_load (hev : Evaluator.Lasts steps n ev ev') (name : String) :
    Lasts steps n (load env ev name) (load env ev' name) (Since n) := by
  have added (k : Nat) (members : Bindings) :
      Lasts steps k (addModule name members) (addModule name members) (Since k) :=
    fun _ => .done _ (Nat.le_refl k)
  unfold load
  refine lasts_get fun m => ?_
  split
  · exact lasts_pure (Nat.le_refl n)
  · split
    · exact lasts_raise (Nat.le_refl n)
    · exact added n _
    · refine lasts_after (lasts_get fun m => lasts_set (lasts_bind (lasts_enterBody hev _ _)
        (fun k _ hg => lasts_get fun m => ?_) fun k e hg => hg.since)) fun k members _ => added k _
      split
      · exact lasts_pure hg.since
      · exact lasts_pure hg.since

/-! ## Nodes -/

theorem lasts_lookupName (name : String) :
    Lasts steps n (lookupName name) (lookupName name) (Since n) := by
  unfold lookupName
  refine lasts_get fun m => ?_
  split
  · exact lasts_pure (Nat.le_refl n)
  · exact lasts_raise (Nat.le_refl n)

theorem lasts_lookupMember (object member : String) :
    Lasts steps n (lookupMember object member) (lookupMember object member) (Since n) := by
  unfold lookupMember
  refine lasts_after (lasts_lookupName object) fun k v _ => ?_
  split
  · split
    · exact lasts_pure (Nat.le_refl k)
    · exact lasts_raise (Nat.le_refl k)
  · exact lasts_raise (Nat.le_refl k)

theorem lasts_assignName (name : String) (v : Value) :
    Lasts steps n (assignName name v) (assignName name v) (Since n) := by
  unfold assignName
  refine lasts_get fun m => ?_
  split
  · exact fun _ => .done _ (Nat.le_refl n)
  · exact lasts_raise (Nat.le_refl n)

/-- Each round polls for its condition. -/
theorem lasts_runLoop (hev : Evaluator.Lasts steps n ev ev') (hr : rounds ≤ rounds')
    (hsteps : steps ≤ n + rounds) (line : Nat) (condition : Node) (body : Block) (isFirst : Bool) :
    Lasts steps n (runLoop ev line condition body rounds isFirst)
      (runLoop ev' line condition body rounds' isFirst) (Since n) := by
  induction rounds generalizing n rounds' isFirst with
  | zero => exact fun m => .exhausted m _ hsteps
  | succ rounds ih =>
    obtain ⟨rounds', rfl⟩ : ∃ r, rounds' = r + 1 := ⟨rounds' - 1, by omega⟩
    have round : ∀ k, n ≤ k → Lasts steps k
        (do
          let c ← ev condition
          if c.isTrue then
            let _ ← runBlock ev .nil body
            runLoop ev line condition body rounds false
          else return .nil)
        (do
          let c ← ev' condition
          if c.isTrue then
            let _ ← runBlock ev' .nil body
            runLoop ev' line condition body rounds' false
          else return .nil) (Since k) := by
      intro k hk
      refine (hev.from hk).after condition fun k₁ c hk₁ => ?_
      have hn₁ : n ≤ k₁ := Nat.le_trans hk (Nat.le_of_lt hk₁)
      split
      · refine lasts_after (lasts_runBlock (hev.from hn₁) .nil body) fun k₂ _ hk₂ => ?_
        exact ih (hev.from (Nat.le_trans hn₁ hk₂)) (Nat.le_of_succ_le_succ hr) (by omega) false
      · exact lasts_pure (Nat.le_refl k₁)
    unfold runLoop
    split
    · exact lasts_after ((lasts_reportLine true line).mono fun _ _ h => h.1) fun k _ => round k
    · exact round n (Nat.le_refl n)

theorem lasts_runAttempt (hev : Evaluator.Lasts steps n ev ev') (body : Block)
    (handlers : List Handler) :
    Lasts steps n (runAttempt ev body handlers) (runAttempt ev' body handlers) (Since n) := by
  refine lasts_handle (lasts_runBlock hev .nil body) fun k r hk => ?_
  split
  · split
    · exact lasts_exit hk
    · next h _ =>
      have handled : Lasts steps k (runBlock ev .nil h.body) (runBlock ev' .nil h.body) (Since n) :=
        (lasts_runBlock (hev.from hk) .nil h.body).mono fun _ _ => Nat.le_trans hk
      split
      · exact lasts_modify handled
      · exact handled
  · exact lasts_ofExcept hk

theorem lasts_evalMessage (hev : Evaluator.Lasts steps n ev ev') (message : Option Node) :
    Lasts steps n (evalMessage ev message) (evalMessage ev' message) (Since n) := by
  cases message with
  | none => exact lasts_pure (Nat.le_refl n)
  | some node => exact hev.after node fun k v _ => lasts_pure (Q := Since k) (Nat.le_refl k)

/-- The step of the induction: a node lasts if its parts do, and its loops have steps enough. -/
theorem lasts_evalNode (hev : Evaluator.Lasts steps n ev ev') (hr : rounds ≤ rounds')
    (hsteps : steps ≤ n + rounds) (node : Node) :
    Lasts steps n (evalNode env ev rounds node) (evalNode env ev' rounds' node) (Since n) := by
  have gives (k : Nat) (v : Value) : Lasts steps k (pure v) (pure v) (Since k) :=
    lasts_pure (Nat.le_refl k)
  have bound (k : Nat) (name : String) (v : Value) : Lasts steps k
      (do
        modify fun m => m.bind name v
        return .nil)
      (do
        modify fun m => m.bind name v
        return .nil) (Since (α := Value) k) :=
    lasts_modify (gives k .nil)
  cases node with
  | literal line l => exact gives n _
  | «variable» line name => exact lasts_lookupName name
  | member line object member => exact lasts_lookupMember object member
  | bind line name value => exact hev.after value fun k v _ => bound k name v
  | assign line name value =>
    exact hev.after value fun k v _ =>
      lasts_after (lasts_assignName name v) fun k' _ _ => gives k' _
  | define line name params body file column =>
    exact lasts_get fun m => lasts_set (gives n _)
  | branch line condition taken other =>
    exact hev.after condition fun k c hk => lasts_runBlock (hev.from (Nat.le_of_lt hk)) _ _
  | loop line condition body => exact lasts_runLoop hev hr hsteps line condition body true
  | block line body => exact lasts_runBlock hev .nil body
  | leave line value =>
    cases value with
    | none => exact lasts_exit (Nat.le_refl n)
    | some value => exact hev.after value fun k v _ => lasts_exit (Nat.le_refl k)
  | load line name => exact lasts_after (lasts_load hev name) fun k v _ => bound k name v
  | defer line body => exact lasts_get fun m => lasts_set (gives n _)
  | await line value =>
    refine hev.after value fun k v hk => ?_
    exact lasts_settle (hev.from (Nat.le_of_lt hk)) hr fun _ => by omega
  | allOf line items => exact lasts_evalUntil hev _ _ items
  | anyOf line items => exact lasts_evalUntil hev _ _ items
  | raise line name message =>
    exact lasts_after (lasts_evalMessage hev message) fun k _ _ =>
      lasts_exit (Q := Since k) (Nat.le_refl k)
  | attempt line body handlers => exact lasts_runAttempt hev body handlers
  | call line callee args =>
    refine lasts_modify (hev.after callee fun k f hk => ?_)
    have hev' := hev.from (Nat.le_of_lt hk)
    refine lasts_after (lasts_evalAll hev' args) fun k' vs hk' => ?_
    exact lasts_modify (lasts_callValue (hev'.from hk') f vs)

theorem lasts_withFrames {s s' : Script Value} (h : Lasts steps n s s' (Gain p n)) :
    Lasts steps n (withFrames s) (withFrames s') (Gain p n) := by
  refine lasts_handle h fun k r hg => ?_
  split
  · split
    · exact lasts_get fun m => lasts_exit (gain_error hg.1 nofun)
    · exact lasts_exit (gain_error hg.1 nofun)
  · exact lasts_ofExcept hg

/-- An evaluation breaks off for want of steps only after as many polls as it has fuel, and with
more fuel it is the same up to there. -/
theorem eval_lasts {fuel fuel' : Nat} (hf : fuel ≤ fuel') (hsteps : steps ≤ n + fuel) :
    Evaluator.Lasts steps n (eval env fuel) (eval env fuel') := by
  induction fuel generalizing n fuel' with
  | zero => exact fun k node hk m => .exhausted m _ (Nat.le_trans hsteps hk)
  | succ fuel ih =>
    obtain ⟨fuel', rfl⟩ : ∃ f, fuel' = f + 1 := ⟨fuel' - 1, by omega⟩
    intro k node hk
    rw [eval_succ, eval_succ]
    refine lasts_withFrames (lasts_bind (Q := fun k' r => k ≤ k' ∧ (r = .ok () → k < k') ∧
      ∀ v, r ≠ .error (.leave v)) (lasts_ask (fun _ => ?_) fun _ => ?_) (fun k' _ hk' => ?_)
        fun k' e hk' => ?_)
    · exact ⟨Nat.le_succ k, fun _ => Nat.lt_succ_self k, nofun⟩
    · exact ⟨Nat.le_refl k, nofun, nofun⟩
    · have hlt : k < k' := hk'.2.1 rfl
      have hn : n + 1 ≤ k' := Nat.le_trans (Nat.succ_le_succ hk) hlt
      have hev := ih (Nat.le_of_succ_le_succ hf) (show steps ≤ n + 1 + fuel by omega)
      exact (lasts_evalNode (hev.from hn) (Nat.le_of_succ_le_succ hf) (by omega) node).mono
        fun _ _ h => gain_of_lt (Nat.lt_of_lt_of_le hlt h)
    · exact gain_error hk'.1 fun v he => hk'.2.2 v (by rw [he])

/-- A program breaks off for want of steps only after as many polls as it has fuel, and with more
fuel it is the same up to there. -/
theorem dialogue_lasts (env : Environment) (p : Program) {fuel fuel' : Nat} (hf : fuel ≤ fuel') :
    (p.dialogue env fuel).Lasts fuel (fun _ _ => True) 0 (p.dialogue env fuel') := by
  have hev : Evaluator.Lasts fuel 0 (eval env fuel) (eval env fuel') :=
    eval_lasts hf (Nat.le_of_eq (Nat.zero_add fuel).symm)
  have whole : Lasts fuel 0 (runProgram env fuel p) (runProgram env fuel' p)
      (Gain (fun _ => False) 0) := by
    refine lasts_enter (lasts_bind (lasts_untilLeft (lasts_body hev p.body)) (fun k v hg => ?_)
      fun k e hg => ⟨Nat.zero_le k, fun _ _ => False.elim⟩)
    exact (lasts_settle (hev.from (Nat.zero_le k)) hf fun _ => Nat.le_add_left fuel k).mono
      fun k' _ _ => ⟨Nat.zero_le k', fun _ _ => False.elim⟩
  exact (whole _).mono fun _ _ _ => trivial

end Lispbox
