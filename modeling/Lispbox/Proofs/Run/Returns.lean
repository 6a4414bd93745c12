import Lispbox.Proofs.Run.Depth
import Lispbox.Proofs.Run.FrameStack
import Lispbox.Proofs.Run.Fuel
import Lispbox.Proofs.Run.Jumps

/-!
# Where returns end

A return ends the body that it is executed in. The body of a function, a deferred body and the body
of a module are executed in a frame of their own, and the script that does so never ends with a body
that is left, whatever the evaluator of the statements does (`Script.Stays`). So nobody outside sees
the return, and the frame in which the call, the await or the import was executed goes on as after a
value. In between, a return skips what is left of arguments, loops, handlers and blocks, as a jump
out of all of them would (`Lispbox.Proofs.Run.Jumps`).

The main program is a body as well, and its value is awaited. A run that has a value has it from the
last statement or from one that left the program (`Finishes`).

* `stays_callValue`, `stays_settle`, `stays_load`: calls, awaits and imports are not left.
* `finishes_of_run`: how a block comes to a value or is left with one.
* `return_ends_body`: a return ends one body.
-/
namespace Lispbox
open Script

/-! ## Scripts that are not left -/

namespace Script

variable {α β : Type}

/-- The script does not end with a body that is left. -/
def Stays (s : Script α) : Prop :=
  ∀ m, (s m).Until (fun _ => False) (fun _ => True) fun r _ => ∀ v, r ≠ .error (.leave v)

theorem Stays.run {σ : Type} {s : Script α} (hs : Stays s) {h : Host σ} {m m' : Machine}
    {t t' : σ} {r : Except Exit α} (hr : (s m).run h t = (.ok r, m', t')) (v : Value) :
    r ≠ .error (.leave v) := by
  have hend := (hs m).run h t fun _ _ => id
  rw [hr] at hend
  exact hend v

theorem stays_ok (a : α) : Stays (ofExcept (.ok a)) := fun _ => nofun

theorem stays_raise (c : Cause) : Stays (raise c : Script α) := fun _ => nofun

theorem stays_ask (q : Query) : Stays (ask q) := by
  refine fun m => ⟨trivial, fun _ a => ?_⟩
  cases a <;> exact nofun

theorem stays_bind {s : Script α} {f : α → Script β} (hs : Stays s) (hf : ∀ a, Stays (f a)) :
    Stays (s >>= f) := by
  refine fun m => .bind ((hs m).mono (fun _ h => h) fun r m' hr => ?_)
  cases r with
  | ok a => exact hf a m'
  | error e => exact fun v hv => hr v (by cases hv; rfl)

/-- Every dialogue comes to some end. -/
theorem until_any {ρ : Type} (d : Dialogue ρ) :
    d.Until (fun _ => False) (fun _ => True) fun _ _ => True := by
  induction d with
  | done r m => trivial
  | abort a m => trivial
  | ask m q resume ih => exact ⟨trivial, fun _ a => ih a⟩

/-- Whoever looks at the end of a script decides what becomes of it. -/
theorem stays_handle {s : Script α} {k : Except Exit α → Script β} (hk : ∀ r, Stays (k r)) :
    Stays (outcome s >>= k) := by
  intro m
  change (Dialogue.bind ((s m).bind _) _).Until _ _ _
  rw [Dialogue.bind_assoc]
  exact .bind ((until_any (s m)).mono (fun _ h => h) fun r m' _ => hk r m')

theorem stays_untilLeft (s : Script Value) : Stays (untilLeft s) := by
  refine stays_handle fun r => ?_
  cases r with
  | ok v => exact stays_ok v
  | error e =>
    cases e with
    | raise e => exact fun _ => nofun
    | leave v => exact stays_ok v
    | stop s => exact fun _ => nofun

theorem stays_enter {env : Environment} {f : Frame} {s : Script Value} (hs : Stays s) :
    Stays (enter env f s) := by
  intro m
  rcases Nat.lt_or_ge m.frames.length env.depth with hroom | hfull
  · rw [enter_room hroom]
    exact .bind ((hs _).mono (fun _ h => h) fun _ _ hr => hr)
  · rw [enter_full hfull]
    exact stays_raise _ _

theorem stays_talk {asks : Query → Prop} {s : Script α} (h : s.Talks asks) : Stays s := by
  induction h with
  | pure a => exact stays_ok a
  | raise c => exact stays_raise c
  | crash reason => exact fun _ => trivial
  | ask _ _ ih => exact stays_bind (stays_ask _) ih

end Script

section

variable {env : Environment} {ev : Evaluator}

theorem stays_callValue (callee : Value) (args : List Value) :
    Stays (callValue env ev callee args) := by
  unfold callValue
  split
  · unfold callFunction
    split
    · exact stays_raise _
    · exact stays_enter (stays_untilLeft _)
  · exact stays_talk (Native.talks_call _ args)
  · exact stays_raise _

theorem stays_settle (rounds : Nat) (v : Value) : Stays (settle env ev rounds v) := by
  fun_induction settle env ev rounds v with
  | case1 => exact fun _ => trivial
  | case2 rounds serial body locals file scope ih =>
    exact stays_bind (stays_enter (stays_untilLeft _)) ih
  | case3 rounds v => exact stays_ok v

theorem stays_load (name : String) : Stays (load env ev name) := by
  intro m
  have hcases := load_cases env ev name m
  generalize load env ev name m = d at hcases
  cases hcases with
  | known => exact nofun
  | missing => exact stays_raise _ m
  | native => exact nofun
  | refused => exact stays_raise _ _
  | script =>
    refine .bind ((stays_untilLeft _ _).mono (fun _ h => h) fun r m₁ hr => ?_)
    cases r with
    | ok v => exact nofun
    | error e => exact fun v hv => hr v (by cases hv; rfl)

theorem stays_reportLine (always : Bool) (line : Nat) : Stays (reportLine always line) := by
  refine stays_bind (fun _ => nofun) fun m => ?_
  split
  · exact stays_ok ()
  · split
    · exact fun _ => nofun
    · exact stays_bind (fun _ => nofun) fun _ => stays_ask _

end

/-- Without a frame too many, a body that is left goes on as one that has the value. -/
theorem Machine.Begins.left {env : Environment} {ev : Evaluator} {m m₀ : Machine}
    {s : Script Value} {f : Frame} {body : Block} (hb : m.Begins env ev s f body m₀)
    (hroom : m.frames.length < env.depth) :
    ∃ after, s m = (runBlock ev .nil body (m₀.push f)).bind after ∧
      ∀ v m₁, after (.error (.leave v)) m₁ = after (.ok v) m₁ := by
  obtain ⟨after, hs, -⟩ := hb.entered hroom
  refine ⟨_, hs.trans ((congrArg (Dialogue.bind · after) (Dialogue.bind_assoc _ _ _)).trans
    (Dialogue.bind_assoc _ _ _)), fun v m₁ => rfl⟩

/-! ## Conversations -/

section

variable {σ α β : Type} {h : Host σ} {m m' : Machine} {t t' : σ} {env : Environment}
  {ev : Evaluator}

/-- A conversation of one script after another. -/
theorem Script.run_bind_cases {s : Script α} {f : α → Script β} {r : Except Exit β}
    (hrun : ((s >>= f) m).run h t = (.ok r, m', t')) :
    (∃ a m₁ t₁, (s m).run h t = (.ok (.ok a), m₁, t₁) ∧
      (f a m₁).run h t₁ = (.ok r, m', t')) ∨
    ∃ e, r = .error e ∧ (s m).run h t = (.ok (.error e), m', t') := by
  change ((s m).bind _).run h t = _ at hrun
  rw [Dialogue.run_bind] at hrun
  generalize (s m).run h t = result at hrun ⊢
  obtain ⟨_ | (e | a), m₁, t₁⟩ := result
  · cases hrun
  · cases hrun
    exact .inr ⟨e, rfl, rfl⟩
  · exact .inl ⟨a, m₁, t₁, rfl, hrun⟩

/-- What is settled is not deferred. -/
theorem not_deferred_of_settle {rounds : Nat} {u v : Value}
    (hrun : (settle env ev rounds u m).run h t = (.ok (.ok v), m', t')) : ¬ v.IsDeferred := by
  induction rounds generalizing u m t with
  | zero =>
    by_cases hu : u.IsDeferred
    · cases u <;> cases hu
      cases hrun
    · rw [settle_of_not_deferred hu] at hrun
      cases hrun
      exact hu
  | succ rounds ih =>
    by_cases hu : u.IsDeferred
    · cases u <;> cases hu
      obtain ⟨w, m₁, t₁, -, hrest⟩ | ⟨e, he, -⟩ := run_bind_cases hrun
      · exact ih hrest
      · cases he
    · rw [settle_of_not_deferred hu] at hrun
      cases hrun
      exact hu

/-- The statements before one have been executed, and its line was reported. -/
def Comes (ev : Evaluator) (h : Host σ) (last : Value) (before : Block) (n : Node) (m : Machine)
    (t : σ) (m' : Machine) (t' : σ) : Prop :=
  ∃ v m₁ t₁, (runBlock ev last before m).run h t = (.ok (.ok v), m₁, t₁) ∧
    (reportLine false n.line m₁).run h t₁ = (.ok (.ok ()), m', t')

/-- How a block comes to a value: it has none of its own, its last statement has it, or a statement
left it with the value. -/
inductive Finishes (ev : Evaluator) (h : Host σ) (last : Value) (ns : Block) (m : Machine) (t : σ)
    (u : Value) (m' : Machine) (t' : σ) : Prop where
  | empty (hns : ns = []) (hu : u = last) (hm : m' = m) (ht : t' = t)
  | value (before : Block) {n : Node} {m₂ : Machine} {t₂ : σ} (hns : ns = before ++ [n])
    (hcomes : Comes ev h last before n m t m₂ t₂)
    (hn : (ev n m₂).run h t₂ = (.ok (.ok u), m', t'))
  | left (before : Block) {n : Node} {after : Block} {m₂ : Machine} {t₂ : σ}
    (hns : ns = before ++ n :: after) (hcomes : Comes ev h last before n m t m₂ t₂)
    (hn : (ev n m₂).run h t₂ = (.ok (.error (.leave u)), m', t'))

theorem Finishes.cons {last v u : Value} {n : Node} {ns : Block} {m₁ m₂ : Machine} {t₁ t₂ : σ}
    (hline : (reportLine false n.line m).run h t = (.ok (.ok ()), m₁, t₁))
    (hn : (ev n m₁).run h t₁ = (.ok (.ok v), m₂, t₂))
    (hrest : Finishes ev h v ns m₂ t₂ u m' t') : Finishes ev h last (n :: ns) m t u m' t' := by
  have hcomes {before n' m₃ t₃} (hc : Comes ev h v before n' m₂ t₂ m₃ t₃) :
      Comes ev h last (n :: before) n' m t m₃ t₃ := by
    obtain ⟨w, m₄, t₄, hbefore, hline'⟩ := hc
    refine ⟨w, m₄, t₄, ?_, hline'⟩
    change ((reportLine false n.line m).bind _).run h t = _
    rw [Dialogue.run_bind, hline]
    change ((ev n m₁).bind _).run h t₁ = _
    rw [Dialogue.run_bind, hn]
    exact hbefore
  cases hrest with
  | empty hns hu hm ht =>
    subst hns hu hm ht
    exact .value [] rfl ⟨last, m, t, rfl, hline⟩ hn
  | value before hns hc hn' =>
    exact .value (n :: before) (congrArg (List.cons n) hns) (hcomes hc) hn'
  | left before hns hc hn' =>
    exact .left (n :: before) (congrArg (List.cons n) hns) (hcomes hc) hn'

/-- By induction on the statements: the first of them has a value and the others finish, or it
leaves the block. -/
theorem finishes_of_run {last u : Value} {ns : Block} {r : Except Exit Value}
    (hrun : (runBlock ev last ns m).run h t = (.ok r, m', t'))
    (hr : r = .ok u ∨ r = .error (.leave u)) : Finishes ev h last ns m t u m' t' := by
  induction ns generalizing last m t with
  | nil =>
    cases hrun
    rcases hr with hr | hr <;> cases hr
    exact .empty rfl rfl rfl rfl
  | cons n ns ih =>
    obtain ⟨_, m₁, t₁, hline, hrun⟩ | ⟨e, rfl, hline⟩ := run_bind_cases hrun
    · obtain ⟨v, m₂, t₂, hn, hrest⟩ | ⟨e, rfl, hn⟩ := run_bind_cases hrun
      · exact .cons hline hn (ih hrest)
      · rcases hr with hr | hr <;> cases hr
        exact .left [] rfl ⟨last, m, t, rfl, hline⟩ hn
    · rcases hr with hr | hr <;> cases hr
      exact absurd rfl ((stays_reportLine _ _).run hline u)

theorem run_untilLeft {s : Script Value} {u : Value}
    (hrun : (untilLeft s m).run h t = (.ok (.ok u), m', t')) :
    ∃ r, (s m).run h t = (.ok r, m', t') ∧ (r = .ok u ∨ r = .error (.leave u)) := by
  change (((s m).bind _).bind _).run h t = _ at hrun
  rw [Dialogue.bind_assoc, Dialogue.run_bind] at hrun
  generalize (s m).run h t = result at hrun ⊢
  obtain ⟨_ | (e | v), m₁, t₁⟩ := result
  · cases hrun
  · cases e with
    | raise e => cases hrun
    | leave v =>
      cases hrun
      exact ⟨_, rfl, .inr rfl⟩
    | stop s => cases hrun
  · cases hrun
    exact ⟨_, rfl, .inl rfl⟩

theorem run_enter {f : Frame} {s : Script Value} {v : Value}
    (hrun : (enter env f s m).run h t = (.ok (.ok v), m', t')) :
    ∃ m₁, (s (m.push f)).run h t = (.ok (.ok v), m₁, t') ∧ m' = m₁.pop := by
  rcases Nat.lt_or_ge m.frames.length env.depth with hroom | hfull
  · rw [enter_room hroom, Dialogue.run_bind] at hrun
    generalize (s (m.push f)).run h t = result at hrun ⊢
    obtain ⟨_ | r, m₁, t₁⟩ := result
    · cases hrun
    · cases hrun
      exact ⟨m₁, rfl, rfl⟩
  · rw [enter_full hfull] at hrun
    cases hrun

theorem stays_runProgram (env : Environment) (fuel : Nat) (p : Program) :
    Stays (runProgram env fuel p) :=
  stays_enter (stays_bind (stays_untilLeft _) fun v => stays_settle fuel v)

/-- The value of a program is what its body came to, settled. -/
theorem settled_of_runProgram {fuel : Nat} {p : Program} {v : Value}
    (hrun : (runProgram env fuel p m).run h t = (.ok (.ok v), m', t')) :
    ∃ u m₁ m₂ t₁,
      Finishes (eval env fuel) h .nil p.body (m.push ⟨"<module>", p.file, 1, none, none, 0⟩) t
        u m₁ t₁ ∧
      (settle env (eval env fuel) fuel u m₁).run h t₁ = (.ok (.ok v), m₂, t') ∧ m' = m₂.pop := by
  obtain ⟨m₂, hmain, hpop⟩ := run_enter hrun
  obtain ⟨u, m₁, t₁, hbody, hsettle⟩ | ⟨e, he, -⟩ := run_bind_cases hmain
  · obtain ⟨r, hblock, hr⟩ := run_untilLeft hbody
    exact ⟨u, m₁, m₂, t₁, finishes_of_run hblock hr, hsettle, hpop⟩
  · cases he

end

theorem RunEnd.ok_of_returned {r : Except Exit Value} {v : Value}
    (h : RunEnd.ofResult (.ok r) = .ended (.returned v)) (hstays : r ≠ .error (.leave v)) :
    r = .ok v := by
  cases r with
  | ok w =>
    cases h
    rfl
  | error e =>
    cases e with
    | raise e => cases h
    | leave w =>
      cases h
      exact absurd rfl hstays
    | stop s => cases h

open Discipline in
/-- A return ends one body, and nothing more.

However the conversation of a call, an await or an import ends, it is not with a body that is left,
and the frames are those from before. If the body begins, it goes on in the same way with the value
that it is left with as with a value of its own. Inside, returns are jumps: the evaluator and the
program do what `jump` does, which goes to the end of the nearest body.

A run that has a value does not have it from a body that is left; the value is not deferred, and it
is what the last statement came to, or what a statement left the program with, settled in the frame
of the program. -/
theorem return_ends_body (env : Environment) (fuel : Nat) :
    (∀ {σ : Type} (h : Host σ) (rounds : Nat) (m m' : Machine) (t t' : σ)
        (r : Except Exit Value),
      (∃ callee args, (callValue env (eval env fuel) callee args m).run h t = (.ok r, m', t')) ∨
        (∃ v, (settle env (eval env fuel) rounds v m).run h t = (.ok r, m', t')) ∨
        (∃ name, (load env (eval env fuel) name m).run h t = (.ok r, m', t')) →
      (∀ v, r ≠ .error (.leave v)) ∧ m'.frames = m.frames) ∧
    (∀ (m : Machine) (s : Script Value) (f : Frame) (body : Block) (m₀ : Machine),
      m.Begins env (eval env fuel) s f body m₀ → m.frames.length < env.depth →
      ∃ after, s m = (runBlock (eval env fuel) .nil body (m₀.push f)).bind after ∧
        ∀ v m₁, after (.error (.leave v)) m₁ = after (.ok v) m₁) ∧
    (∀ {τ : Type} (n : Node) (w : Routes Value τ), (eval env fuel n).routed w = jump env fuel n w) ∧
    (∀ {τ : Type} (p : Program) (w : Routes Value τ),
      (runProgram env fuel p).routed w = p.jump env fuel w) ∧
    ∀ {σ : Type} (h : Host σ) (p : Program) (m m' : Machine) (t t' : σ) (r : Except Exit Value),
      (runProgram env fuel p m).run h t = (.ok r, m', t') →
      (∀ v, r ≠ .error (.leave v)) ∧
      ∀ v, RunEnd.ofResult (.ok r) = .ended (.returned v) → ¬ v.IsDeferred ∧
        ∃ u m₁ m₂ t₁,
          Finishes (eval env fuel) h .nil p.body (m.push ⟨"<module>", p.file, 1, none, none, 0⟩) t
            u m₁ t₁ ∧
          (settle env (eval env fuel) fuel u m₁).run h t₁ = (.ok (.ok v), m₂, t') ∧
          m' = m₂.pop := by
  refine ⟨fun h rounds m m' t t' r hrun => ?_, fun m s f body m₀ hb hroom => hb.left hroom,
    fun n w => routed_eval env fuel n w, fun p w => routed_runProgram env fuel p w,
    fun h p m m' t t' r hrun => ?_⟩
  · have hD := free_lawful env
    have hev := eval_evaluates hD fuel
    have hm := free_sound m
    obtain ⟨callee, args, hcall⟩ | ⟨v, hsettle⟩ | ⟨name, hload⟩ := hrun
    · have hargs : ∀ v ∈ args, free.Valid m v := fun v _ => free_valid m v
      exact ⟨(stays_callValue callee args).run hcall,
        ((runs_callValue hD hev hm (free_valid m callee) hargs).state hcall).frames⟩
    · exact ⟨(stays_settle rounds v).run hsettle,
        ((runs_settle hD hev hm (free_valid m v) rounds).state hsettle).frames⟩
    · exact ⟨(stays_load name).run hload, ((runs_load hD hev hm 0 trivial).state hload).frames⟩
  · have hstays := (stays_runProgram env fuel p).run hrun
    refine ⟨hstays, fun v hv => ?_⟩
    obtain rfl := RunEnd.ok_of_returned hv (hstays v)
    obtain ⟨u, m₁, m₂, t₁, hfinishes, hsettle, hpop⟩ := settled_of_runProgram hrun
    exact ⟨not_deferred_of_settle hsettle, u, m₁, m₂, t₁, hfinishes, hsettle, hpop⟩

namespace Returns

/-- A body that returns its argument from an argument in a body with a handler in a loop. -/
def body : Block :=
  [.loop 1 (.literal 1 (.bool true))
    [.attempt 1 [.call 1 (.variable 1 "not") [.leave 1 (some (.variable 1 "x"))]]
      [⟨none, none, [.literal 1 .nil]⟩]],
    .literal 1 .nil]

def callee : Value := .function ⟨"f", ["x"], body, "main", 1, 1⟩ .program 0

/-- The program goes on behind a call, and returns a deferred body that returns a value. -/
def program : Program :=
  ⟨"main", "", [.define 1 "f" ["x"] body "main" 1,
    .call 2 (.variable 2 "f") [.literal 2 (.bool true)],
    .leave 3 (some (.defer 3 [.leave 3 (some (.literal 3 (.bool false)))])),
    .literal 4 .nil]⟩

def env : Environment := ⟨.standard, 9⟩

theorem begins_callee (m : Machine) (v : Value) :
    m.Begins env (eval env 9) (callValue env (eval env 9) callee [v])
      ⟨"f", "main", 1, none, some [("x", v)], 0⟩ body m :=
  .call (d := ⟨"f", ["x"], body, "main", 1, 1⟩) rfl

theorem return_ends_body_nested :
    (∃ m', (callValue env (eval env 9) callee [.nil] (.enterMain program)).run .obliging () =
      (.ok (.ok .nil), m', ()) ∧ m'.frames = (Machine.enterMain program).frames) ∧
    (∃ after, callValue env (eval env 9) callee [.nil] (.enterMain program) =
      (runBlock (eval env 9) .nil body
        ((Machine.enterMain program).push ⟨"f", "main", 1, none, some [("x", .nil)], 0⟩)).bind
          after) ∧
    ∃ m', (runProgram env 9 program (.start program)).run .obliging () =
      (.ok (.ok (.bool false)), m', ()) ∧ ¬ (Value.bool false).IsDeferred := by
  obtain ⟨hcall, hbegins, -, -, hprogram⟩ := return_ends_body env 9
  refine ⟨⟨_, rfl, ?_⟩, ?_, ⟨_, rfl, ?_⟩⟩
  · exact (hcall .obliging 9 _ _ () () _ (.inl ⟨callee, [.nil], rfl⟩)).2
  · obtain ⟨after, hs, -⟩ := hbegins _ _ _ _ _ (begins_callee (.enterMain program) .nil) (by decide)
    exact ⟨after, hs⟩
  · exact ((hprogram .obliging program (.start program) _ () () (.ok (.bool false)) rfl).2 _ rfl).1

end Returns
end Lispbox
