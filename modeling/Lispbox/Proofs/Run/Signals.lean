import Lispbox.Proofs.Run.FrameStack

/-!
# Signals

A host that gives a signal stops the run there and then. No construct of the language can hold the
signal back: neither a handler of exceptions nor the end of a function, a deferred body or a module.

* `signal_ends_run`: the signal is the last thing that the host says, nothing is executed after it,
  and the run ends with it; and a run that is stopped at a callback has the callbacks up to that one
  of the run that is not stopped there.

Callbacks are the questions that a host may answer with a signal. That there are no others after a
signal is part of the judgement `Discipline.Runs`; here it is read off for a conversation.
-/
namespace Lispbox

variable {σ ρ : Type}

/-- The questions at which a host could have stopped the dialogue, in order. -/
def Dialogue.callbacks (h : Host σ) (d : Dialogue ρ) (s : σ) : List Query :=
  ((d.exchanges h s).map Exchange.query).filter Query.mayStop

/-- Answers as the host does, but the callback of the number `n`, counted from 0, with a signal. The
number of callbacks so far is part of the state. -/
def Host.stopAt (h : Host σ) (n : Nat) (sig : Signal) : Host (Nat × σ) where
  reply t q :=
    if q.mayStop then
      if t.1 = n then (.error sig, t) else ((h.reply t.2 q).1, t.1 + 1, (h.reply t.2 q).2)
    else ((h.reply t.2 q).1, t.1, (h.reply t.2 q).2)

namespace Dialogue

variable {asks : Machine → Query → Prop} {aborts : Abort → Prop}
  {ends : Option Stopped → ρ → Machine → Prop}

theorem callbacks_ask (h : Host σ) (m : Machine) (q : Query)
    (resume : Except Signal q.Answer → Dialogue ρ) (s : σ) :
    (ask m q resume).callbacks h s =
      if q.mayStop then q :: (resume (h.reply s q).1).callbacks h (h.reply s q).2
      else (resume (h.reply s q).1).callbacks h (h.reply s q).2 := by
  unfold callbacks
  rw [exchanges_ask, List.map_cons, List.filter_cons]

theorem callbacks_after_stop {d : Dialogue ρ} {st : Stopped}
    (hd : d.Every asks aborts ends (some st)) (h : Host σ) (s : σ) : d.callbacks h s = [] := by
  simp [callbacks, (every_after_stop hd h s).1]

/-- The callbacks of a dialogue that is stopped at one of them; `k` callbacks have been before. -/
theorem callbacks_stopAt {d : Dialogue ρ} (hd : d.Every asks aborts ends none) (h : Host σ)
    (n : Nat) (sig : Signal) {k : Nat} (hk : k ≤ n) (s : σ) :
    d.callbacks (h.stopAt n sig) (k, s) = (d.callbacks h s).take (n + 1 - k) := by
  induction d generalizing k s with
  | done r m => simp [callbacks, exchanges]
  | abort a m => simp [callbacks, exchanges]
  | ask m q resume ih =>
    obtain ⟨-, -, hok, hstop⟩ := hd
    have hlen : n + 1 - k = n - k + 1 := by omega
    rw [callbacks_ask, callbacks_ask]
    by_cases hq : q.mayStop
    · by_cases hn : k = n
      · have hreply : (h.stopAt n sig).reply (k, s) q = (.error sig, k, s) := by
          simp only [Host.stopAt, hq, hn, ↓reduceIte]
        rw [hreply, if_pos hq, if_pos hq, callbacks_after_stop (hstop sig), hlen,
          List.take_succ_cons, hn, Nat.sub_self, List.take_zero]
      · have hreply : (h.stopAt n sig).reply (k, s) q =
            ((h.reply s q).1, k + 1, (h.reply s q).2) := by
          simp only [Host.stopAt, hq, hn, ↓reduceIte]
        rw [hreply, if_pos hq, if_pos hq, hlen, List.take_succ_cons]
        congr 1
        cases hr : (h.reply s q).1 with
        | ok a =>
          have hle : k + 1 ≤ n := by omega
          rw [ih _ (hok a) hle, Nat.add_sub_add_right]
        | error sig' =>
          rw [callbacks_after_stop (hstop sig'), callbacks_after_stop (hstop sig'), List.take_nil]
    · have hreply : (h.stopAt n sig).reply (k, s) q = ((h.reply s q).1, k, (h.reply s q).2) := by
        simp only [Host.stopAt, hq, Bool.false_eq_true, ↓reduceIte]
      rw [hreply, if_neg hq, if_neg hq]
      cases hr : (h.reply s q).1 with
      | ok a => exact ih _ (hok a) hk _
      | error sig' =>
        rw [callbacks_after_stop (hstop sig'), callbacks_after_stop (hstop sig'), List.take_nil]

end Dialogue

open Discipline

/-- A script that is stopped ends with the signal, and nothing is asked after it. -/
theorem Discipline.Runs.stopped {D : Discipline} {α : Type} {K : Machine → Prop}
    {Q : Machine → α → Prop} {s : Script α} {m : Machine} (hs : D.Runs s K Q m) {h : Host σ} {t : σ}
    {before after : List Exchange} {x : Exchange} {sig : Signal}
    (hx : (s m).exchanges h t = before ++ x :: after) (hr : x.reply = .error sig) :
    after = [] ∧ ∃ m' t', (s m).run h t = (.ok (.error (.stop sig)), m', t') ∧ K m' ∧
      x.machine.Unwound m' := by
  obtain ⟨hafter, r, hrun, hv⟩ := Dialogue.every_exchanges hs h t hx hr
  refine ⟨hafter, ((s m).run h t).2.1, ((s m).run h t).2.2, ?_⟩
  match r, hv with
  | .error (.stop sig'), ⟨hk, hsig, hu⟩ =>
    simp only at hsig
    subst hsig
    exact ⟨by rw [← hrun], hk, hu⟩

theorem runProgram_free (env : Environment) (fuel : Nat) (p : Program) :
    free.Runs (runProgram env fuel p) (Machine.start p).Untouched free.Valid (.start p) :=
  runs_runProgram (free_lawful env) (free_sound _) trivial (fun _ _ => trivial) fuel

/-- A signal is the last thing that a host says. Nothing is executed after it, in an evaluation
anywhere in the run: since the moment of the signal some frames were left, and nothing else has
changed. The run ends with the signal, and its callbacks are those that the run without the signal
begins with. -/
theorem signal_ends_run (h : Host σ) (env : Environment) (fuel : Nat) (s : σ) :
    (∀ n m before x after sig, (eval env fuel n m).exchanges h s = before ++ x :: after →
      x.reply = .error sig → after = [] ∧ ∃ m' s',
        (eval env fuel n m).run h s = (.ok (.error (.stop sig)), m', s') ∧ x.machine.Unwound m' ∧
        m'.frames.length = m.frames.length) ∧
    ∀ p : Program,
      (∀ before x after sig, (p.dialogue env fuel).exchanges h s = before ++ x :: after →
        x.reply = .error sig → after = [] ∧ ∃ m' s',
          p.run h env fuel s = (.stopped sig, m', s') ∧ x.machine.Unwound m' ∧ m'.frames = []) ∧
      ∀ n sig, (p.dialogue env fuel).callbacks (h.stopAt n sig) (0, s) =
        ((p.dialogue env fuel).callbacks h s).take (n + 1) := by
  constructor
  · intro n m before x after sig hx hr
    have hev := eval_evaluates (free_lawful env) fuel n m (free_sound m) trivial
    obtain ⟨hafter, m', s', hrun, hk, hu⟩ := hev.stopped hx hr
    exact ⟨hafter, m', s', hrun, hu, hk.length⟩
  · intro p
    have hp := runProgram_free env fuel p
    constructor
    · intro before x after sig hx hr
      obtain ⟨hafter, m', s', hrun, hk, hu⟩ := hp.stopped hx hr
      refine ⟨hafter, m', s', ?_, hu, hk.frames⟩
      unfold Program.run Program.dialogue
      rw [hrun]
      rfl
    · intro n sig
      exact Dialogue.callbacks_stopAt hp h n sig (Nat.zero_le n) s

namespace Signals

/-- Reads a name under a handler of everything. -/
def guarded : Node := .attempt 1 [.variable 1 "x"] [⟨none, some "x", []⟩]

def program : Program := ⟨"main", "", [guarded]⟩

def env : Environment := ⟨.standard, 9⟩

/-- The host interrupts when the name is to be read. -/
def stopping : Host (Nat × Unit) := Host.obliging.stopAt 2 .interrupt

/-- The handler catches everything, but not the signal. -/
theorem signal_ends_run_guarded :
    (∃ m' s', (eval env 9 guarded FrameStack.inFunction).run stopping (0, ()) =
        (.ok (.error (.stop .interrupt)), m', s') ∧ m'.frames.length = 2) ∧
      ∃ m' s', program.run stopping env 9 (0, ()) = (.stopped .interrupt, m', s') ∧
        m'.frames = [] := by
  have stops := signal_ends_run stopping env 9 (0, ())
  constructor
  · obtain ⟨before, x, hx, hr⟩ : ∃ before x,
        (eval env 9 guarded FrameStack.inFunction).exchanges stopping (0, ()) = before ++ [x] ∧
          x.reply = .error .interrupt := ⟨[_, _], _, rfl, rfl⟩
    obtain ⟨-, m', s', hrun, -, hlen⟩ := stops.1 _ _ before x [] .interrupt hx hr
    exact ⟨m', s', hrun, hlen⟩
  · obtain ⟨before, x, hx, hr⟩ : ∃ before x,
        (program.dialogue env 9).exchanges stopping (0, ()) = before ++ [x] ∧
          x.reply = .error .interrupt := ⟨[_, _], _, rfl, rfl⟩
    obtain ⟨-, m', s', hrun, -, hnil⟩ := (stops.2 program).1 before x [] .interrupt hx hr
    exact ⟨m', s', hrun, hnil⟩

end Signals
end Lispbox
