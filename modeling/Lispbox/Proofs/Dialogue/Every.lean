import Lispbox.Run.Host

/-!
# What holds on every course of a dialogue

A dialogue is a tree: at every question it goes on in one way for each answer and each signal.
`Dialogue.Every` requires something of all its courses at once:

* every question satisfies `asks`, in the state in which it is asked;
* after a signal there is no question and no abort, so the dialogue is over;
* a reason to break off satisfies `aborts`;
* a result satisfies `ends`, together with the state at the end and the signal that was given, if
  one was (`Stopped`: the signal and the state of the run at that time).

The rule for `Dialogue.bind` computes `Every` from the parts of a dialogue (`every_bind`).
`every_exchanges` carries it over to a conversation with a host: what was asked and answered, in
order, is `Dialogue.exchanges`.
-/
namespace Lispbox

/-- A signal that was given, and the state of the run at that time. -/
structure Stopped where
  signal : Signal
  machine : Machine

/-- A question with the state in which it was asked, and what the host said. -/
structure Exchange where
  machine : Machine
  query : Query
  reply : Except Signal query.Answer

namespace Dialogue

variable {ρ τ σ : Type}

/-- What a dialogue and a host say to each other. -/
def exchanges (h : Host σ) : Dialogue ρ → σ → List Exchange
  | .done _ _, _ => []
  | .abort _ _, _ => []
  | .ask m q resume, s =>
    ⟨m, q, (h.reply s q).1⟩ :: (resume (h.reply s q).1).exchanges h (h.reply s q).2

theorem exchanges_ask (h : Host σ) (m : Machine) (q : Query)
    (resume : Except Signal q.Answer → Dialogue ρ) (s : σ) :
    (ask m q resume).exchanges h s =
      ⟨m, q, (h.reply s q).1⟩ :: (resume (h.reply s q).1).exchanges h (h.reply s q).2 := rfl

/-- All courses of the dialogue are as required (see the module doc). -/
def Every (asks : Machine → Query → Prop) (aborts : Abort → Prop)
    (ends : Option Stopped → ρ → Machine → Prop) : Option Stopped → Dialogue ρ → Prop
  | g, .done r m => ends g r m
  | g, .abort a _ => g = none ∧ aborts a
  | g, .ask m q resume =>
    g = none ∧ asks m q ∧ (∀ a, (resume (.ok a)).Every asks aborts ends none) ∧
      ∀ s, (resume (.error s)).Every asks aborts ends (some ⟨s, m⟩)

variable {asks : Machine → Query → Prop} {aborts : Abort → Prop}

theorem Every.mono {ends ends' : Option Stopped → ρ → Machine → Prop}
    (h : ∀ g r m, ends g r m → ends' g r m) {d : Dialogue ρ} {g : Option Stopped}
    (hd : d.Every asks aborts ends g) : d.Every asks aborts ends' g := by
  induction d generalizing g with
  | done r m => exact h _ _ _ hd
  | abort a m => exact hd
  | ask m q resume ih =>
    obtain ⟨hg, ha, hok, hstop⟩ := hd
    exact ⟨hg, ha, fun a => ih _ (hok a), fun s => ih _ (hstop s)⟩

theorem every_bind {ends : Option Stopped → τ → Machine → Prop} {d : Dialogue ρ}
    {f : ρ → Machine → Dialogue τ} {g : Option Stopped} :
    (d.bind f).Every asks aborts ends g ↔
      d.Every asks aborts (fun g r m => (f r m).Every asks aborts ends g) g := by
  induction d generalizing g with
  | done r m => exact Iff.rfl
  | abort a m => exact Iff.rfl
  | ask m q resume ih =>
    exact and_congr_right fun _ => and_congr_right fun _ =>
      and_congr (forall_congr' fun a => ih _) (forall_congr' fun s => ih _)

/-- A signal is given in answer to a question. -/
theorem Every.signalled {ends : Option Stopped → ρ → Machine → Prop} {d : Dialogue ρ}
    {g : Option Stopped} (hd : d.Every asks aborts ends g)
    (hg : ∀ st, g = some st → ∃ q, asks st.machine q) :
    d.Every asks aborts
      (fun g r m => ends g r m ∧ ∀ st, g = some st → ∃ q, asks st.machine q) g := by
  induction d generalizing g with
  | done r m => exact ⟨hd, hg⟩
  | abort a m => exact hd
  | ask m q resume ih =>
    obtain ⟨hnone, ha, hok, hstop⟩ := hd
    refine ⟨hnone, ha, fun a => ih _ (hok a) (by rintro _ ⟨⟩), fun s => ih _ (hstop s) ?_⟩
    rintro st ⟨⟩
    exact ⟨q, ha⟩

/-! ## Conversations -/

/-- The questions of a conversation. -/
theorem every_asked {ends : Option Stopped → ρ → Machine → Prop} {d : Dialogue ρ}
    {g : Option Stopped} (hd : d.Every asks aborts ends g) (h : Host σ) (s : σ) :
    ∀ x ∈ d.exchanges h s, asks x.machine x.query := by
  induction d generalizing g s with
  | done r m => simp [exchanges]
  | abort a m => simp [exchanges]
  | ask m q resume ih =>
    obtain ⟨-, ha, hok, hstop⟩ := hd
    rw [exchanges_ask]
    refine List.forall_mem_cons.mpr ⟨ha, ?_⟩
    cases (h.reply s q).1 with
    | ok a => exact ih _ (hok a) _
    | error sig => exact ih _ (hstop sig) _

/-- A dialogue that is over has asked nothing, and ended with its signal. -/
theorem every_after_stop {ends : Option Stopped → ρ → Machine → Prop} {d : Dialogue ρ}
    {st : Stopped} (hd : d.Every asks aborts ends (some st)) (h : Host σ) (s : σ) :
    d.exchanges h s = [] ∧ ∃ r m, d.run h s = (.ok r, m, s) ∧ ends (some st) r m := by
  cases d with
  | done r m => exact ⟨rfl, r, m, rfl, hd⟩
  | abort a m => exact absurd hd.1 (by simp)
  | ask m q resume => exact absurd hd.1 (by simp)

/-- The result of a conversation: the signal is the one of the last exchange. -/
theorem every_run {ends : Option Stopped → ρ → Machine → Prop} {d : Dialogue ρ}
    (hd : d.Every asks aborts ends none) (h : Host σ) (s : σ) :
    match (d.run h s).1 with
    | .ok r => ∃ g, ends g r (d.run h s).2.1
    | .error a => aborts a := by
  induction d generalizing s with
  | done r m => exact ⟨none, hd⟩
  | abort a m => exact hd.2
  | ask m q resume ih =>
    obtain ⟨-, -, hok, hstop⟩ := hd
    simp only [run]
    cases hr : (h.reply s q).1 with
    | ok a => exact ih _ (hok a) _
    | error sig =>
      obtain ⟨-, r, m', hrun, hends⟩ := every_after_stop (hstop sig) h (h.reply s q).2
      simp only [hrun]
      exact ⟨_, hends⟩

/-- A signal is the last thing that a host says, and the dialogue ends with it. -/
theorem every_exchanges {ends : Option Stopped → ρ → Machine → Prop} {d : Dialogue ρ}
    (hd : d.Every asks aborts ends none) (h : Host σ) (s : σ) {before after : List Exchange}
    {x : Exchange} {sig : Signal} (hx : d.exchanges h s = before ++ x :: after)
    (hr : x.reply = .error sig) :
    after = [] ∧ ∃ r, (d.run h s).1 = .ok r ∧
      ends (some ⟨sig, x.machine⟩) r (d.run h s).2.1 := by
  induction d generalizing s before with
  | done r m => simp [exchanges] at hx
  | abort a m => simp [exchanges] at hx
  | ask m q resume ih =>
    obtain ⟨-, -, hok, hstop⟩ := hd
    simp only [exchanges] at hx
    simp only [run]
    cases hq : (h.reply s q).1 with
    | error sig' =>
      obtain ⟨hnil, r, m', hrun, hends⟩ := every_after_stop (hstop sig') h (h.reply s q).2
      rw [hq, hnil] at hx
      cases before with
      | nil =>
        simp only [List.nil_append, List.cons.injEq] at hx
        obtain ⟨rfl, hafter⟩ := hx
        simp only [Except.error.injEq] at hr
        subst hr
        simp only [hrun]
        exact ⟨hafter.symm, r, rfl, hends⟩
      | cons b bs => simp at hx
    | ok a =>
      rw [hq] at hx
      cases before with
      | nil =>
        simp only [List.nil_append, List.cons.injEq] at hx
        obtain ⟨rfl, -⟩ := hx
        simp at hr
      | cons b bs =>
        simp only [List.cons_append, List.cons.injEq] at hx
        exact ih _ (hok a) _ hx.2

end Dialogue
end Lispbox
