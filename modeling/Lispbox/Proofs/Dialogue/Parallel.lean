import Lispbox.Proofs.Dialogue.Every

/-!
# Dialogues side by side

Two dialogues are parallel if they ask the same questions in the same states, whatever the answers
are, and break off or end in the same states. What is required of their results is a relation
(`Dialogue.Parallel`).

* `Parallel.exchanges`, `Parallel.run`: the conversations of the two with a host.
-/
namespace Lispbox
namespace Dialogue

variable {ρ τ ρ' τ' σ : Type} {ends ends' : ρ → τ → Machine → Prop}
  {d : Dialogue ρ} {d' : Dialogue τ}

/-- The dialogues ask the same questions in the same states, and break off or end in the same
states; results are related. -/
inductive Parallel (ends : ρ → τ → Machine → Prop) : Dialogue ρ → Dialogue τ → Prop where
  | done {r : ρ} {r' : τ} {m : Machine} (h : ends r r' m) : Parallel ends (.done r m) (.done r' m)
  | abort (a : Abort) (m : Machine) : Parallel ends (.abort a m) (.abort a m)
  | ask (m : Machine) (q : Query) {k : Except Signal q.Answer → Dialogue ρ}
    {k' : Except Signal q.Answer → Dialogue τ} (h : ∀ a, Parallel ends (k a) (k' a)) :
    Parallel ends (.ask m q k) (.ask m q k')

theorem Parallel.mono (hd : d.Parallel ends d') (h : ∀ r r' m, ends r r' m → ends' r r' m) :
    d.Parallel ends' d' := by
  induction hd with
  | done hends => exact .done (h _ _ _ hends)
  | abort a m => exact .abort a m
  | ask m q _ ih => exact .ask m q ih

theorem Parallel.bind {ends : ρ' → τ' → Machine → Prop} {f : ρ → Machine → Dialogue ρ'}
    {g : τ → Machine → Dialogue τ'}
    (hd : d.Parallel (fun r r' m => (f r m).Parallel ends (g r' m)) d') :
    (d.bind f).Parallel ends (d'.bind g) := by
  induction hd with
  | done h => exact h
  | abort a m => exact .abort a m
  | ask m q _ ih => exact .ask m q ih

theorem bind_result (d : Dialogue ρ) : d.bind .done = d := by
  induction d with
  | done r m => rfl
  | abort a m => rfl
  | ask m q k ih => exact congrArg (ask m q) (funext ih)

/-- What is known of all courses of one dialogue is known of the results of both. -/
theorem Parallel.every {asks : Machine → Query → Prop} {aborts : Abort → Prop}
    {after : Option Stopped → τ → Machine → Prop} {g : Option Stopped} (hd : d.Parallel ends d')
    (he : d'.Every asks aborts after g) :
    d.Parallel (fun r r' m => ends r r' m ∧ ∃ g, after g r' m) d' := by
  induction hd generalizing g with
  | done h => exact .done ⟨h, g, he⟩
  | abort a m => exact .abort a m
  | ask m q _ ih =>
    obtain ⟨-, -, hok, hstop⟩ := he
    refine .ask m q fun a => ?_
    cases a with
    | ok a => exact ih _ (hok a)
    | error s => exact ih _ (hstop s)

/-- The host is asked the same. -/
theorem Parallel.exchanges (hd : d.Parallel ends d') (h : Host σ) (s : σ) :
    d.exchanges h s = d'.exchanges h s := by
  induction hd generalizing s with
  | done => rfl
  | abort => rfl
  | ask m q _ ih => rw [exchanges_ask, exchanges_ask, ih]

/-- The conversations end in the same states. -/
theorem Parallel.run (hd : d.Parallel ends d') (h : Host σ) (s s' : σ) {r' : τ} {m : Machine}
    (hrun : d'.run h s = (.ok r', m, s')) : ∃ r, d.run h s = (.ok r, m, s') ∧ ends r r' m := by
  induction hd generalizing s with
  | done hends =>
    cases hrun
    exact ⟨_, rfl, hends⟩
  | abort => cases hrun
  | ask m q _ ih => exact ih _ _ hrun

end Dialogue
end Lispbox
