import Lispbox.Proofs.Run.Fuel
import Lispbox.Proofs.Run.Signals
import Lispbox.Run.Recorder

/-!
# Termination

Whether a run comes to an end is up to its host. Loops, calls, deferred bodies and imports poll
before each of their rounds, so a run that breaks off for want of steps has asked its host once for
each of them (`Dialogue.Lasts.agreed`), and a host that gives up after finitely many polls, whatever
it is asked in between (`Host.GivesUp`), is not asked forever.

How many polls these are is not required to be known ahead. So the induction is on the host
(`GivesUp.ends`), and from one poll to the next on the dialogue (`Fueled.upToPoll`).

* `run_terminates`: with a host that gives up there is an amount of fuel that is enough, and from
  there on fuel makes no difference.
-/
namespace Lispbox

variable {σ ρ : Type} {h : Host σ} {s : σ}

/-- The host is asked whether to go on, and agrees. -/
def Exchange.isAgreed : Exchange → Bool
  | ⟨_, .poll, .ok _⟩ => true
  | _ => false

/-- How often the host agrees to go on. -/
def Dialogue.agreed (h : Host σ) (d : Dialogue ρ) (s : σ) : Nat :=
  (d.exchanges h s).countP Exchange.isAgreed

namespace Host

/-- The state of the host after some questions. -/
def after (h : Host σ) (s : σ) (qs : List Query) : σ := qs.foldl (fun s q => (h.reply s q).2) s

theorem after_append (h : Host σ) (s : σ) (qs : List Query) (q : Query) :
    h.after s (qs ++ [q]) = (h.reply (h.after s qs) q).2 := by
  simp [after]

/-- The host does not agree to go on forever: whatever it is asked before the next poll, it answers
that with a signal, or it agrees and will not do so forever from there. -/
inductive GivesUp (h : Host σ) : σ → Prop where
  | intro {s : σ} (later : ∀ qs, .poll ∉ qs → (h.reply (h.after s qs) .poll).1 = .ok () →
      h.GivesUp (h.reply (h.after s qs) .poll).2) : h.GivesUp s

/-- A host gives up that counts down at each poll it agrees to. -/
theorem givesUp_of_measure (left : σ → Nat) (hle : ∀ s q, left (h.reply s q).2 ≤ left s)
    (hlt : ∀ s, (h.reply s .poll).1 = .ok () → left (h.reply s .poll).2 < left s) (s : σ) :
    h.GivesUp s := by
  have hafter : ∀ qs s, left (h.after s qs) ≤ left s := by
    intro qs
    induction qs with
    | nil => exact fun s => Nat.le_refl _
    | cons q qs ih => exact fun s => Nat.le_trans (ih _) (hle s q)
  generalize hn : left s = n
  induction n using Nat.strongRecOn generalizing s with
  | _ n ih =>
    refine .intro fun qs _ hok => ih _ ?_ _ rfl
    have hless := hlt (h.after s qs) hok
    have hqs := hafter qs s
    omega

end Host

namespace Dialogue

variable {steps steps' n n' : Nat} {ends : Nat → ρ → Prop} {d d' : Dialogue ρ}

theorem agreed_ask (h : Host σ) (m : Machine) (q : Query)
    (k : Except Signal q.Answer → Dialogue ρ) (s : σ) :
    (ask m q k).agreed h s = (k (h.reply s q).1).agreed h (h.reply s q).2 +
      match (h.reply s q).1 with
      | .ok _ => q.polls
      | .error _ => 0 := by
  unfold agreed
  rw [exchanges_ask, List.countP_cons]
  congr 1
  cases q <;> cases (h.reply s _).1 <;> rfl

/-- A dialogue that breaks off for want of steps has asked as often as it had steps. -/
theorem Lasts.agreed (hd : d.Lasts steps ends n d') (h : Host σ) (s : σ)
    (hx : (d.run h s).1 = .error .exhausted) : steps ≤ n + d.agreed h s := by
  induction hd generalizing s with
  | done m _ => cases hx
  | crashed reason m => cases hx
  | exhausted m d hn => exact Nat.le_trans hn (Nat.le_add_right _ _)
  | ask m q _ _ hagreed hstopped =>
    rw [agreed_ask]
    simp only [run] at hx
    cases hr : (h.reply s q).1 with
    | ok a =>
      rw [hr] at hx
      have hle := hagreed a _ hx
      dsimp only
      omega
    | error sig =>
      rw [hr] at hx
      exact hstopped sig _ hx

/-- A dialogue that does not break off for want of steps is the same with more fuel. -/
theorem Lasts.run_eq (hd : d.Lasts steps ends n d') (h : Host σ) (s : σ)
    (hx : (d.run h s).1 ≠ .error .exhausted) : d'.run h s = d.run h s := by
  induction hd generalizing s with
  | done m _ => rfl
  | crashed reason m => rfl
  | exhausted m d _ => exact absurd rfl hx
  | ask m q _ _ hagreed hstopped =>
    simp only [run] at hx ⊢
    cases hr : (h.reply s q).1 with
    | ok a => rw [hr] at hx; exact hagreed a _ hx
    | error sig => rw [hr] at hx; exact hstopped sig _ hx

/-- Steps and polls count from anywhere. -/
theorem Lasts.shift (hd : d.Lasts steps ends n d') (hle : steps' + n ≤ steps + n') :
    d.Lasts steps' (fun _ _ => True) n' d' := by
  induction hd generalizing n' with
  | done m _ => exact .done m trivial
  | crashed reason m => exact .crashed reason m
  | exhausted m d hn => exact .exhausted m d (by omega)
  | ask m q _ _ hagreed hstopped =>
    exact .ask m q (fun a => hagreed a (by omega)) fun sig => hstopped sig hle

theorem Lasts.ask_inv {m : Machine} {q : Query} {k : Except Signal q.Answer → Dialogue ρ}
    (hd : (Dialogue.ask m q k).Lasts steps ends n d') : ∃ k', d' = .ask m q k' ∧
      ∀ a, (k (.ok a)).Lasts steps ends (n + q.polls) (k' (.ok a)) := by
  cases hd with
  | ask _ _ hagreed _ => exact ⟨_, rfl, hagreed⟩

/-- The dialogue after the next answer of the host. -/
def next (h : Host σ) (s : σ) : Dialogue ρ → Dialogue ρ
  | .ask _ q k => k (h.reply s q).1
  | d => d

/-- A dialogue for each amount of fuel, where more fuel changes nothing but that the dialogue lasts
longer, and a signal is the last thing that the host says. -/
structure Fueled (d : Nat → Dialogue ρ) : Prop where
  lasts : ∀ f f', f ≤ f' → (d f).Lasts f (fun _ _ => True) 0 (d f')
  stops : ∀ f, (d f).Every (fun _ _ => True) (fun _ => True) (fun _ _ _ => True) none

variable {ds : Nat → Dialogue ρ} {m : Machine} {q : Query}
  {k : Except Signal q.Answer → Dialogue ρ}

/-- Where any fuel is enough for a question, all the dialogues ask it. -/
theorem Fueled.asks (hd : Fueled ds) (h1 : ds 1 = ask m q k) {f : Nat} (hf : 1 ≤ f) :
    ∃ kf, ds f = ask m q kf ∧ ∀ a,
      (kf (.ok a)).Every (fun _ _ => True) (fun _ => True) (fun _ _ _ => True) none := by
  have hlasts := hd.lasts 1 f hf
  rw [h1] at hlasts
  obtain ⟨kf, hkf, -⟩ := hlasts.ask_inv
  have hstops := hd.stops f
  rw [hkf] at hstops
  exact ⟨kf, hkf, hstops.2.2.1⟩

/-- What follows on an answer is there for each amount of fuel. The fuel counts from the poll on, if
the question is one. -/
theorem Fueled.next (hd : Fueled ds) (h1 : ds 1 = ask m q k) {a : q.Answer}
    (ha : (h.reply s q).1 = .ok a) (fuel : Nat → Nat)
    (hfuel : ∀ f f', f ≤ f' → 1 ≤ fuel f ∧ fuel f ≤ fuel f' ∧ f + q.polls ≤ fuel f) :
    Fueled fun f => (ds (fuel f)).next h s where
  lasts f f' hf := by
    obtain ⟨hone, hle, hpolls⟩ := hfuel f f' hf
    obtain ⟨kf, hkf, -⟩ := hd.asks h1 hone
    have hlasts := hd.lasts (fuel f) (fuel f') hle
    rw [hkf] at hlasts
    obtain ⟨kf', hkf', hagreed⟩ := hlasts.ask_inv
    rw [hkf, hkf', Dialogue.next, Dialogue.next, ha]
    exact (hagreed a).shift (by omega)
  stops f := by
    obtain ⟨kf, hkf, hstops⟩ := hd.asks h1 (hfuel f f (Nat.le_refl f)).1
    rw [hkf, Dialogue.next, ha]
    exact hstops a

theorem Fueled.run_next (hd : Fueled ds) (h1 : ds 1 = ask m q k) {f : Nat} (hf : 1 ≤ f) :
    (ds f).run h s = ((ds f).next h s).run h (h.reply s q).2 := by
  obtain ⟨kf, hkf, -⟩ := hd.asks h1 hf
  rw [hkf]
  rfl

/-- If there is fuel enough behind each poll that the host agrees to, there is fuel enough in front
of the next one. -/
theorem Fueled.upToPoll (hd : Fueled ds) (qs : List Query) (hqs : .poll ∉ qs)
    (hpoll : ∀ qs, .poll ∉ qs → (h.reply (h.after s qs) .poll).1 = .ok () →
      ∀ ds : Nat → Dialogue ρ, Fueled ds →
        ∃ f, ((ds f).run h (h.reply (h.after s qs) .poll).2).1 ≠ .error .exhausted) :
    ∃ f, ((ds f).run h (h.after s qs)).1 ≠ .error .exhausted := by
  generalize h1 : ds 1 = d
  induction d generalizing ds qs with
  | done r m => exact ⟨1, by rw [h1]; rintro ⟨⟩⟩
  | abort a m =>
    have hlasts := hd.lasts 1 1 (Nat.le_refl 1)
    rw [h1] at hlasts
    refine ⟨1, ?_⟩
    rw [h1]
    cases hlasts with
    | crashed reason m => rintro ⟨⟩
    | exhausted m d hn => cases hn
  | ask m q k ih =>
    cases hr : (h.reply (h.after s qs) q).1 with
    | error sig =>
      have hstops := hd.stops 1
      rw [h1] at hstops
      obtain ⟨-, r, m', hrun, -⟩ := every_after_stop (hstops.2.2.2 sig) h
        (h.reply (h.after s qs) q).2
      refine ⟨1, ?_⟩
      rw [h1, run, hr, hrun]
      rintro ⟨⟩
    | ok a =>
      by_cases hq : q = .poll
      · subst hq
        obtain ⟨f, hf⟩ := hpoll qs hqs hr _ (hd.next h1 hr (· + 1)
          fun f f' hf => ⟨Nat.le_add_left 1 f, Nat.succ_le_succ hf, Nat.le_refl _⟩)
        refine ⟨f + 1, ?_⟩
        rw [hd.run_next h1 (Nat.le_add_left 1 f)]
        exact hf
      · have hpolls : q.polls = 0 := by cases q <;> first | rfl | exact absurd rfl hq
        obtain ⟨f, hf⟩ := ih (.ok a) (hd.next h1 hr (max 1) fun f f' hf => by omega)
          (qs ++ [q]) (by simpa [hqs] using Ne.symm hq) (by
            show (ds (max 1 1)).next h (h.after s qs) = k (.ok a)
            rw [Nat.max_self, h1, Dialogue.next, hr])
        refine ⟨max 1 f, ?_⟩
        rw [hd.run_next h1 (Nat.le_max_left 1 f), ← Host.after_append]
        exact hf

end Dialogue

open Dialogue

/-- With a host that gives up some amount of fuel is enough. -/
theorem Host.GivesUp.ends (hs : h.GivesUp s) {ds : Nat → Dialogue ρ} (hd : Fueled ds) :
    ∃ f, ((ds f).run h s).1 ≠ .error .exhausted := by
  induction hs generalizing ds with
  | intro _ ih => exact hd.upToPoll [] (by simp) fun qs hqs hok ds hd => ih qs hqs hok hd

theorem fueled_dialogue (env : Environment) (p : Program) :
    Fueled fun fuel => p.dialogue env fuel where
  lasts _ _ hf := dialogue_lasts env p hf
  stops fuel := Every.mono (fun _ _ _ _ => trivial) (runProgram_free env fuel p)

/-- A run that breaks off for want of steps has asked its host as often as it had steps, and the
host has agreed each time. So a run with a host that gives up after finitely many polls comes to an
end: some amount of fuel is enough, and more makes no difference. -/
theorem run_terminates (h : Host σ) (env : Environment) (p : Program) (s : σ) :
    (∀ fuel, (p.run h env fuel s).1 = .ended .exhausted →
      fuel ≤ (p.dialogue env fuel).agreed h s) ∧
    (h.GivesUp s → ∃ fuel e m s', e ≠ .ended .exhausted ∧
      ∀ more, fuel ≤ more → p.run h env more s = (e, m, s')) := by
  have hofResult {r : Except Abort (Except Exit Value)}
      (hr : RunEnd.ofResult r = .ended .exhausted) : r = .error .exhausted := by
    unfold RunEnd.ofResult at hr
    split at hr <;> first | rfl | cases hr
  constructor
  · intro fuel hx
    have hle := (dialogue_lasts env p (Nat.le_refl fuel)).agreed h s (hofResult hx)
    rw [Nat.zero_add] at hle
    exact hle
  · intro hs
    obtain ⟨fuel, hfuel⟩ := hs.ends (fueled_dialogue env p)
    refine ⟨fuel, (p.run h env fuel s).1, (p.run h env fuel s).2.1, (p.run h env fuel s).2.2,
      fun hx => hfuel (hofResult hx), fun more hmore => ?_⟩
    unfold Program.run
    rw [(dialogue_lasts env p hmore).run_eq h s hfuel]

namespace Recorder

theorem polls_check (r : Recording) (at_ : Callback) (s : Recorder) :
    (check r at_ s).2.polls = s.polls := by
  unfold check
  split
  · rfl
  · split
    · dsimp only
      split <;> rfl
    · rfl

theorem polls_noteEvent (s : Recorder) (e : Event) : (s.noteEvent e).polls = s.polls := by
  cases e <;> rfl

/-- A recorder counts its polls and never takes one back. -/
theorem polls_reply (r : Recording) (s : Recorder) (q : Query) :
    s.polls ≤ ((host r).reply s q).2.polls := by
  cases q with
  | poll =>
    dsimp only [host, reply]
    split
    · split <;> exact Nat.le_succ _
    · exact Nat.le_succ _
  | line file number =>
    dsimp only [host, reply]
    rw [polls_check]
    split <;> exact Nat.le_refl _
  | emit e =>
    have hpolls := polls_check r .emit s
    dsimp only [host, reply]
    split
    · next s' hs =>
      rw [hs] at hpolls
      exact Nat.le_of_eq ((polls_noteEvent s' e).trans hpolls).symm
    · next s' hs => rw [hs] at hpolls; exact Nat.le_of_eq hpolls.symm
  | input prompt =>
    have hpolls := polls_check r .input (s.note (.input prompt))
    dsimp only [host, reply]
    split
    · next s' hs =>
      rw [hs] at hpolls
      split <;> exact Nat.le_of_eq hpolls.symm
    · next s' hs => rw [hs] at hpolls; exact Nat.le_of_eq hpolls.symm
  | sleep duration =>
    dsimp only [host, reply]
    rw [polls_check]
    exact Nat.le_refl _
  | readFile name => exact Nat.le_refl _

/-- A recorder that is told to interrupt after so many polls gives up. -/
theorem givesUp {r : Recording} {n : Nat} (hr : r.maxPolls = some n) (s : Recorder) :
    (Recorder.host r).GivesUp s := by
  refine Host.givesUp_of_measure (fun s => n - s.polls)
    (fun s q => Nat.sub_le_sub_left (polls_reply r s q) n) (fun s hok => ?_) s
  dsimp only [host, reply] at hok ⊢
  rw [hr] at hok ⊢
  dsimp only at hok ⊢
  by_cases hn : n < s.polls + 1
  · rw [if_pos hn] at hok
    cases hok
  · rw [if_neg hn]
    dsimp only
    omega

end Recorder

namespace Termination

/-- A loop without a body. -/
def program : Program := ⟨"main", "", [.loop 1 (.literal 1 (.bool true)) []]⟩

def recording : Recording := ⟨[], true, some 3, none⟩

/-- The loop ends when the host interrupts it. -/
theorem run_terminates_loop : ∃ fuel e m s', e ≠ .ended .exhausted ∧ ∀ more, fuel ≤ more →
    program.run (Recorder.host recording) ⟨.standard, 9⟩ more ⟨[], 0, 0, []⟩ = (e, m, s') :=
  (run_terminates (Recorder.host recording) ⟨.standard, 9⟩ program ⟨[], 0, 0, []⟩).2
    (Recorder.givesUp rfl _)

end Termination
end Lispbox
