import Lispbox.Proofs.Run.Congruence
import Lispbox.Proofs.Run.Steps

/-!
# Evaluations beside each other

Two states agree on their innermost frames (`Machine.Agree`) if they have the same namespaces,
modules and sources, and the frames further out differ in nothing but locals and reported lines.
An evaluation works with the innermost frame, and of the others it sees what a traceback shows, so
from two such states it goes on in the same way: `Dialogue.Follows`.

The second evaluation may have room for more frames. As long as no frame is refused to the first
one, that makes no difference; from then on nothing is said about the two, except that the refusal
stays counted.

* `follows_enter`: a body in a frame of its own, which is one more frame to agree on.
* `agreement`: every operation of the evaluator respects the relation, and so every evaluation does.
* `Follows.run`: the conversations of the two with a host (`SameCourse`).
-/
namespace Lispbox
open Script

/-- What a traceback shows of a frame, and where its globals are. -/
def Frame.outline (f : Frame) : String × String × Nat × Nat := (f.function, f.file, f.line, f.scope)

/-- What is asked and answered. -/
def Exchange.said (x : Exchange) : (q : Query) × Except Signal q.Answer := ⟨x.query, x.reply⟩

namespace Machine

/-- The states differ at most in the locals and reported lines of frames further out than the `k`
innermost ones. -/
structure Agree (k : Nat) (m m' : Machine) : Prop where
  store : m' = { m with frames := m'.frames }
  own : m'.frames.take k = m.frames.take k
  outlines : m'.frames.map Frame.outline = m.frames.map Frame.outline

variable {k j : Nat} {m m' n n' : Machine}

theorem Agree.refl (k : Nat) (m : Machine) : m.Agree k m := ⟨rfl, rfl, rfl⟩

theorem Agree.mono (h : m.Agree k m') (hj : j ≤ k) : m.Agree j m' := by
  refine ⟨h.store, ?_, h.outlines⟩
  have htake := congrArg (List.take j) h.own
  rwa [List.take_take, List.take_take, Nat.min_eq_left hj] at htake

theorem Agree.length (h : m.Agree k m') : m'.frames.length = m.frames.length := by
  simpa using congrArg List.length h.outlines

/-- States that agree on all frames are the same. -/
theorem Agree.eq (h : m.Agree k m') (hk : m.frames.length ≤ k) : m' = m := by
  have hown := h.own
  rw [List.take_of_length_le (h.length ▸ hk), List.take_of_length_le hk] at hown
  rw [h.store, hown]

/-- Changes that leave the frames alone. -/
theorem Agree.transfer (h : m.Agree k m') (hn : n.frames = m.frames) (hn' : n'.frames = m'.frames)
    (hs : n' = { n with frames := n'.frames }) : n.Agree k n' :=
  ⟨hs, by rw [hn, hn', h.own], by rw [hn, hn', h.outlines]⟩

/-- There is no frame, or the innermost ones are the same. -/
theorem Agree.stack (h : m.Agree (k + 1) m') : (m.frames = [] ∧ m'.frames = []) ∨
    ∃ f fs fs', m.frames = f :: fs ∧ m'.frames = f :: fs' ∧ fs'.take k = fs.take k ∧
      fs'.map Frame.outline = fs.map Frame.outline := by
  obtain ⟨-, hown, hlines⟩ := h
  cases hf : m.frames with
  | nil =>
    rw [hf] at hlines
    exact .inl ⟨rfl, List.map_eq_nil_iff.mp hlines⟩
  | cons f fs =>
    rw [hf] at hown hlines
    cases hf' : m'.frames with
    | nil => rw [hf'] at hlines; cases hlines
    | cons f' fs' =>
      rw [hf', List.take_succ_cons, List.take_succ_cons, List.cons.injEq] at hown
      obtain ⟨rfl, hown⟩ := hown
      rw [hf', List.map_cons, List.map_cons, List.cons.injEq] at hlines
      exact .inr ⟨f', fs, fs', rfl, rfl, hown, hlines.2⟩

theorem Agree.head (h : m.Agree (k + 1) m') : m'.frames.head? = m.frames.head? := by
  rcases h.stack with ⟨hf, hf'⟩ | ⟨f, fs, fs', hf, hf', -⟩ <;> rw [hf, hf']
  rfl

theorem Agree.namespaces (h : m.Agree k m') : m'.namespaces = m.namespaces := by rw [h.store]

theorem Agree.loaded (h : m.Agree k m') : m'.loaded = m.loaded := by rw [h.store]

theorem Agree.sources (h : m.Agree k m') : m'.sources = m.sources := by rw [h.store]

theorem Agree.serial (h : m.Agree k m') : m'.serial = m.serial := by rw [h.store]

/-! ## What is read -/

theorem Agree.globalsOf (h : m.Agree k m') (f : Frame) : m'.globalsOf f = m.globalsOf f := by
  unfold Machine.globalsOf
  rw [h.namespaces]

theorem Agree.lookup? (h : m.Agree (k + 1) m') (name : String) :
    m'.lookup? name = m.lookup? name := by
  unfold Machine.lookup?
  simp only [h.head, h.globalsOf]

/-- A frame in a traceback. -/
def traceOf (m : Machine) (o : String × String × Nat × Nat) : TraceFrame :=
  ⟨o.2.1, o.2.2.1, o.1, m.sourceLine? o.2.1 o.2.2.1⟩

theorem traceback_outlines (m : Machine) :
    m.traceback = (m.frames.map Frame.outline).reverse.map m.traceOf := by
  rw [← List.map_reverse, List.map_map]
  rfl

theorem Agree.traceback (h : m.Agree k m') : m'.traceback = m.traceback := by
  have hsource : m'.traceOf = m.traceOf := by
    unfold Machine.traceOf Machine.sourceLine?
    rw [h.sources]
  rw [traceback_outlines, traceback_outlines, h.outlines, hsource]

/-- Whose code is executed, and with which locals and globals. -/
theorem Agree.code (h : m.Agree (k + 1) m') :
    m'.file = m.file ∧ m'.scope = m.scope ∧ m'.locals = m.locals ∧ m'.home = m.home := by
  have hscope : m'.scope = m.scope := by
    unfold Machine.scope
    rcases h.stack with ⟨hf, hf'⟩ | ⟨f, fs, fs', hf, hf', -⟩ <;> rw [hf, hf']
  refine ⟨?_, hscope, ?_, ?_⟩
  · unfold Machine.file
    rcases h.stack with ⟨hf, hf'⟩ | ⟨f, fs, fs', hf, hf', -⟩ <;> rw [hf, hf']
  · unfold Machine.locals
    rcases h.stack with ⟨hf, hf'⟩ | ⟨f, fs, fs', hf, hf', -⟩ <;> rw [hf, hf']
  · unfold Machine.home
    rw [hscope, h.namespaces]

/-! ## What is changed -/

/-- The innermost frame is replaced by the same one. -/
theorem Agree.withTop (h : m.Agree (k + 1) m') (f : Frame) :
    (m.withTop f).Agree (k + 1) (m'.withTop f) := by
  rcases h.stack with ⟨hf, hf'⟩ | ⟨g, fs, fs', hf, hf', hown, hlines⟩
  · exact ⟨by rw [h.store]; rfl, by simp [Machine.withTop, hf, hf'],
      by simp [Machine.withTop, hf, hf']⟩
  · exact ⟨by rw [h.store]; rfl, by simp [Machine.withTop, hf, hf', hown],
      by simp [Machine.withTop, hf, hf', hlines]⟩

theorem Agree.setGlobal (h : m.Agree k m') (scope : Nat) (name : String) (v : Value) :
    (m.setGlobal scope name v).Agree k (m'.setGlobal scope name v) :=
  h.transfer rfl rfl (by rw [h.store]; rfl)

theorem Agree.setLine (h : m.Agree (k + 1) m') (line : Nat) :
    (m.setLine line).Agree (k + 1) (m'.setLine line) := by
  unfold Machine.setLine
  rcases h.stack with ⟨hf, hf'⟩ | ⟨f, fs, fs', hf, hf', -⟩ <;> rw [hf, hf']
  · exact h
  · exact h.withTop _

theorem Agree.reportFrom (h : m.Agree (k + 1) m') (line : Nat) :
    (m.reportFrom line).Agree (k + 1) (m'.reportFrom line) := by
  unfold Machine.reportFrom
  rcases h.stack with ⟨hf, hf'⟩ | ⟨f, fs, fs', hf, hf', -⟩ <;> rw [hf, hf']
  · exact h
  · exact h.withTop _

theorem Agree.bind (h : m.Agree (k + 1) m') (name : String) (v : Value) :
    (m.bind name v).Agree (k + 1) (m'.bind name v) := by
  unfold Machine.bind
  rcases h.stack with ⟨hf, hf'⟩ | ⟨f, fs, fs', hf, hf', -⟩ <;> rw [hf, hf']
  · exact h
  · dsimp only
    split
    · exact h.withTop _
    · exact h.setGlobal _ name v

/-- An assignment finds the name in both states or in neither of them. -/
theorem Agree.assign (h : m.Agree (k + 1) m') (name : String) (v : Value) :
    (m.assign? name v = none ∧ m'.assign? name v = none) ∨
      ∃ n n', m.assign? name v = some n ∧ m'.assign? name v = some n' ∧ n.Agree (k + 1) n' := by
  unfold Machine.assign?
  rcases h.stack with ⟨hf, hf'⟩ | ⟨f, fs, fs', hf, hf', -⟩ <;> rw [hf, hf']
  · exact .inl ⟨rfl, rfl⟩
  · have inGlobals := h.setGlobal f.scope name v
    simp only [h.globalsOf]
    split
    · split
      · exact .inr ⟨_, _, rfl, rfl, h.withTop _⟩
      · split
        · exact .inr ⟨_, _, rfl, rfl, inGlobals⟩
        · exact .inl ⟨rfl, rfl⟩
    · split
      · exact .inr ⟨_, _, rfl, rfl, inGlobals⟩
      · exact .inl ⟨rfl, rfl⟩

theorem Agree.push (h : m.Agree k m') (f : Frame) : (m.push f).Agree (k + 1) (m'.push f) :=
  ⟨by rw [h.store]; rfl, by simp [Machine.push, h.own], by simp [Machine.push, h.outlines]⟩

theorem Agree.pop (h : m.Agree (k + 1) m') : m.pop.Agree k m'.pop := by
  rcases h.stack with ⟨hf, hf'⟩ | ⟨g, fs, fs', hf, hf', hown, hlines⟩
  · exact ⟨by rw [h.store]; rfl, by simp [Machine.pop, hf, hf'], by simp [Machine.pop, hf, hf']⟩
  · exact ⟨by rw [h.store]; rfl, by simp [Machine.pop, hf, hf', hown],
      by simp [Machine.pop, hf, hf', hlines]⟩

theorem Agree.refuse (h : m.Agree k m') : m.refuse.Agree k m'.refuse :=
  h.transfer rfl rfl (by rw [h.store]; rfl)

theorem Agree.advance (h : m.Agree k m') : m.advance.Agree k m'.advance :=
  h.transfer rfl rfl (by rw [h.store]; rfl)

theorem Agree.remember (h : m.Agree k m') (name : String) (v : Value) :
    (m.remember name v).Agree k (m'.remember name v) :=
  h.transfer rfl rfl (by rw [h.store]; rfl)

theorem Agree.openModule (h : m.Agree k m') (name : String) (p : Program) :
    (m.openModule name p).Agree k (m'.openModule name p) :=
  h.transfer rfl rfl (by rw [h.store]; rfl)

theorem bind_refusals (m : Machine) (name : String) (v : Value) :
    (m.bind name v).refusals = m.refusals := by
  unfold Machine.bind
  split
  · rfl
  · split <;> rfl

theorem setLine_refusals (m : Machine) (line : Nat) : (m.setLine line).refusals = m.refusals := by
  unfold Machine.setLine
  split <;> rfl

theorem reportFrom_refusals (m : Machine) (line : Nat) :
    (m.reportFrom line).refusals = m.refusals := by
  unfold Machine.reportFrom
  split <;> rfl

theorem assign_refusals {name : String} {v : Value} (h : m.assign? name v = some n) :
    n.refusals = m.refusals := by
  cases binds_assign h <;> rfl

end Machine

/-! ## Dialogues -/

namespace Dialogue

variable {ρ τ σ : Type} {env env' : Environment} {k j n i : Nat} {d d' : Dialogue ρ}

/-- More than `n` frames have been refused, in every state of the dialogue. -/
inductive Refused (n : Nat) : Dialogue ρ → Prop where
  | done {r : ρ} {m : Machine} (h : n < m.refusals) : Refused n (.done r m)
  | abort {a : Abort} {m : Machine} (h : n < m.refusals) : Refused n (.abort a m)
  | ask {m : Machine} {q : Query} {resume : Except Signal q.Answer → Dialogue ρ}
    (h : n < m.refusals) (hk : ∀ a, Refused n (resume a)) : Refused n (.ask m q resume)

/-- The second dialogue goes on like the first, in states that agree with those of the first; or the
second has more room, and from some point on more than `n` frames have been refused in the first. No
state of the first has less than `n` refusals. -/
inductive Follows (env env' : Environment) (k n : Nat) : Dialogue ρ → Dialogue ρ → Prop where
  | done {r : ρ} {m m' : Machine} (h : m.Agree k m') (hn : n ≤ m.refusals) :
    Follows env env' k n (.done r m) (.done r m')
  | abort {a : Abort} {m m' : Machine} (h : m.Agree k m') (hn : n ≤ m.refusals) :
    Follows env env' k n (.abort a m) (.abort a m')
  | ask {m m' : Machine} {q : Query} {resume resume' : Except Signal q.Answer → Dialogue ρ}
    (h : m.Agree k m') (hn : n ≤ m.refusals)
    (hk : ∀ a, Follows env env' k n (resume a) (resume' a)) :
    Follows env env' k n (.ask m q resume) (.ask m' q resume')
  | refused {d d' : Dialogue ρ} (hlt : env.depth < env'.depth) (hd : d.Refused n) :
    Follows env env' k n d d'

theorem Refused.mono (h : d.Refused n) (hi : i ≤ n) : d.Refused i := by
  induction h with
  | done h => exact .done (Nat.lt_of_le_of_lt hi h)
  | abort h => exact .abort (Nat.lt_of_le_of_lt hi h)
  | ask h _ ih => exact .ask (Nat.lt_of_le_of_lt hi h) ih

theorem Refused.bind {f : ρ → Machine → Dialogue τ} (h : d.Refused n)
    (hf : ∀ r m, n < m.refusals → (f r m).Refused n) : (d.bind f).Refused n := by
  induction h with
  | done h => exact hf _ _ h
  | abort h => exact .abort h
  | ask h _ ih => exact .ask h ih

theorem Refused.run (hd : d.Refused n) (h : Host σ) (s : σ) :
    n < (d.run h s).2.1.refusals := by
  induction hd generalizing s with
  | done h => exact h
  | abort h => exact h
  | ask _ _ ih => exact ih _ _

theorem Follows.mono (h : Follows env env' k n d d') (hi : i ≤ n) : Follows env env' k i d d' := by
  induction h with
  | done h hn => exact .done h (Nat.le_trans hi hn)
  | abort h hn => exact .abort h (Nat.le_trans hi hn)
  | ask h hn _ ih => exact .ask h (Nat.le_trans hi hn) ih
  | refused hlt hd => exact .refused hlt (hd.mono hi)

/-- What has been refused before. -/
theorem Follows.earlier (h : Follows env env' k n d d') (hi : i < n) : d.Refused i := by
  induction h with
  | done _ hn => exact .done (Nat.lt_of_lt_of_le hi hn)
  | abort _ hn => exact .abort (Nat.lt_of_lt_of_le hi hn)
  | ask _ hn _ ih => exact .ask (Nat.lt_of_lt_of_le hi hn) ih
  | refused _ hd => exact hd.mono (Nat.le_of_lt hi)

/-- One dialogue after another. What comes after may have fewer frames to agree on. -/
theorem Follows.bind {f f' : ρ → Machine → Dialogue τ} (hd : Follows env env' k n d d')
    (hj : j ≤ k) (hf : ∀ r m m', m.Agree k m' → Follows env env' j m.refusals (f r m) (f' r m')) :
    Follows env env' j n (d.bind f) (d'.bind f') := by
  induction hd with
  | done h hn => exact (hf _ _ _ h).mono hn
  | abort h hn => exact .abort (h.mono hj) hn
  | ask h hn _ ih => exact .ask (h.mono hj) hn ih
  | refused hlt hd =>
    exact .refused hlt (hd.bind fun r m hm => (hf r m m (.refl k m)).earlier hm)

/-- In two conversations with a host the same is said, they come to the same result, and the host is
in the same state in the end. The states of the runs agree then. -/
structure SameCourse (d : Dialogue ρ) (h : Host σ) (s : σ) (k : Nat) (d' : Dialogue ρ) : Prop where
  said : (d'.exchanges h s).map Exchange.said = (d.exchanges h s).map Exchange.said
  result : (d'.run h s).1 = (d.run h s).1
  host : (d'.run h s).2.2 = (d.run h s).2.2
  states : (d.run h s).2.1.Agree k (d'.run h s).2.1

/-- Conversations, if no frame was refused to the first for want of room that the second has. -/
theorem Follows.run (hd : Follows env env' k n d d') (h : Host σ) (s : σ)
    (hroom : env.depth < env'.depth → (d.run h s).2.1.refusals ≤ n) : d.SameCourse h s k d' := by
  induction hd generalizing s with
  | done h => exact ⟨rfl, rfl, rfl, h⟩
  | abort h => exact ⟨rfl, rfl, rfl, h⟩
  | ask _ _ _ ih =>
    obtain ⟨hsaid, hresult, hhost, hstates⟩ := ih _ _ hroom
    refine ⟨?_, hresult, hhost, hstates⟩
    rw [exchanges_ask, exchanges_ask, List.map_cons, List.map_cons, hsaid]
    rfl
  | refused hlt hd => exact absurd (hroom hlt) (Nat.not_le_of_lt (hd.run h s))

end Dialogue

/-! ## Scripts -/

namespace Script

variable {α β : Type} {env env' : Environment} {k : Nat} {s s' : Script α}

/-- From states that agree, the second script goes on like the first. -/
def Follows (env env' : Environment) (k : Nat) (s s' : Script α) : Prop :=
  ∀ m m', m.Agree k m' → (s m).Follows env env' k m.refusals (s' m')

theorem follows_bind {f f' : α → Script β} (hs : Follows env env' k s s')
    (hf : ∀ a, Follows env env' k (f a) (f' a)) : Follows env env' k (s >>= f) (s' >>= f') := by
  refine fun m m' h => (hs m m' h).bind (Nat.le_refl k) fun r m m' h => ?_
  cases r with
  | ok a => exact hf a m m' h
  | error e => exact .done h (Nat.le_refl _)

theorem follows_handle {f f' : Except Exit α → Script β} (hs : Follows env env' k s s')
    (hf : ∀ r, Follows env env' k (f r) (f' r)) :
    Follows env env' k (outcome s >>= f) (outcome s' >>= f') := by
  intro m m' h
  change Dialogue.Follows _ _ _ _ (Dialogue.bind ((s m).bind _) _)
    (Dialogue.bind ((s' m').bind _) _)
  rw [Dialogue.bind_assoc, Dialogue.bind_assoc]
  exact (hs m m' h).bind (Nat.le_refl k) fun r => hf r

/-- A body in a frame of its own. -/
theorem follows_enter (hle : env.depth ≤ env'.depth) {f : Frame} {s s' : Script Value}
    (hs : Follows env env' (k + 1) s s') :
    Follows env env' k (enter env f s) (enter env' f s') := by
  intro m m' h
  rcases Nat.lt_or_ge m.frames.length env.depth with hroom | hfull
  · rw [enter_room hroom, enter_room (h.length ▸ Nat.lt_of_lt_of_le hroom hle)]
    exact (hs _ _ (h.push f)).bind (Nat.le_succ k) fun r n n' hn => .done hn.pop (Nat.le_refl _)
  · rw [enter_full hfull]
    rcases Nat.lt_or_ge m'.frames.length env'.depth with hroom' | hfull'
    · exact .refused (Nat.lt_of_le_of_lt (h.length ▸ hfull) hroom')
        (.done (Nat.lt_succ_self m.refusals))
    · rw [enter_full hfull']
      exact .done h.refuse (Nat.le_succ _)

end Script

/-! ## Operations -/

namespace Script

variable {α : Type} {env env' : Environment} {k n : Nat} {m m' : Machine}

theorem follows_pure (a : α) : Follows env env' k (pure a : Script α) (pure a) :=
  fun _ _ h => .done h (Nat.le_refl _)

theorem follows_raise (c : Cause) : Follows env env' k (raise c : Script α) (raise c) :=
  fun _ _ h => .done h (Nat.le_refl _)

theorem follows_ask (q : Query) : Follows env env' k (ask q) (ask q) :=
  fun _ _ h => .ask h (Nat.le_refl _) fun _ => .done h (Nat.le_refl _)

/-- A supplied function does not see the state. -/
theorem follows_script (b : Behaviour) : Follows env env' k b.script b.script := by
  induction b with
  | ends r => exact fun _ _ h => .done h (Nat.le_refl _)
  | crashes reason => exact fun _ _ h => .abort h (Nat.le_refl _)
  | asks q next ih => exact fun m m' h => .ask h (Nat.le_refl _) fun a => ih a m m' h

/-- What is read from the state. -/
theorem follows_get {f f' : Machine → Script α}
    (hf : ∀ m m', m.Agree k m' → (f m m).Follows env env' k m.refusals (f' m' m')) :
    Follows env env' k (get >>= f) (get >>= f') := hf

/-- A change of the state that refuses nothing. -/
theorem follows_set {f f' : Unit → Script α} (h : m.Agree k m') (hn : m.refusals = n)
    (hf : Follows env env' k (f ()) (f' ())) {m₀ m₀' : Machine} :
    ((set m >>= f) m₀).Follows env env' k n ((set m' >>= f') m₀') :=
  (hf m m' h).mono (Nat.le_of_eq hn.symm)

theorem follows_reportLine (always : Bool) (line : Nat) :
    Follows env env' (k + 1) (reportLine always line) (reportLine always line) := by
  refine follows_get fun m m' h => ?_
  rcases h.stack with ⟨hf, hf'⟩ | ⟨f, fs, fs', hf, hf', -⟩ <;> rw [hf, hf']
  · exact follows_pure () m m' h
  · dsimp only
    split
    · exact .done (h.setLine line) (Nat.le_of_eq (m.setLine_refusals line).symm)
    · exact follows_set (h.reportFrom line) (m.reportFrom_refusals line)
        (follows_ask (.line f.file line))

theorem follows_assignName (name : String) (v : Value) :
    Follows env env' (k + 1) (assignName name v) (assignName name v) := by
  refine follows_get fun m m' h => ?_
  rcases h.assign name v with ⟨hn, hn'⟩ | ⟨n, n', hn, hn', hagree⟩ <;> rw [hn, hn']
  · exact follows_raise _ m m' h
  · exact .done hagree (Nat.le_of_eq (Machine.assign_refusals hn).symm)

theorem follows_lookupName (name : String) :
    Follows env env' (k + 1) (lookupName name) (lookupName name) := by
  refine follows_get fun m m' h => ?_
  rw [h.lookup?]
  cases m.lookup? name with
  | some v => exact follows_pure v m m' h
  | none => exact follows_raise _ m m' h

end Script

/-- The operations of the evaluator go on in the same way from states that agree. -/
def agreement [Supply] {env env' : Environment} (hr : env'.registry = env.registry)
    (hle : env.depth ≤ env'.depth) : Congruence env env' where
  rel k {_} s s' := Script.Follows env env' k s s'
  allowed _ := True
  registry := hr
  of_pure := follows_pure
  of_exit _ _ _ h := .done h (Nat.le_refl _)
  of_crash _ _ _ h := .abort h (Nat.le_refl _)
  of_exhausted _ _ h := .abort h (Nat.le_refl _)
  of_ask _ := follows_ask _
  of_supplied f args := follows_script (Supply.act f args)
  of_bind := follows_bind
  of_handle hs hf := follows_handle hs fun r => hf r fun e _ => by cases e <;> trivial
  of_report := follows_reportLine
  of_setLine line m _ h := .done (h.setLine line) (Nat.le_of_eq (m.setLine_refusals line).symm)
  of_name name v m _ h := .done (h.bind name v) (Nat.le_of_eq (m.bind_refusals name v).symm)
  of_assign := follows_assignName
  of_lookup := follows_lookupName
  of_define name d := follows_get fun m m' h => by
    obtain ⟨-, hscope, -, hhome⟩ := h.code
    rw [hscope, hhome]
    refine follows_set (h.bind name _) (m.bind_refusals name _) ?_
    exact follows_pure Value.nil
  of_defer body := follows_get fun m m' h => by
    obtain ⟨hfile, hscope, hlocals, -⟩ := h.code
    rw [hscope, hfile, hlocals, h.serial]
    refine follows_set h.advance rfl ?_
    exact follows_pure _
  of_trace _ _ := follows_get fun m m' h => by
    rw [h.traceback]
    exact .done h (Nat.le_refl _)
  of_known name _ _ hs := follows_get fun m m' h => by
    rw [h.loaded]
    cases m.loaded.get? name with
    | some v => exact follows_pure v m m' h
    | none => exact hs m m' h
  of_open name p _ _ hf := follows_get fun m m' h => by
    rw [h.namespaces]
    exact follows_set (h.openModule name p) rfl (hf _)
  of_members scope := follows_get fun m m' h => by
    rw [h.namespaces]
    cases m.namespaces[scope]? with
    | some n => exact follows_pure n.bindings m m' h
    | none => exact follows_pure [] m m' h
  of_add name members := follows_get fun m m' h => by
    rw [h.serial]
    refine follows_set (h.advance.remember name _) rfl ?_
    exact follows_pure _
  of_empty f v := follows_enter hle (follows_pure v)
  of_body line _ _ _ hs :=
    follows_enter hle (follows_bind (follows_reportLine false line) fun _ => hs)
  allowed_cause _ := trivial
  allowed_raised _ _ := trivial

end Lispbox
