import Mathlib.Data.List.Forall2
import Lispbox.Proofs.Dialogue.Parallel
import Lispbox.Proofs.Origin.Basic
import Lispbox.Proofs.Run.Steps

/-!
# Accounts and what they tell

The judgement `Discipline.Tells` says of a script and its account that they go side by side: they
ask the same questions in the same states, and they end in the same state and with the same result,
except that an exception has its origin on one side, and on the other side its frames, once it has
any. In the state of the origin

* everything is as a discipline requires it;
* the frames are those of the trail, and each is at a line that it may have been moved to
  (`Discipline.Fits`).

Since then some frames were left, and nothing else has changed (`Machine.Unwound`), so an exception
that gets its frames in the node in which it is raised gets those of its origin
(`tells_withFrames`). Here are the rules of the judgement; what a script does to the state, apart
from its line, is known from the discipline.
-/
namespace Lispbox
open Script

/-! ## Lines and trails -/

namespace Machine

/-- The line of the innermost frame. -/
def line? (m : Machine) : Option Nat := m.frames.head?.map Frame.line

variable {m m' : Machine}

theorem line?_setLine (m : Machine) (line : Nat) : ∀ l ∈ (m.setLine line).line?, l = line := by
  unfold line? setLine
  cases hf : m.frames with
  | nil => simp [hf]
  | cons f fs => simp [withTop, eq_comm]

theorem line?_reportFrom (m : Machine) (line : Nat) :
    ∀ l ∈ (m.reportFrom line).line?, l = line := by
  unfold line? reportFrom
  cases hf : m.frames with
  | nil => simp [hf]
  | cons f fs => simp [withTop, eq_comm]

theorem Untouched.line? (h : m.Untouched m') : m'.line? = m.line? := by
  unfold Machine.line?
  rw [h.frames]

theorem Binds.line? {name : String} {v : Value} (h : m.Binds name v m') : m'.line? = m.line? := by
  cases h with
  | nowhere => rfl
  | inLocals hf hl => simp [Machine.line?, withTop, hf]
  | inGlobals scope => rfl

end Machine

/-- The lines that the frame of a site may be at. -/
def Site.lines (w : Site) : List Nat := w.form.line :: w.before

theorem Site.lines_past (w : Site) (n : Node) : (w.past n).lines = w.lines ++ n.moves := rfl

/-- A call is a site of its own; any other node is evaluated by the form of the site. -/
def Site.Covers (w : Site) (n : Node) : Prop := n.isCall = true ∨ w.form.Governs n

theorem Site.Covers.operand {w : Site} {n c : Node} (h : w.form.Governs n) (hc : c ∈ n.operands) :
    w.Covers c := by
  cases hcall : c.isCall with
  | true => exact .inl hcall
  | false => exact .inr (.operand h hc hcall)

/-- An operand is covered wherever the node is evaluated that has it. -/
theorem Site.Covers.of_operand {w : Site} {n c : Node} (h : w.Covers n) (hn : n.isCall = false)
    (hc : c ∈ n.operands) : w.Covers c := by
  rcases h with h | h
  · rw [hn] at h
    cases h
  · exact .operand h hc

namespace Discipline

/-- What is being evaluated in the frame is code of its file. The frame is at the line of the form,
or at one that it may have been moved to; nothing has moved the frame of a call that is made. -/
structure Fits (D : Discipline) (f : Frame) (s : Spot) : Prop where
  code : D.node f.file s.node
  governed : s.form.Governs s.node
  line : f.line ∈ s.form.line :: s.before
  call : s.node.isCall = true → s.before = []

/-- The trail is that of the frames. -/
def Fit (D : Discipline) (trail : Trail) (frames : List Frame) : Prop :=
  List.Forall₂ (fun o f => ∀ s ∈ o, D.Fits f s) trail frames

/-- The frames below the innermost one are those of the trail. -/
def Stands (D : Discipline) (outer : Trail) (m : Machine) : Prop :=
  ∃ f fs, m.frames = f :: fs ∧ D.Fit outer fs

/-- The state is one in which something is evaluated at the site. -/
structure Holds (D : Discipline) (w : Site) (m : Machine) : Prop where
  stands : D.Stands w.outer m
  line : ∀ l ∈ m.line?, l ∈ w.lines

/-- What is known of an origin. -/
structure Accounts (D : Discipline) (o : Origin) : Prop where
  bare : o.exception.frames = []
  sound : D.Sound o.machine
  trail : D.Fit o.trail o.machine.frames

/-- The exception in a state, and its origin: it has the frames of the origin, or it has none, as it
was raised in this state and no node was left since. -/
structure Told (D : Discipline) (bare : Origin → Prop) (o : Origin) (e : Exception) (m : Machine) :
    Prop where
  origin : D.Accounts o
  unwound : o.machine.Unwound m
  exception : (o.InNode ∧ e = o.thrown) ∨ (bare o ∧ e = o.exception ∧ o.machine = m)

/-- The results of a script and of its account, in the state in which both end. -/
def Reports (D : Discipline) {α : Type} (P : Nat → Prop) (bare : Origin → Prop) :
    Except Departure α → Except Exit α → Machine → Prop
  | .ok a, .ok b, m => a = b ∧ ∀ l ∈ m.line?, P l
  | .error (.raise o), .error (.raise e), m => D.Told bare o e m ∧ ∀ l ∈ m.line?, P l
  | .error (.leave v), .error (.leave v'), _ => v = v'
  | .error (.stop s), .error (.stop s'), _ => s = s'
  | _, _, _ => False

/-- From the state on, the account goes side by side with the script. In the end the innermost frame
is at a line with the property, and exceptions without frames are `bare`. -/
def Tells (D : Discipline) {α : Type} (P : Nat → Prop) (bare : Origin → Prop) (t : Account α)
    (s : Script α) (m : Machine) : Prop :=
  (t m).Parallel (D.Reports P bare) (s m)

variable {D : Discipline} {env : Environment} {α β : Type} {P P' : Nat → Prop}
  {bare bare' : Origin → Prop} {K : Machine → Prop} {Q : Machine → α → Prop}
  {t : Account α} {s : Script α} {m m' : Machine} {w : Site} {path outer : Trail} {n : Node}

theorem Stands.kept (h : D.Stands outer m) (hk : m.Kept m') : D.Stands outer m' := by
  obtain ⟨f, fs, hf, hfit⟩ := h
  rcases hk.stack with ⟨hnil, -⟩ | ⟨g, g', gs, hg, hg', -⟩
  · rw [hf] at hnil
    cases hnil
  · rw [hf] at hg
    obtain ⟨rfl, rfl⟩ := List.cons.inj hg
    exact ⟨g', fs, hg', hfit⟩

/-- After the evaluation of a node the state is one for what is evaluated next. -/
theorem Holds.past (h : D.Holds w m) (hk : m.Kept m')
    (hl : ∀ l ∈ m'.line?, l ∈ w.lines ++ n.moves) : D.Holds (w.past n) m' :=
  ⟨h.stands.kept hk, hl⟩

/-- While a node is being evaluated the frames are those of its trail. -/
theorem Holds.trail (h : D.Holds w m) (hn : D.node m.file n) (hg : w.form.Governs n)
    (hcall : n.isCall = true → w.before = []) : D.Fit (w.trail n) m.frames := by
  obtain ⟨⟨f, fs, hf, hfit⟩, hline⟩ := h
  rw [hf]
  refine .cons ?_ hfit
  rintro _ ⟨⟩
  refine ⟨?_, hg, ?_, hcall⟩
  · simpa [Machine.file, hf] using hn
  · exact hline f.line (by simp [Machine.line?, hf])

/-- An exception that is raised in a node has frames. -/
theorem Accounts.frames_of_inNode {o : Origin} (h : D.Accounts o) (hnode : o.InNode) :
    o.thrown.frames.isEmpty = false := by
  obtain ⟨s, outer, htrail⟩ := hnode
  have hfit := h.trail
  rw [htrail] at hfit
  cases hf : o.machine.frames with
  | nil => rw [hf] at hfit; cases hfit
  | cons f fs => simp [Origin.thrown, Machine.traceback, hf]

/-! ## Rules -/

theorem Told.mono {o : Origin} {e : Exception} (h : D.Told bare o e m)
    (hb : ∀ o, bare o → bare' o) : D.Told bare' o e m :=
  ⟨h.origin, h.unwound, h.exception.imp_right fun h => ⟨hb _ h.1, h.2⟩⟩

theorem Reports.mono {r : Except Departure α} {r' : Except Exit α} (h : D.Reports P bare r r' m)
    (hP : ∀ l, P l → P' l) (hb : ∀ o, bare o → bare' o) : D.Reports P' bare' r r' m := by
  match r, r', h with
  | .ok _, .ok _, h => exact ⟨h.1, fun l hl => hP l (h.2 l hl)⟩
  | .error (.raise _), .error (.raise _), h => exact ⟨h.1.mono hb, fun l hl => hP l (h.2 l hl)⟩
  | .error (.leave _), .error (.leave _), h => exact h
  | .error (.stop _), .error (.stop _), h => exact h

theorem Tells.mono (h : D.Tells P bare t s m) (hP : ∀ l, P l → P' l)
    (hb : ∀ o, bare o → bare' o) : D.Tells P' bare' t s m :=
  Dialogue.Parallel.mono h fun _ _ _ hr => hr.mono hP hb

theorem tells_pure {a : α} (hl : ∀ l ∈ m.line?, P l) : D.Tells P bare (pure a) (pure a) m :=
  .done ⟨rfl, hl⟩

theorem tells_leave {v : Value} :
    D.Tells P bare (Account.depart (.leave v) : Account α) (exit (.leave v)) m := .done rfl

theorem tells_exhausted :
    D.Tells P bare (Account.quiet exhausted : Account α) exhausted m := .abort .exhausted m

/-- One script after another: what is known of the first one from the discipline is known of the
state in which the second one begins. -/
theorem tells_bind {f : α → Account β} {g : α → Script β} (h : D.Tells P bare t s m)
    (hs : D.Runs s K Q m)
    (hf : ∀ m' a, K m' → D.Sound m' → Q m' a → (∀ l ∈ m'.line?, P l) →
      D.Tells P' bare' (f a) (g a) m')
    (hP : ∀ l, P l → P' l) (hb : ∀ o, bare o → bare' o) :
    D.Tells P' bare' (t >>= f) (s >>= g) m := by
  refine Dialogue.Parallel.bind ((Dialogue.Parallel.every h hs).mono fun r r' m' hend => ?_)
  obtain ⟨hr, g, hv⟩ := hend
  match r, r', hr with
  | .ok a, .ok b, hr =>
    obtain ⟨rfl, hl⟩ := hr
    cases g with
    | none =>
      obtain ⟨hk, hs', hq⟩ := hv
      exact hf m' a hk hs' hq hl
    | some st => exact hv.elim
  | .error (.raise o), .error (.raise e), hr => exact .done (hr.mono hP hb)
  | .error (.leave v), .error (.leave v'), hr => exact .done hr
  | .error (.stop sig), .error (.stop sig'), hr => exact .done hr

theorem tells_get {f : Machine → Account β} {g : Machine → Script β}
    (h : D.Tells P bare (f m) (g m) m) :
    D.Tells P bare (Account.quiet get >>= f) (get >>= g) m := h

theorem tells_set {f : Unit → Account β} {g : Unit → Script β}
    (h : D.Tells P bare (f ()) (g ()) m') :
    D.Tells P bare (Account.quiet (set m') >>= f) (set m' >>= g) m := h

theorem tells_modify {change : Machine → Machine} {f : Unit → Account β} {g : Unit → Script β}
    (h : D.Tells P bare (f ()) (g ()) (change m)) :
    D.Tells P bare (Account.quiet (modify change) >>= f) (modify change >>= g) m := h

/-- An exception without frames is raised. -/
theorem tells_raise {e : Exception} (he : e.frames = []) (h : D.Sound m)
    (hfit : D.Fit path m.frames) (hl : ∀ l ∈ m.line?, P l) (hb : bare ⟨e, m, path⟩) :
    D.Tells P bare (Account.of path (exit (.raise e)) : Account α) (exit (.raise e)) m :=
  .done ⟨⟨⟨he, h, hfit⟩, .refl m, .inr ⟨hb, rfl, rfl⟩⟩, hl⟩

/-- A node is left: an exception without frames gets those of the state in which it was raised. -/
theorem tells_withFrames (h : D.Tells P Origin.InNode t s m) :
    D.Tells P (fun _ => False) t (withFrames s) m := by
  unfold Tells
  rw [← (t m).bind_result]
  change ((t m).bind _).Parallel _ (((s m).bind _).bind _)
  rw [Dialogue.bind_assoc]
  refine Dialogue.Parallel.bind (Dialogue.Parallel.mono h fun r r' m' hr => ?_)
  match r, r', hr with
  | .ok a, .ok b, hr => exact .done hr
  | .error (.leave v), .error (.leave v'), hr => exact .done hr
  | .error (.stop sig), .error (.stop sig'), hr => exact .done hr
  | .error (.raise o), .error (.raise e), ⟨ht, hl⟩ =>
    obtain ⟨horigin, hunwound, ⟨hnode, rfl⟩ | ⟨hnode, rfl, rfl⟩⟩ := ht
    · -- the frames that it has already are not empty
      have hframes : o.thrown.frames.isEmpty = false := horigin.frames_of_inNode hnode
      change Dialogue.Parallel _ _ ((if o.thrown.frames.isEmpty then _ else _ : Script α) m')
      rw [hframes]
      exact .done ⟨⟨horigin, hunwound, .inl ⟨hnode, rfl⟩⟩, hl⟩
    · have hframes : o.exception.frames.isEmpty = true := by rw [horigin.bare]; rfl
      change Dialogue.Parallel _ _ ((if o.exception.frames.isEmpty then _ else _ : Script α) _)
      rw [hframes]
      exact .done ⟨⟨horigin, hunwound, .inl ⟨hnode, rfl⟩⟩, hl⟩

end Discipline

/-! ## Scripts that execute no body -/

namespace Script

variable {α β : Type} {s : Script α}

/-- The script raises no exception that has frames. -/
def Bare (s : Script α) : Prop :=
  ∀ m, (s m).Parallel (fun r r' _ => r = r' ∧ ∀ e, r = .error (.raise e) → e.frames = []) (s m)

theorem bare_pure (a : α) : Bare (pure a : Script α) := fun _ => .done ⟨rfl, nofun⟩

theorem bare_raise (c : Cause) : Bare (raise c : Script α) :=
  fun _ => .done ⟨rfl, by rintro _ ⟨⟩; rfl⟩

theorem bare_ask (q : Query) : Bare (ask q) :=
  fun m => .ask m q fun a => .done ⟨rfl, by cases a <;> rintro _ ⟨⟩⟩

theorem bare_bind {f : α → Script β} (hs : s.Bare) (hf : ∀ a, (f a).Bare) : (s >>= f).Bare := by
  refine fun m => .bind ((hs m).mono fun r r' m' ⟨hr, hbare⟩ => ?_)
  subst hr
  cases r with
  | ok a => exact hf a m'
  | error e => exact .done ⟨rfl, by rintro _ ⟨⟩; exact hbare _ rfl⟩

theorem bare_get {f : Machine → Script β} (hf : ∀ m, (f m).Bare) : (get >>= f).Bare :=
  fun m => hf m m

theorem bare_talk {asks : Query → Prop} (h : s.Talks asks) : s.Bare := by
  induction h with
  | pure a => exact bare_pure a
  | raise c => exact bare_raise c
  | crash reason => exact fun m => .abort _ m
  | ask _ _ ih => exact bare_bind (bare_ask _) ih

theorem bare_native (n : Native) (args : List Value) : (n.call args).Bare :=
  bare_talk (n.talks_call args)

theorem bare_lookupName (name : String) : (lookupName name).Bare := by
  refine bare_get fun m => ?_
  split
  · exact bare_pure _
  · exact bare_raise _

theorem bare_lookupMember (object member : String) : (lookupMember object member).Bare := by
  refine bare_bind (bare_lookupName object) fun v => ?_
  split
  · split
    · exact bare_pure _
    · exact bare_raise _
  · exact bare_raise _

end Script

namespace Discipline

variable {D : Discipline} {env : Environment} {α β : Type} {P : Nat → Prop}
  {bare : Origin → Prop} {Q : Machine → α → Prop} {m : Machine} {w : Site} {path outer : Trail}

/-- What executes no body and leaves the frames as they are. -/
theorem tells_of {s : Script α} (hbare : s.Bare) (hs : D.Runs s m.Untouched Q m)
    (hfit : D.Fit path m.frames) (hl : ∀ l ∈ m.line?, P l) (hb : ∀ o, o.trail = path → bare o) :
    D.Tells P bare (Account.of path s) s m := by
  unfold Tells
  rw [← (s m).bind_result]
  change ((s m).bind _).Parallel _ ((s m).bind _)
  refine .bind ((Dialogue.Parallel.every (hbare m) hs).mono
    fun r r' m' ⟨⟨hr, hframes⟩, g, hv⟩ => ?_)
  subst hr
  have huntouched : m.Untouched m' := hv.state
  have hl' : ∀ l ∈ m'.line?, P l := huntouched.line? ▸ hl
  match g, r, hv with
  | none, .ok a, _ => exact .done ⟨rfl, hl'⟩
  | none, .error (.raise e), ⟨_, hs', _⟩ =>
    have hfit' : D.Fit path m'.frames := huntouched.frames ▸ hfit
    exact .done ⟨⟨⟨hframes e rfl, hs', hfit'⟩, .refl m', .inr ⟨hb _ rfl, rfl, rfl⟩⟩, hl'⟩
  | none, .error (.leave v), _ => exact .done rfl
  | some st, .error (.stop sig), _ => exact .done rfl

theorem tells_of_get {f : Machine → Script α}
    (h : D.Tells P bare (Account.of path (f m)) (f m) m) :
    D.Tells P bare (Account.of path (get >>= f)) (get >>= f) m := h

end Discipline
end Lispbox
