import Lispbox.Proofs.Run.Watch

/-!
# The ceiling of the frame stack

As many frames may be active as the limit says, the frame of the main program among them, and no
more. A function, a deferred body and a module begin in the same way (`Machine.Begins`): with room
for one more frame the body is executed in it, and otherwise nothing is.

* `Watch.depth`: between the frames that a script began with and the limit, at every question.
* `Begins.refused`, `Begins.entered`: the two ways in which a body may begin.
* `frames_limited`: the ceiling, for runs and for single operations.
-/
namespace Lispbox
open Script

variable {env : Environment} {ev : Evaluator}

/-! ## The stack of a run -/

/-- So many frames are active. -/
def Machine.Within (low high : Nat) (m : Machine) : Prop :=
  low ≤ m.frames.length ∧ m.frames.length ≤ high

theorem Machine.Within.of_length {low high : Nat} {m m' : Machine} (h : m.Within low high)
    (hl : m'.frames.length = m.frames.length) : m'.Within low high := by
  unfold Machine.Within
  rwa [hl]

/-- The number of active frames, and of those in a traceback. -/
def Watch.depth (env : Environment) : Watch where
  stop _ := False
  before k m := m.Within k env.depth
  asks k m := m.Within k env.depth
  allowed e := e.frames.length ≤ env.depth

theorem Watch.depth_lawful (env : Environment) : (Watch.depth env).Lawful env where
  asks_before h := h
  asks_outer h := ⟨Nat.le_of_succ_le h.1, h.2⟩
  alters h ha := h.of_length ha.kept.length
  grows h hg := h.of_length (congrArg List.length hg.untouched.frames)
  enters {k m} f line h hroom := by
    have hlength := (Machine.kept_reportFrom (m.push f) line).length
    have hwithin : (m.push f).Within (k + 1) env.depth := ⟨Nat.succ_le_succ h.1, hroom⟩
    exact ⟨hwithin.of_length hlength, fun _ => hwithin.of_length hlength⟩
  leaves h hk _ := h.of_length (congrArg List.length hk.pop.frames)
  allowed_bare he := Nat.le_trans (Nat.le_of_eq (congrArg List.length he)) (Nat.zero_le _)
  allowed_trace {k m e} h _ := by
    have hlength : m.traceback.length = m.frames.length := by simp [Machine.traceback]
    exact Nat.le_trans (Nat.le_of_eq hlength) h.2

/-- The dialogue of a program, up to the limit. -/
theorem dialogue_within (env : Environment) (fuel : Nat) (p : Program) :
    (p.dialogue env fuel).Until (fun _ => False) (Machine.Within 1 env.depth)
      fun r _ => ∀ e, r = .error e → e.Raises fun e => e.frames.length ≤ env.depth := by
  have hmain := (Watch.congruence (Watch.depth_lawful env)).of_main (k := 0) fuel p
  have hstart : (Machine.enterMain p).Within 1 env.depth :=
    ⟨Nat.le_refl 1, Nat.le_max_left 1 env.limit⟩
  rw [dialogue_main]
  exact .bind ((hmain _ hstart).mono (fun _ h => h) fun r m ⟨_, _, hr⟩ => hr)

/-! ## Bodies that begin -/

/-- A call with the right number of arguments, an await of a deferred value and an import of a
module that is not known yet: the operation with the frame and the statements of its body, and the
state in which the body begins, its frame aside. -/
inductive Machine.Begins (env : Environment) (ev : Evaluator) (m : Machine) :
    Script Value → Frame → Block → Machine → Prop where
  | call {d : Definition} {home : Home} {scope : Nat} {args : List Value}
    (hargs : args.length = d.params.length) :
    m.Begins env ev (callValue env ev (.function d home scope) args)
      ⟨d.name, d.file, d.line, none, some (d.params.zip args), scope⟩ d.body m
  | await {serial : Nat} {body : Block} {locals : Bindings} {file : String} {scope rounds : Nat} :
    m.Begins env ev (settle env ev (rounds + 1) (.deferred serial body locals file scope))
      ⟨"<async>", file, firstLine body, none, some locals, scope⟩ body m
  | load {name s : String} {p : Program} (hnew : m.loaded.get? name = none)
    (hr : env.registry.get? name = some ⟨s, .script p⟩) :
    m.Begins env ev (load env ev name) ⟨"<module>", p.file, 1, none, none, m.namespaces.length⟩
      p.body (m.openModule name p)

namespace Machine

variable {m m₀ : Machine} {s : Script Value} {f : Frame} {body : Block}

/-- A module gets a namespace before its body begins; nothing else is new. -/
theorem Begins.state (h : m.Begins env ev s f body m₀) :
    m₀.frames = m.frames ∧ m₀.loaded = m.loaded ∧ m.namespaces <+: m₀.namespaces := by
  cases h with
  | call => exact ⟨rfl, rfl, List.prefix_refl _⟩
  | await => exact ⟨rfl, rfl, List.prefix_refl _⟩
  | load => exact ⟨rfl, rfl, List.prefix_append _ _⟩

/-- Without room nothing of the body is executed, and nothing is asked. -/
theorem Begins.refused (h : m.Begins env ev s f body m₀) (hfull : env.depth ≤ m.frames.length) :
    s m = raise .depthExceeded m₀.refuse := by
  cases h with
  | call hargs =>
    change (if _ then _ else _ : Script Value) m = _
    rw [if_neg (not_not_intro hargs), enter_full hfull]
  | await =>
    change (enter env _ _ m).bind _ = _
    rw [enter_full hfull]
    rfl
  | load hnew hr => exact load_refused hnew hr hfull

/-- With room the body is executed in its frame. What it raises is passed on; if it has a value, the
operation ends with one as well, except that awaiting goes on if the value is deferred again. -/
theorem Begins.entered (h : m.Begins env ev s f body m₀) (hroom : m.frames.length < env.depth) :
    ∃ after, s m = (untilLeft (runBlock ev .nil body) (m₀.push f)).bind after ∧
      (∀ e m₁, after (.error e) m₁ = .done (.error e) m₁.pop) ∧
      ∀ v m₁, (∃ w m₂, after (.ok v) m₁ = .done (.ok w) m₂) ∨
        ∃ rounds, after (.ok v) m₁ = settle env ev rounds v m₁.pop := by
  cases h with
  | call hargs =>
    refine ⟨fun r m₁ => .done r m₁.pop, ?_, fun e m₁ => rfl, fun v m₁ => .inl ⟨v, m₁.pop, rfl⟩⟩
    change (if _ then _ else _ : Script Value) m = _
    rw [if_neg (not_not_intro hargs), enter_room hroom]
  | @await serial body locals file scope rounds =>
    refine ⟨fun r m₁ => (ofExcept r >>= settle env ev rounds) m₁.pop, ?_, fun e m₁ => rfl,
      fun v m₁ => .inr ⟨rounds, rfl⟩⟩
    change (enter env _ _ m).bind _ = _
    rw [enter_room hroom, Dialogue.bind_assoc]
    rfl
  | load hnew hr =>
    exact ⟨_, load_script hnew hr hroom, fun e m₁ => rfl, fun v m₁ => .inl ⟨_, _, rfl⟩⟩

end Machine

/-- An exception without frames gets those that are active. -/
theorem withFrames_raised {α : Type} {s : Script α} {m m' : Machine} {e : Exception}
    (hs : s m = .done (.error (.raise e)) m') (he : e.frames = []) :
    withFrames s m = .done (.error (.raise { e with frames := m'.traceback })) m' := by
  change ((s m).bind _).bind _ = _
  rw [hs]
  change (if e.frames.isEmpty then _ else _ : Script α) m' = _
  rw [he]
  rfl

/-- In a run with a limit of at least one, between one and as many frames as the limit says are
active whenever the host is asked, and so before every node and every statement; and an exception
that nothing handles has at most so many frames.

If as many frames are active when a body is to begin, the operation raises the error of recursion in
the frame that it is executed in, at once: whatever the statements of the body do and whatever the
host would answer. No frame, no module and no namespace that was there is different afterwards. With
fewer frames the operation does not raise the error itself: it has the outcome of its body, in a
frame of its own. -/
theorem frames_limited (r : Registry) {limit : Nat} (hlimit : 1 ≤ limit) :
    (∀ {σ : Type} (h : Host σ) (fuel : Nat) (p : Program) (t : σ),
      (∀ x ∈ (p.dialogue ⟨r, limit⟩ fuel).exchanges h t, x.machine.Within 1 limit) ∧
      ∀ e m t', p.run h ⟨r, limit⟩ fuel t = (.ended (.raised e), m, t') →
        e.frames.length ≤ limit) ∧
    ∀ (ev : Evaluator) (m : Machine) (s : Script Value) (f : Frame) (body : Block) (m₀ : Machine),
      m.Begins ⟨r, limit⟩ ev s f body m₀ →
      (limit ≤ m.frames.length → ∃ (e : Exception) (m' : Machine),
        s m = .done (.error (.raise e)) m' ∧ e.name = "RecursionError" ∧ e.frames = [] ∧
        withFrames s m = .done (.error (.raise { e with frames := m'.traceback })) m' ∧
        m'.frames = m.frames ∧ m'.loaded = m.loaded ∧ m.namespaces <+: m'.namespaces) ∧
      (m.frames.length < limit → ∃ after,
        s m = (untilLeft (runBlock ev .nil body) (m₀.push f)).bind after ∧
        (∀ e m₁, after (.error e) m₁ = .done (.error e) m₁.pop) ∧
        ∀ v m₁, (∃ w m₂, after (.ok v) m₁ = .done (.ok w) m₂) ∨
          ∃ rounds, after (.ok v) m₁ = settle ⟨r, limit⟩ ev rounds v m₁.pop) := by
  have hdepth : (⟨r, limit⟩ : Environment).depth = limit := Nat.max_eq_right hlimit
  constructor
  · intro σ h fuel p t
    have hd := dialogue_within ⟨r, limit⟩ fuel p
    rw [hdepth] at hd
    constructor
    · intro x hx
      obtain ⟨before, after, hx⟩ := List.append_of_mem hx
      exact hd.asked h t hx fun _ _ => id
    · intro e m t' hrun
      have hresult : ((p.dialogue ⟨r, limit⟩ fuel).run h t).1 = .ok (.error (.raise e)) :=
        RunEnd.raised_of_result (congrArg Prod.fst hrun)
      have hend := hd.run h t fun _ _ => id
      rw [hresult] at hend
      exact hend _ rfl
  · intro ev m s f body m₀ hb
    obtain ⟨hframes, hloaded, hnamespaces⟩ := hb.state
    constructor
    · intro hfull
      have hs := hb.refused (hdepth.symm ▸ hfull)
      exact ⟨_, _, hs, by decide, rfl, withFrames_raised hs rfl, hframes, hloaded, hnamespaces⟩
    · intro hroom
      exact hb.entered (hdepth.symm ▸ hroom)

namespace Depth

/-- A function without end. -/
def endless : Program :=
  ⟨"main", "", [.define 1 "f" [] [.call 1 (.variable 1 "f") []] "main" 1,
    .call 2 (.variable 2 "f") []]⟩

/-- A function that binds `x`. -/
def body : Block := [.bind 1 "x" (.literal 1 .nil)]

def callee : Value := .function ⟨"g", [], body, "main", 1, 1⟩ .program 0

/-- Two frames are active. -/
def inside : Machine :=
  { Machine.start ⟨"main", "", []⟩ with
    frames := [⟨"f", "main", 1, none, some [], 0⟩, ⟨"<module>", "main", 2, none, none, 0⟩] }

theorem begins_callee (env : Environment) (ev : Evaluator) :
    inside.Begins env ev (callValue env ev callee []) ⟨"g", "main", 1, none, some [], 0⟩ body
      inside :=
  .call (d := ⟨"g", [], body, "main", 1, 1⟩) rfl

/-- A function without end fills the stack of two frames, and fails with both of them. A function is
refused in this state; with a limit of three it is executed. -/
theorem frames_limited_two :
    (∃ e m, endless.run .obliging ⟨.standard, 2⟩ 9 () = (.ended (.raised e), m, ()) ∧
      e.name = "RecursionError" ∧ e.frames.length ≤ 2) ∧
    (∃ e m', callValue ⟨.standard, 2⟩ (eval ⟨.standard, 2⟩ 9) callee [] inside =
      .done (.error (.raise e)) m' ∧ e.name = "RecursionError") ∧
    ∃ after, callValue ⟨.standard, 3⟩ (eval ⟨.standard, 3⟩ 9) callee [] inside =
      (untilLeft (runBlock (eval ⟨.standard, 3⟩ 9) .nil body)
        (inside.push ⟨"g", "main", 1, none, some [], 0⟩)).bind after := by
  refine ⟨⟨_, _, rfl, by decide, ?_⟩, ?_, ?_⟩
  · exact ((frames_limited .standard (by decide : 1 ≤ 2)).1 .obliging 9 endless ()).2 _ _ _ rfl
  · obtain ⟨e, m', hs, hname, -⟩ := ((frames_limited .standard (by decide : 1 ≤ 2)).2
      _ inside _ _ _ _ (begins_callee _ (eval ⟨.standard, 2⟩ 9))).1 (Nat.le_refl 2)
    exact ⟨e, m', hs, hname⟩
  · obtain ⟨after, hs, -⟩ := ((frames_limited .standard (by decide : 1 ≤ 3)).2
      _ inside _ _ _ _ (begins_callee _ (eval ⟨.standard, 3⟩ 9))).2 (by decide)
    exact ⟨after, hs⟩

end Depth
end Lispbox
