import Mathlib.Logic.Relation
import Lispbox.Proofs.Run.FrameStack

/-!
# The steps of a run

`Machine.Step` lists the changes that an evaluation makes of the state of a run, each with the
conditions under which it is made. From the start of an evaluation to its first question, between
questions, and from the last one to the end there are such steps and nothing else (`eval_walks`,
`dialogue_walks`). So what every step preserves is preserved by a run.

A body that is called and a body that is awaited begin with one step and end with another. The body
of a module begins with the step that opens its namespace; that it ends and that its module object
is remembered is one step, too. A module whose frame is refused has its namespace all the same.

* `Walks.later`: a state of a conversation, and all that come after it.
* `load_cases`: the ways of an import.
-/
namespace Lispbox
open Script

namespace Machine

/-- Whose globals are in the namespace. -/
def homeAt? (m : Machine) (scope : Nat) : Option Home := (m.owners[scope]?).map Prod.fst

/-- The body of a module begins, in a namespace and a frame of its own. -/
def enterModule (m : Machine) (name : String) (p : Program) : Machine :=
  (m.openModule name p).push ⟨"<module>", p.file, 1, none, none, m.namespaces.length⟩

/-- The object of a module with its globals in the namespace. -/
def moduleObject (m : Machine) (name : String) (scope : Nat) : Value :=
  .module m.serial name (match m.namespaces[scope]? with
    | some n => n.bindings
    | none => [])

/-- The body of a module is over, and the module is remembered. -/
def finishModule (m : Machine) (name : String) (scope : Nat) : Machine :=
  m.pop.advance.remember name (m.moduleObject name scope)

theorem homeAt?_enterModule (m : Machine) (name : String) (p : Program) :
    (m.enterModule name p).homeAt? m.namespaces.length = some (.module name) := by
  simp [homeAt?, owners, enterModule, openModule, push]

/-- Namespaces stay whose they are. -/
theorem Kept.home {m m' : Machine} (h : m.Kept m') {scope : Nat} {home : Home}
    (hs : m.homeAt? scope = some home) : m'.homeAt? scope = some home := by
  obtain ⟨owner, howner, rfl⟩ := Option.map_eq_some_iff.mp hs
  obtain ⟨hlt, rfl⟩ := List.getElem?_eq_some_iff.mp howner
  exact Option.map_eq_some_iff.mpr ⟨_, List.prefix_iff_getElem?.mp h.owners scope hlt, rfl⟩

/-- The innermost frame after the body of a module has been executed. -/
theorem Kept.ofModule {m m₁ : Machine} {name : String} {p : Program}
    (h : (m.enterModule name p).Kept m₁) :
    ∃ f, m₁.frames = f :: m.frames ∧ f.locals = none ∧ f.scope = m.namespaces.length ∧
      m₁.homeAt? f.scope = some (.module name) := by
  obtain ⟨hf, -⟩ | ⟨g, f, fs, hg, hf, hshape⟩ := h.stack
  · cases hf
  · obtain ⟨rfl, rfl⟩ := List.cons.inj hg
    have hscope := Frame.scope_eq hshape
    have hlocals : f.locals.isSome = false := congrArg (fun shape => shape.2.2.2) hshape
    refine ⟨f, hf, by simpa using hlocals, hscope, ?_⟩
    rw [hscope]
    exact h.home (homeAt?_enterModule m name p)

/-- A change that an evaluation makes. -/
inductive Step (env : Environment) (m : Machine) : Machine → Prop where
  | setLine (line : Nat) : Step env m (m.setLine line)
  | reportFrom (line : Nat) : Step env m (m.reportFrom line)
  | bind {name : String} {v : Value} {m' : Machine} (h : m.Binds name v m') : Step env m m'
  | advance : Step env m m.advance
  | refuse (hfull : env.depth ≤ m.frames.length) : Step env m m.refuse
  /-- A function, a deferred body or the main program begins. -/
  | push {f : Frame} (hroom : m.frames.length < env.depth)
    (hhome : f.locals = none → m.homeAt? f.scope = some .program) : Step env m (m.push f)
  | pop : Step env m m.pop
  | native {name s : String} {members : Bindings} (hnew : m.loaded.get? name = none)
    (hr : env.registry.get? name = some ⟨s, .native members⟩) :
    Step env m (m.advance.remember name (.module m.serial name members))
  | refuseModule {name s : String} {p : Program} (hnew : m.loaded.get? name = none)
    (hr : env.registry.get? name = some ⟨s, .script p⟩) (hfull : env.depth ≤ m.frames.length) :
    Step env m (m.openModule name p).refuse
  | enterModule {name s : String} {p : Program} (hnew : m.loaded.get? name = none)
    (hr : env.registry.get? name = some ⟨s, .script p⟩) (hroom : m.frames.length < env.depth) :
    Step env m (m.enterModule name p)
  | finishModule {name s : String} {p : Program} {f : Frame} {fs : List Frame}
    (hr : env.registry.get? name = some ⟨s, .script p⟩) (hf : m.frames = f :: fs)
    (hlocals : f.locals = none) (hhome : m.homeAt? f.scope = some (.module name)) :
    Step env m (m.finishModule name f.scope)

/-- Any number of changes. -/
abbrev Steps (env : Environment) : Machine → Machine → Prop := Relation.ReflTransGen (Step env)

end Machine

/-! ## The states of a dialogue -/

namespace Dialogue

theorem bind_assoc {ρ τ υ : Type} (d : Dialogue ρ) (f : ρ → Machine → Dialogue τ)
    (g : τ → Machine → Dialogue υ) :
    (d.bind f).bind g = d.bind fun r m => (f r m).bind g := by
  induction d with
  | done r m => rfl
  | abort a m => rfl
  | ask m q resume ih => exact congrArg (ask m q) (funext ih)

variable {ρ τ σ : Type} {S : Machine → Machine → Prop} {ends : ρ → Machine → Prop}
  {m m' : Machine} {d : Dialogue ρ}

/-- Every state of the dialogue, on each of its courses, is related to the one before it, the first
of them to the given one; the results are as required. -/
inductive Walks (S : Machine → Machine → Prop) (ends : ρ → Machine → Prop) :
    Machine → Dialogue ρ → Prop where
  | done {m m' : Machine} {r : ρ} (h : S m m') (hr : ends r m') : Walks S ends m (.done r m')
  | abort {m m' : Machine} {a : Abort} (h : S m m') : Walks S ends m (.abort a m')
  | ask {m m' : Machine} {q : Query} {k : Except Signal q.Answer → Dialogue ρ} (h : S m m')
    (hk : ∀ a, Walks S ends m' (k a)) : Walks S ends m (.ask m' q k)

/-- What is known of all courses of the dialogue is known of its results. -/
theorem Walks.every {asks : Machine → Query → Prop} {aborts : Abort → Prop}
    {after : Option Stopped → ρ → Machine → Prop} {g : Option Stopped} (hd : Walks S ends m d)
    (he : d.Every asks aborts after g) : Walks S (fun r m => ∃ g, after g r m) m d := by
  induction hd generalizing g with
  | done h hr => exact .done h ⟨g, he⟩
  | abort h => exact .abort h
  | ask h _ ih =>
    obtain ⟨-, -, hok, hstop⟩ := he
    refine .ask h fun a => ?_
    cases a with
    | ok a => exact ih _ (hok a)
    | error s => exact ih _ (hstop s)

variable {env : Environment}

/-- Steps that were made before. -/
theorem Walks.from (h : m.Steps env m') (hd : Walks (Machine.Steps env) ends m' d) :
    Walks (Machine.Steps env) ends m d := by
  cases hd with
  | done h' hr => exact .done (h.trans h') hr
  | abort h' => exact .abort (h.trans h')
  | ask h' hk => exact .ask (h.trans h') hk

theorem Walks.bind {f : ρ → Machine → Dialogue τ} {ends' : τ → Machine → Prop}
    (hd : Walks (Machine.Steps env) ends m d)
    (hf : ∀ r m, ends r m → Walks (Machine.Steps env) ends' m (f r m)) :
    Walks (Machine.Steps env) ends' m (d.bind f) := by
  induction hd with
  | done h hr => exact .from h (hf _ _ hr)
  | abort h => exact .abort h
  | ask h _ ih => exact .ask h ih

/-- The states of a conversation: in all of them one is related to those after it. -/
theorem Walks.steps (hd : Walks (Machine.Steps env) ends m d) (h : Host σ) (s : σ) :
    (∀ x ∈ d.exchanges h s, m.Steps env x.machine) ∧ m.Steps env (d.run h s).2.1 := by
  induction hd generalizing s with
  | done h _ => exact ⟨fun x hx => absurd hx (by simp [exchanges]), h⟩
  | abort h => exact ⟨fun x hx => absurd hx (by simp [exchanges]), h⟩
  | ask h _ ih =>
    obtain ⟨hasked, hend⟩ := ih _ _
    refine ⟨fun x hx => ?_, h.trans hend⟩
    rw [exchanges_ask] at hx
    rcases List.mem_cons.mp hx with rfl | hx
    · exact h
    · exact h.trans (hasked x hx)

/-- From a question of a conversation there are steps to every later one, and to the end. -/
theorem Walks.later (hd : Walks (Machine.Steps env) ends m d) (h : Host σ) (s : σ)
    {before after : List Exchange} {x : Exchange}
    (hx : d.exchanges h s = before ++ x :: after) :
    m.Steps env x.machine ∧ (∀ y ∈ after, x.machine.Steps env y.machine) ∧
      x.machine.Steps env (d.run h s).2.1 := by
  induction hd generalizing s before with
  | done => simp [exchanges] at hx
  | abort => simp [exchanges] at hx
  | ask hm hk ih =>
    rw [exchanges_ask] at hx
    cases before with
    | nil =>
      obtain ⟨rfl, rfl⟩ := List.cons.inj hx
      exact ⟨hm, (hk _).steps h _⟩
    | cons b bs =>
      obtain ⟨hfirst, hlater⟩ := ih _ _ (List.cons.inj hx).2
      exact ⟨hm.trans hfirst, hlater⟩

end Dialogue

/-! ## Scripts -/

namespace Script

variable {env : Environment} {α β : Type} {m m' : Machine} {s : Script α}

/-- From the state on, the script changes the state by steps. -/
def Walks (env : Environment) (m : Machine) (s : Script α) : Prop :=
  (s m).Walks (Machine.Steps env) (fun _ _ => True) m

theorem walks_ofExcept (r : Except Exit α) : Walks env m (ofExcept r) := .done .refl trivial

theorem walks_pure (a : α) : Walks env m (pure a : Script α) := .done .refl trivial

theorem walks_exit (e : Exit) : Walks env m (exit e : Script α) := .done .refl trivial

theorem walks_raise (c : Cause) : Walks env m (raise c : Script α) := .done .refl trivial

theorem walks_exhausted : Walks env m (exhausted : Script α) := .abort .refl

theorem walks_ask (q : Query) : Walks env m (ask q) := .ask .refl fun _ => .done .refl trivial

theorem walks_bind {f : α → Script β} (hs : Walks env m s) (hf : ∀ a m, Walks env m (f a)) :
    Walks env m (s >>= f) := by
  refine hs.bind fun r m _ => ?_
  cases r with
  | ok a => exact hf a m
  | error e => exact .done .refl trivial

/-- A script that goes on after another one whatever its outcome is. -/
theorem walks_handle {k : Except Exit α → Script β} (hs : Walks env m s)
    (hk : ∀ r m, Walks env m (k r)) : Walks env m (outcome s >>= k) := by
  unfold Walks
  change (Dialogue.bind ((s m).bind _) _).Walks _ _ m
  rw [Dialogue.bind_assoc]
  exact hs.bind fun r m _ => hk r m

theorem walks_get {f : Machine → Script β} (h : Walks env m (f m)) : Walks env m (get >>= f) := h

theorem walks_set {f : Unit → Script β} (h : m.Steps env m') (hf : Walks env m' (f ())) :
    Walks env m (set m' >>= f) := .from h hf

theorem walks_modify {g : Machine → Machine} {f : Unit → Script β} (h : m.Steps env (g m))
    (hf : Walks env (g m) (f ())) : Walks env m (modify g >>= f) := .from h hf

end Script

/-! ## Native functions -/

section

variable {env : Environment} {m : Machine}

theorem walks_talk {α : Type} {asks : Query → Prop} {s : Script α} (h : s.Talks asks) :
    Walks env m s := by
  induction h generalizing m with
  | pure a => exact walks_pure a
  | raise c => exact walks_raise c
  | crash reason => exact .abort .refl
  | ask _ _ ih => exact walks_bind (walks_ask _) fun a _ => ih a

theorem walks_native (n : Native) (args : List Value) : Walks env m (n.call args) :=
  walks_talk (n.talks_call args)

/-! ## Frames -/

theorem walks_reportLine (always : Bool) (line : Nat) : Walks env m (reportLine always line) := by
  unfold reportLine
  apply walks_get
  split
  · exact walks_pure _
  · split
    · exact .done (.single (.setLine line)) trivial
    · exact walks_set (.single (.reportFrom line)) (walks_ask _)

theorem walks_withFrames {s : Script Value} (hs : Walks env m s) : Walks env m (withFrames s) := by
  refine walks_handle hs fun r m => ?_
  split
  · split
    · exact walks_get (walks_exit _)
    · exact walks_exit _
  · exact walks_ofExcept _

theorem walks_untilLeft {s : Script Value} (hs : Walks env m s) : Walks env m (untilLeft s) := by
  refine walks_handle hs fun r m => ?_
  split
  · exact walks_pure _
  · exact walks_ofExcept _

theorem walks_enter {f : Frame} {body : Script Value}
    (hhome : f.locals = none → m.homeAt? f.scope = some .program)
    (hbody : ∀ m, Walks env m body) : Walks env m (enter env f body) := by
  unfold enter
  apply walks_get
  split
  · next hfull => exact walks_set (.single (.refuse hfull)) (walks_raise _)
  · next hroom =>
    refine walks_set (.single (.push (Nat.lt_of_not_le hroom) hhome)) ?_
    exact walks_handle (hbody _) fun r m => walks_modify (.single .pop) (walks_ofExcept r)

/-! ## Parts of the evaluator -/

/-- Evaluations change the state by steps, and keep the frames. -/
structure Evaluator.Walks (env : Environment) (ev : Evaluator) : Prop where
  walks : ∀ n m, Script.Walks env m (ev n)
  keeps : Discipline.free.Evaluates ev

variable {ev : Evaluator}

theorem walks_runBlock (hev : Evaluator.Walks env ev) (last : Value) (ns : Block) :
    Walks env m (runBlock ev last ns) := by
  induction ns generalizing m last with
  | nil => exact walks_pure _
  | cons n ns ih =>
    exact walks_bind (walks_reportLine _ _) fun _ m =>
      walks_bind (hev.walks n m) fun v _ => ih v

theorem walks_evalAll (hev : Evaluator.Walks env ev) (ns : List Node) :
    Walks env m (evalAll ev ns) := by
  induction ns generalizing m with
  | nil => exact walks_pure _
  | cons n ns ih =>
    exact walks_bind (hev.walks n m) fun _ _ => walks_bind ih fun _ _ => walks_pure _

theorem walks_evalUntil (hev : Evaluator.Walks env ev) (stop : Bool) (last : Value)
    (ns : List Node) : Walks env m (evalUntil ev stop last ns) := by
  induction ns generalizing m last with
  | nil => exact walks_pure _
  | cons n ns ih =>
    refine walks_bind (hev.walks n m) fun v m => ?_
    split
    · exact walks_pure _
    · exact ih v

theorem walks_body (hev : Evaluator.Walks env ev) (body : Block) :
    Walks env m (untilLeft (runBlock ev .nil body)) :=
  walks_untilLeft (walks_runBlock hev _ body)

theorem walks_callValue (hev : Evaluator.Walks env ev) (callee : Value) (args : List Value) :
    Walks env m (callValue env ev callee args) := by
  unfold callValue
  split
  · unfold callFunction
    split
    · exact walks_raise _
    · exact walks_enter (fun h => by cases h) fun _ => walks_body hev _
  · exact walks_native _ _
  · exact walks_raise _

theorem walks_settle (hev : Evaluator.Walks env ev) (rounds : Nat) (v : Value) :
    Walks env m (settle env ev rounds v) := by
  fun_induction settle env ev rounds v generalizing m with
  | case1 => exact walks_exhausted
  | case2 fuel serial body locals file scope ih =>
    exact walks_bind (walks_enter (fun h => by cases h) fun _ => walks_body hev _) fun w _ => ih w
  | case3 => exact walks_pure _

theorem walks_lookupName (name : String) : Walks env m (lookupName name) := by
  unfold lookupName
  apply walks_get
  split
  · exact walks_pure _
  · exact walks_raise _

theorem walks_lookupMember (object member : String) :
    Walks env m (lookupMember object member) := by
  unfold lookupMember
  refine walks_bind (walks_lookupName object) fun v m => ?_
  split
  · split
    · exact walks_pure _
    · exact walks_raise _
  · exact walks_raise _

theorem walks_assignName (name : String) (v : Value) : Walks env m (assignName name v) := by
  unfold assignName
  apply walks_get
  split
  · next m' ha => exact .done (.single (.bind (Machine.binds_assign ha))) trivial
  · exact walks_raise _

theorem walks_runLoop (hev : Evaluator.Walks env ev) (line : Nat) (condition : Node)
    (body : Block) (rounds : Nat) (isFirst : Bool) :
    Walks env m (runLoop ev line condition body rounds isFirst) := by
  induction rounds generalizing m isFirst with
  | zero => exact walks_exhausted
  | succ rounds ih =>
    have round (m : Machine) : Walks env m (do
        let c ← ev condition
        if c.isTrue then
          let _ ← runBlock ev .nil body
          runLoop ev line condition body rounds false
        else return .nil) := by
      refine walks_bind (hev.walks condition m) fun c m => ?_
      split
      · exact walks_bind (walks_runBlock hev _ body) fun _ _ => ih false
      · exact walks_pure _
    unfold runLoop
    split
    · exact walks_bind (walks_reportLine true line) fun _ m => round m
    · exact round m

theorem walks_runAttempt (hev : Evaluator.Walks env ev) (body : Block)
    (handlers : List Handler) : Walks env m (runAttempt ev body handlers) := by
  refine walks_handle (walks_runBlock hev _ body) fun r m => ?_
  split
  · split
    · exact walks_exit _
    · split
      · exact walks_modify (.single (.bind (Machine.binds_bind m _ _))) (walks_runBlock hev _ _)
      · exact walks_bind (walks_pure ()) fun _ m => walks_runBlock hev _ _
  · exact walks_ofExcept _

theorem walks_evalMessage (hev : Evaluator.Walks env ev) (message : Option Node) :
    Walks env m (evalMessage ev message) := by
  cases message with
  | none => exact walks_pure _
  | some n => exact walks_bind (hev.walks n m) fun _ _ => walks_pure _

theorem walks_deferBody (body : Block) : Walks env m (deferBody body) :=
  .done (.single .advance) trivial

/-! ## Imports -/

section

variable {f : Frame} {body : Script Value} {name s : String} {p : Program}

theorem enter_full (hfull : env.depth ≤ m.frames.length) :
    enter env f body m = raise .depthExceeded m.refuse := by
  change (if env.depth ≤ m.frames.length then _ else _ : Script Value) m = _
  rw [if_pos hfull]
  rfl

theorem enter_room (hroom : m.frames.length < env.depth) :
    enter env f body m = (body (m.push f)).bind fun r m₁ => .done r m₁.pop := by
  change (if env.depth ≤ m.frames.length then _ else _ : Script Value) m = _
  rw [if_neg (Nat.not_le_of_lt hroom)]
  exact Dialogue.bind_assoc _ _ _

/-- What an import comes to in a state. -/
theorem load_apply (env : Environment) (ev : Evaluator) (name : String) (m : Machine) :
    load env ev name m =
      match m.loaded.get? name with
      | some v => .done (.ok v) m
      | none =>
        match env.registry.get? name with
        | none => raise (.noModule name) m
        | some ⟨_, .native members⟩ => addModule name members m
        | some ⟨_, .script p⟩ => (runModule env ev name p >>= addModule name) m := by
  change (match m.loaded.get? name with | some v => pure v | none => _ : Script Value) m = _
  cases m.loaded.get? name with
  | some v => rfl
  | none =>
    cases env.registry.get? name with
    | none => rfl
    | some module =>
      obtain ⟨_, source⟩ := module
      cases source <;> rfl

/-- The import of a module that was imported before changes nothing. -/
theorem load_loaded {v : Value} (hv : m.loaded.get? name = some v) :
    load env ev name m = .done (.ok v) m := by
  rw [load_apply, hv]

/-- If there is no room for the body of a module, a namespace is all that it gets. -/
theorem load_refused (hnew : m.loaded.get? name = none)
    (hr : env.registry.get? name = some ⟨s, .script p⟩) (hfull : env.depth ≤ m.frames.length) :
    load env ev name m = raise .depthExceeded (m.openModule name p).refuse := by
  rw [load_apply, hnew, hr]
  change ((enter env _ _ (m.openModule name p)).bind _).bind _ = _
  rw [enter_full (m := m.openModule name p) hfull]
  rfl

/-- The import of a module whose body begins: it is executed in a namespace and a frame of its own,
and the module is remembered if it has a value or is left with one. -/
theorem load_script (hnew : m.loaded.get? name = none)
    (hr : env.registry.get? name = some ⟨s, .script p⟩) (hroom : m.frames.length < env.depth) :
    load env ev name m =
      (untilLeft (runBlock ev .nil p.body) (m.enterModule name p)).bind fun r m₁ =>
        match r with
        | .ok _ => .done (.ok (m₁.moduleObject name m.namespaces.length))
            (m₁.finishModule name m.namespaces.length)
        | .error e => .done (.error e) m₁.pop := by
  rw [load_apply, hnew, hr]
  change ((enter env _ _ (m.openModule name p)).bind _).bind _ = _
  rw [enter_room (m := m.openModule name p) hroom, Dialogue.bind_assoc, Dialogue.bind_assoc]
  refine congrArg _ (funext fun r => funext fun m₁ => ?_)
  cases r with
  | error e => rfl
  | ok v =>
    change (Dialogue.bind ((match m₁.namespaces[m.namespaces.length]? with
      | some n => pure n.bindings
      | none => pure [] : Script Bindings) m₁.pop) _) = _
    unfold Machine.finishModule Machine.moduleObject
    cases m₁.namespaces[m.namespaces.length]? <;> rfl

/-- The ways of an import. -/
inductive Loads (env : Environment) (ev : Evaluator) (name : String) (m : Machine) :
    Dialogue (Except Exit Value) → Prop where
  | known {v : Value} (hv : m.loaded.get? name = some v) : Loads env ev name m (.done (.ok v) m)
  | missing (hnew : m.loaded.get? name = none) (hr : env.registry.get? name = none) :
    Loads env ev name m (raise (.noModule name) m)
  | native {s : String} {members : Bindings} (hnew : m.loaded.get? name = none)
    (hr : env.registry.get? name = some ⟨s, .native members⟩) :
    Loads env ev name m (.done (.ok (.module m.serial name members))
      (m.advance.remember name (.module m.serial name members)))
  | refused {s : String} {p : Program} (hnew : m.loaded.get? name = none)
    (hr : env.registry.get? name = some ⟨s, .script p⟩) (hfull : env.depth ≤ m.frames.length) :
    Loads env ev name m (raise .depthExceeded (m.openModule name p).refuse)
  | script {s : String} {p : Program} (hnew : m.loaded.get? name = none)
    (hr : env.registry.get? name = some ⟨s, .script p⟩) (hroom : m.frames.length < env.depth) :
    Loads env ev name m
      ((untilLeft (runBlock ev .nil p.body) (m.enterModule name p)).bind fun r m₁ =>
        match r with
        | .ok _ => .done (.ok (m₁.moduleObject name m.namespaces.length))
            (m₁.finishModule name m.namespaces.length)
        | .error e => .done (.error e) m₁.pop)

theorem load_cases (env : Environment) (ev : Evaluator) (name : String) (m : Machine) :
    Loads env ev name m (load env ev name m) := by
  cases hl : m.loaded.get? name with
  | some v => exact load_loaded hl ▸ .known hl
  | none =>
    cases hr : env.registry.get? name with
    | none =>
      rw [load_apply, hl, hr]
      exact .missing hl hr
    | some module =>
      obtain ⟨s, members | p⟩ := module
      · rw [load_apply, hl, hr]
        exact .native hl hr
      · rcases Nat.lt_or_ge m.frames.length env.depth with hroom | hfull
        · exact load_script hl hr hroom ▸ .script hl hr hroom
        · exact load_refused hl hr hfull ▸ .refused hl hr hfull

/-- The body of a module keeps its own frame, and all others. -/
theorem keeps_body (hev : Evaluator.Walks env ev) (body : Block) (m : Machine) :
    Discipline.free.Runs (untilLeft (runBlock ev .nil body)) m.Kept Discipline.free.Valid m :=
  Discipline.runs_untilLeft (Discipline.runs_body (Discipline.free_lawful env) hev.keeps
    (Discipline.free_sound m) fun _ _ => trivial)

theorem walks_load (hev : Evaluator.Walks env ev) (name : String) :
    Walks env m (load env ev name) := by
  unfold Walks
  have hcases := load_cases env ev name m
  generalize load env ev name m = d at hcases
  cases hcases with
  | known => exact .done .refl trivial
  | missing => exact walks_raise _
  | native hnew hr => exact .done (.single (.native hnew hr)) trivial
  | refused hnew hr hfull => exact .done (.single (.refuseModule hnew hr hfull)) trivial
  | script hnew hr hroom =>
    refine .from (.single (.enterModule hnew hr hroom))
      (((walks_body hev _).every (keeps_body hev _ _)).bind fun r m₁ ⟨g, hg⟩ => ?_)
    cases r with
    | error e => exact .done (.single .pop) trivial
    | ok v =>
      -- the body keeps the frames, so the innermost one is still its own
      obtain ⟨f, hf, hlocals, hscope, hhome⟩ := hg.state.ofModule
      exact .done (.single (hscope ▸ .finishModule hr hf hlocals hhome)) trivial

end

/-! ## Nodes and programs -/

theorem walks_evalNode (hev : Evaluator.Walks env ev) (rounds : Nat) (n : Node) :
    Walks env m (evalNode env ev rounds n) := by
  have binds (name : String) (v : Value) (m : Machine) :
      Walks env m (modify (fun m => m.bind name v) >>= fun _ => pure Value.nil) :=
    walks_modify (.single (.bind (Machine.binds_bind m name v))) (walks_pure _)
  cases n with
  | literal line l => exact walks_pure _
  | «variable» line name => exact walks_lookupName name
  | member line object member => exact walks_lookupMember object member
  | bind line name value => exact walks_bind (hev.walks value m) fun v m => binds name v m
  | assign line name value =>
    exact walks_bind (hev.walks value m) fun v _ =>
      walks_bind (walks_assignName name v) fun _ _ => walks_pure _
  | define line name params body file column =>
    exact walks_get (walks_set (.single (.bind (Machine.binds_bind m name _))) (walks_pure _))
  | branch line condition taken other =>
    exact walks_bind (hev.walks condition m) fun _ _ => walks_runBlock hev _ _
  | loop line condition body => exact walks_runLoop hev line condition body rounds true
  | block line body => exact walks_runBlock hev _ body
  | leave line value =>
    cases value with
    | none => exact walks_exit _
    | some value => exact walks_bind (hev.walks value m) fun _ _ => walks_exit _
  | load line name => exact walks_bind (walks_load hev name) fun v m => binds name v m
  | defer line body => exact walks_deferBody body
  | await line value =>
    exact walks_bind (hev.walks value m) fun v _ => walks_settle hev rounds v
  | allOf line items => exact walks_evalUntil hev _ _ items
  | anyOf line items => exact walks_evalUntil hev _ _ items
  | raise line name message =>
    exact walks_bind (walks_evalMessage hev message) fun _ _ => walks_exit _
  | attempt line body handlers => exact walks_runAttempt hev body handlers
  | call line callee args =>
    have setLine {m : Machine} {s : Script Value} (hs : ∀ m, Walks env m s) :
        Walks env m (modify (fun m => m.setLine line) >>= fun _ => s) :=
      walks_modify (.single (.setLine line)) (hs _)
    refine setLine fun m => walks_bind (hev.walks callee m) fun f _ =>
      walks_bind (walks_evalAll hev args) fun vs _ => setLine fun _ => walks_callValue hev f vs

end

/-- Every evaluation is a number of steps. -/
theorem eval_walks (env : Environment) (fuel : Nat) : Evaluator.Walks env (eval env fuel) := by
  refine ⟨fun n m => ?_, Discipline.eval_evaluates (Discipline.free_lawful env) fuel⟩
  induction fuel generalizing n m with
  | zero => exact walks_exhausted
  | succ fuel ih =>
    have hev : Evaluator.Walks env (eval env fuel) :=
      ⟨ih, Discipline.eval_evaluates (Discipline.free_lawful env) fuel⟩
    rw [eval_succ]
    exact walks_withFrames (walks_bind (walks_ask .poll) fun _ _ => walks_evalNode hev fuel n)

/-- Every run of a program is a number of steps. -/
theorem dialogue_walks (env : Environment) (fuel : Nat) (p : Program) :
    (p.dialogue env fuel).Walks (Machine.Steps env) (fun _ _ => True) (.start p) := by
  have hev := eval_walks env fuel
  exact walks_enter (fun _ => rfl) fun m =>
    walks_bind (walks_body hev p.body) fun v _ => walks_settle hev fuel v

end Lispbox
