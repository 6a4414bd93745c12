import Lispbox.Proofs.Run.Steps

/-!
# Returns as jumps

A script ends with a value, or something makes it skip the rest of what was to be done, and whoever
executes it looks at the end to see which of them it was. Here the ends are places instead
(`Routes`): a script is told beforehand where to go on with its value, where to go on after an
exception, where if a body is left and where if the host stops the run. The evaluator in this form,
`jump`, looks at no end. A return goes to the place for those who leave a body, from wherever it
stands, and nothing that it skips is asked.

The place for those who leave is set where a body is entered, to the place where its value goes
(`Jump.body`), and nowhere else: calls, awaits, imports and the main program enter a body, and every
other node hands on the place that it was given, to all of its parts.

* `Script.routed_bind`: one script after another.
* `routed_eval`, `routed_runProgram`: evaluations and programs do what jumps do, for all places.
* `eval_eq_jump`: if there is nowhere to go on, the two evaluators are the same.
-/
namespace Lispbox
open Script

/-- Where a script goes on: with its value, after an exception, if a body is left with a value, and
if the host stops the run. -/
structure Routes (α τ : Type) where
  value : α → Machine → Dialogue τ
  raised : Exception → Machine → Dialogue τ
  left : Value → Machine → Dialogue τ
  stopped : Signal → Machine → Dialogue τ

namespace Routes

variable {α β τ : Type}

/-- Goes on at the place for an end. -/
def take (w : Routes α τ) : Except Exit α → Machine → Dialogue τ
  | .ok a => w.value a
  | .error (.raise e) => w.raised e
  | .error (.leave v) => w.left v
  | .error (.stop s) => w.stopped s

/-- Another place for the value. -/
def next (w : Routes α τ) (f : β → Machine → Dialogue τ) : Routes β τ :=
  ⟨f, w.raised, w.left, w.stopped⟩

/-- Those who leave the body go where the value of the body goes. -/
def ofBody (w : Routes Value τ) : Routes Value τ := { w with left := w.value }

/-- Whoever goes on outside of a frame takes it away first. -/
def outside (w : Routes α τ) : Routes α τ where
  value a m := w.value a m.pop
  raised e m := w.raised e m.pop
  left v m := w.left v m.pop
  stopped s m := w.stopped s m.pop

/-- An exception without frames gets the active ones. -/
def traced (w : Routes α τ) : Routes α τ :=
  { w with raised := fun e m =>
      w.raised (if e.frames.isEmpty then { e with frames := m.traceback } else e) m }

/-- The script ends. -/
def ends : Routes α (Except Exit α) where
  value a m := .done (.ok a) m
  raised e m := .done (.error (.raise e)) m
  left v m := .done (.error (.leave v)) m
  stopped s m := .done (.error (.stop s)) m

theorem take_ends (r : Except Exit α) : ends.take r = Dialogue.done r := by
  cases r with
  | ok a => rfl
  | error e => cases e <;> rfl

end Routes

namespace Script

variable {α β τ : Type}

/-- Executes a script and goes on from its end. -/
def routed (s : Script α) (w : Routes α τ) : Machine → Dialogue τ := fun m => (s m).bind w.take

theorem routed_bind (s : Script α) (f : α → Script β) (w : Routes β τ) :
    (s >>= f).routed w = s.routed (w.next fun a => (f a).routed w) := by
  funext m
  refine (Dialogue.bind_assoc _ _ _).trans (congrArg _ (funext fun r => funext fun m => ?_))
  cases r with
  | ok a => rfl
  | error e => cases e <;> rfl

/-- A script that looks at the end of another one. -/
theorem routed_handle (s : Script α) (k : Except Exit α → Script β) (w : Routes β τ) :
    (outcome s >>= k).routed w = fun m => (s m).bind fun r => (k r).routed w := by
  funext m
  exact (congrArg (Dialogue.bind · w.take) (Dialogue.bind_assoc _ _ _)).trans
    (Dialogue.bind_assoc _ _ _)

/-- Nothing is lost if the end is the place to go on from. -/
theorem routed_ends (s : Script α) : s.routed Routes.ends = s := by
  have bind_done (d : Dialogue (Except Exit α)) : d.bind Routes.ends.take = d := by
    induction d with
    | done r m => exact congrFun (Routes.take_ends r) m
    | abort a m => rfl
    | ask m q resume ih => exact congrArg (Dialogue.ask m q) (funext ih)
  exact funext fun m => bind_done (s m)

end Script

/-! ## The evaluator -/

/-- Evaluates a node and goes on. -/
abbrev Jumper (τ : Type) := Node → Routes Value τ → Machine → Dialogue τ

namespace Jump

variable {τ : Type} (env : Environment) (j : Jumper τ)

/-- The statements of a block. -/
def block (last : Value) : Block → Routes Value τ → Machine → Dialogue τ
  | [], w => w.value last
  | n :: ns, w => (reportLine false n.line).routed (w.next fun _ => j n (w.next fun v =>
      block v ns w))

/-- Nodes from left to right. -/
def all : List Node → Routes (List Value) τ → Machine → Dialogue τ
  | [], w => w.value []
  | n :: ns, w => j n (w.next fun v => all ns (w.next fun vs => w.value (v :: vs)))

/-- Nodes up to the first one whose truth is `stop`. -/
def upTo (stop : Bool) (last : Value) : List Node → Routes Value τ → Machine → Dialogue τ
  | [], w => w.value last
  | n :: ns, w => j n (w.next fun v => if v.isTrue == stop then w.value v else upTo stop v ns w)

/-- The statements of a body: whoever leaves it goes where its value goes. -/
def body (ns : Block) (w : Routes Value τ) : Machine → Dialogue τ := block j .nil ns w.ofBody

/-- A body in a frame of its own. -/
def enter (f : Frame) (inside : Routes Value τ → Machine → Dialogue τ) (w : Routes Value τ) :
    Machine → Dialogue τ := fun m =>
  if env.depth ≤ m.frames.length then w.raised (.ofCause .depthExceeded) m.refuse
  else inside w.outside (m.push f)

/-- A call. -/
def call (callee : Value) (args : List Value) (w : Routes Value τ) : Machine → Dialogue τ :=
  match callee with
  | .function d _ scope =>
    if args.length ≠ d.params.length then
      w.raised (.ofCause (.argumentCount d.name d.params.length args.length))
    else enter env ⟨d.name, d.file, d.line, none, some (d.params.zip args), scope⟩ (body j d.body) w
  | .native n => (n.call args).routed w
  | v => w.raised (.ofCause (.notCallable v.kind))

/-- Deferred bodies, until the value is not deferred. -/
def settle : Nat → Value → Routes Value τ → Machine → Dialogue τ
  | 0, .deferred _ _ _ _ _, _ => fun m => .abort .exhausted m
  | fuel + 1, .deferred _ ns locals file scope, w =>
    enter env ⟨"<async>", file, firstLine ns, none, some locals, scope⟩ (body j ns)
      (w.next fun v => settle fuel v w)
  | _, v, w => w.value v

/-- The globals in a namespace. -/
def globalsOf (scope : Nat) : Script Bindings := do
  let m ← get
  match m.namespaces[scope]? with
  | some n => return n.bindings
  | none => return []

/-- An import. -/
def load (name : String) (w : Routes Value τ) : Machine → Dialogue τ := fun m =>
  match m.loaded.get? name with
  | some v => w.value v m
  | none =>
    match env.registry.get? name with
    | none => w.raised (.ofCause (.noModule name)) m
    | some ⟨_, .native members⟩ => (addModule name members).routed w m
    | some ⟨_, .script p⟩ =>
      enter env ⟨"<module>", p.file, 1, none, none, m.namespaces.length⟩ (body j p.body)
        (w.next fun _ => (globalsOf m.namespaces.length).routed (w.next fun members =>
          (addModule name members).routed w)) (m.openModule name p)

/-- A loop. -/
def loop (line : Nat) (condition : Node) (ns : Block) :
    Nat → Bool → Routes Value τ → Machine → Dialogue τ
  | 0, _, _ => fun m => .abort .exhausted m
  | fuel + 1, isFirst, w =>
    let round := j condition (w.next fun c =>
      if c.isTrue then block j .nil ns (w.next fun _ => loop line condition ns fuel false w)
      else w.value .nil)
    if isFirst then round else (reportLine true line).routed (w.next fun _ => round)

/-- The first handler that catches an exception. -/
def handle (handlers : List Handler) (w : Routes Value τ) (e : Exception) :
    Machine → Dialogue τ :=
  match handlers.find? (fun h => h.catches e.name) with
  | none => w.raised e
  | some h =>
    match h.binding with
    | some name => fun m => block j .nil h.body w (m.bind name (.text e.message))
    | none => block j .nil h.body w

/-- A body with handlers: only exceptions look for one. -/
def attempt (ns : Block) (handlers : List Handler) (w : Routes Value τ) : Machine → Dialogue τ :=
  block j .nil ns { w with raised := handle j handlers w }

/-- The text of a message. -/
def message (n : Option Node) (w : Routes String τ) : Machine → Dialogue τ :=
  match n with
  | none => w.value ""
  | some n => j n (w.next fun v => w.value v.display)

/-- A node. -/
def node (rounds : Nat) : Jumper τ
  | .literal _ l, w => w.value l.value
  | .variable _ name, w => (lookupName name).routed w
  | .member _ object member, w => (lookupMember object member).routed w
  | .bind _ name value, w => j value (w.next fun v m => w.value .nil (m.bind name v))
  | .assign _ name value, w =>
    j value (w.next fun v => (assignName name v).routed (w.next fun _ => w.value .nil))
  | .define line name params ns file column, w => fun m =>
    w.value .nil (m.bind name (.function ⟨name, params, ns, file, line, column⟩ m.home m.scope))
  | .branch _ condition taken other, w =>
    j condition (w.next fun c => block j .nil (if c.isTrue then taken else other) w)
  | .loop line condition ns, w => loop j line condition ns rounds true w
  | .block _ ns, w => block j .nil ns w
  | .leave _ none, w => w.left .nil
  | .leave _ (some value), w => j value (w.next w.left)
  | .load _ name, w => load env j name (w.next fun v m => w.value .nil (m.bind name v))
  | .defer _ ns, w => (deferBody ns).routed w
  | .await _ value, w => j value (w.next fun v => settle env j rounds v w)
  | .allOf _ items, w => upTo j false (.bool true) items w
  | .anyOf _ items, w => upTo j true (.bool false) items w
  | .raise _ name text, w => message j text (w.next fun s => w.raised (.raised name s))
  | .attempt _ ns handlers, w => attempt j ns handlers w
  | .call line callee args, w => fun m =>
    j callee (w.next fun f => all j args (w.next fun vs m => call env j f vs w (m.setLine line)))
      (m.setLine line)

end Jump

/-- Evaluates a node, with the same bound on the depth of recursion and the rounds of loops as
`eval`. -/
def jump {τ : Type} (env : Environment) : Nat → Jumper τ
  | 0 => fun _ _ m => .abort .exhausted m
  | fuel + 1 => fun n w => (Script.ask .poll).routed (w.traced.next fun _ =>
      Jump.node env (jump env fuel) fuel n w.traced)

/-- Executes a program: what its body has as a value or is left with is awaited in its frame. -/
def Program.jump {τ : Type} (env : Environment) (fuel : Nat) (p : Program) (w : Routes Value τ) :
    Machine → Dialogue τ :=
  Jump.enter env ⟨"<module>", p.file, 1, none, none, 0⟩ (fun w =>
    Jump.body (Lispbox.jump env fuel) p.body (w.next fun v =>
      Jump.settle env (Lispbox.jump env fuel) fuel v w)) w

/-! ## The two evaluators -/

/-- The evaluator does what the jumper does. -/
def Evaluator.Jumps {τ : Type} (ev : Evaluator) (j : Jumper τ) : Prop :=
  ∀ n w, (ev n).routed w = j n w

section

variable {τ : Type} {env : Environment} {ev : Evaluator} {j : Jumper τ}

theorem routed_withFrames {α : Type} (s : Script α) (w : Routes α τ) :
    (withFrames s).routed w = s.routed w.traced := by
  unfold withFrames
  rw [routed_handle]
  refine funext fun m => congrArg _ (funext fun r => ?_)
  cases r with
  | ok a => rfl
  | error e =>
    cases e with
    | raise e =>
      funext m
      change (if e.frames.isEmpty then _ else _ : Script α).routed w m = w.raised (ite _ _ _) m
      split <;> rfl
    | leave v => rfl
    | stop s => rfl

theorem routed_untilLeft (s : Script Value) (w : Routes Value τ) :
    (untilLeft s).routed w = s.routed w.ofBody := by
  unfold untilLeft
  rw [routed_handle]
  refine funext fun m => congrArg _ (funext fun r => ?_)
  cases r with
  | ok a => rfl
  | error e => cases e <;> rfl

theorem routed_enter (f : Frame) (s : Script Value) (w : Routes Value τ) :
    (enter env f s).routed w = Jump.enter env f s.routed w := by
  funext m
  unfold routed Jump.enter
  rcases Nat.lt_or_ge m.frames.length env.depth with hroom | hfull
  · rw [enter_room hroom, Dialogue.bind_assoc, if_neg (by omega)]
    refine congrArg _ (funext fun r => funext fun m => ?_)
    cases r with
    | ok a => rfl
    | error e => cases e <;> rfl
  · rw [enter_full hfull, if_pos hfull]
    rfl

theorem routed_runBlock (hj : ev.Jumps j) (last : Value) (ns : Block) (w : Routes Value τ) :
    (runBlock ev last ns).routed w = Jump.block j last ns w := by
  induction ns generalizing last with
  | nil => rfl
  | cons n ns ih =>
    unfold runBlock
    simp only [routed_bind, hj _ _, ih]
    rfl

theorem routed_evalAll (hj : ev.Jumps j) (ns : List Node) (w : Routes (List Value) τ) :
    (evalAll ev ns).routed w = Jump.all j ns w := by
  induction ns generalizing w with
  | nil => rfl
  | cons n ns ih =>
    unfold evalAll
    simp only [routed_bind, hj _ _, ih]
    rfl

theorem routed_evalUntil (hj : ev.Jumps j) (stop : Bool) (last : Value) (ns : List Node)
    (w : Routes Value τ) : (evalUntil ev stop last ns).routed w = Jump.upTo j stop last ns w := by
  induction ns generalizing last with
  | nil => rfl
  | cons n ns ih =>
    unfold evalUntil Jump.upTo
    simp only [routed_bind, hj _ _, ← ih]
    congr 2
    funext v
    split <;> rfl

/-- A body in a frame of its own. -/
theorem routed_body (hj : ev.Jumps j) (f : Frame) (ns : Block) (w : Routes Value τ) :
    (enter env f (untilLeft (runBlock ev .nil ns))).routed w =
      Jump.enter env f (Jump.body j ns) w := by
  rw [routed_enter]
  congr 1
  funext w
  rw [routed_untilLeft, routed_runBlock hj]
  rfl

theorem routed_callValue (hj : ev.Jumps j) (callee : Value) (args : List Value)
    (w : Routes Value τ) :
    (callValue env ev callee args).routed w = Jump.call env j callee args w := by
  cases callee
  case function d home scope =>
    unfold callValue callFunction Jump.call
    dsimp only
    split
    · rfl
    · exact routed_body hj _ _ w
  all_goals rfl

theorem routed_settle (hj : ev.Jumps j) (fuel : Nat) (v : Value) (w : Routes Value τ) :
    (settle env ev fuel v).routed w = Jump.settle env j fuel v w := by
  induction fuel generalizing v with
  | zero => cases v <;> rfl
  | succ fuel ih =>
    cases v
    case deferred serial ns locals file scope =>
      unfold settle
      rw [routed_bind, routed_body hj]
      simp only [ih]
      rfl
    all_goals rfl

theorem routed_load (hj : ev.Jumps j) (name : String) (w : Routes Value τ) :
    (load env ev name).routed w = Jump.load env j name w := by
  funext m
  unfold routed Jump.load
  rw [load_apply]
  cases m.loaded.get? name with
  | some v => rfl
  | none =>
    cases env.registry.get? name with
    | none => rfl
    | some module =>
      obtain ⟨s, members | p⟩ := module
      · rfl
      · change ((enter env _ (untilLeft (runBlock ev .nil p.body)) >>= fun _ =>
          Jump.globalsOf m.namespaces.length) >>= addModule name).routed w (m.openModule name p) = _
        rw [routed_bind, routed_bind, routed_body hj]
        rfl

theorem routed_runLoop (hj : ev.Jumps j) (line : Nat) (condition : Node) (ns : Block)
    (fuel : Nat) (isFirst : Bool) (w : Routes Value τ) :
    (runLoop ev line condition ns fuel isFirst).routed w =
      Jump.loop j line condition ns fuel isFirst w := by
  induction fuel generalizing isFirst with
  | zero => rfl
  | succ fuel ih =>
    have hround : (do
        let c ← ev condition
        if c.isTrue then
          let _ ← runBlock ev .nil ns
          runLoop ev line condition ns fuel false
        else return .nil : Script Value).routed w =
        j condition (w.next fun c =>
          if c.isTrue then Jump.block j .nil ns (w.next fun _ =>
            Jump.loop j line condition ns fuel false w)
          else w.value .nil) := by
      rw [routed_bind, hj]
      congr 2
      funext c
      split
      · rw [routed_bind, routed_runBlock hj, ih]
      · rfl
    unfold runLoop Jump.loop
    cases isFirst with
    | true => exact hround
    | false =>
      change (reportLine true line >>= fun _ => _).routed w = (reportLine true line).routed _
      rw [routed_bind, hround]

theorem routed_runAttempt (hj : ev.Jumps j) (ns : Block) (handlers : List Handler)
    (w : Routes Value τ) :
    (runAttempt ev ns handlers).routed w = Jump.attempt j ns handlers w := by
  unfold runAttempt Jump.attempt
  rw [routed_handle, ← routed_runBlock hj]
  refine funext fun m => congrArg _ (funext fun r => ?_)
  cases r with
  | ok a => rfl
  | error e =>
    cases e with
    | raise e =>
      change _ = Jump.handle j handlers w e
      unfold Jump.handle
      dsimp only
      cases handlers.find? fun h => h.catches e.name with
      | none => rfl
      | some h =>
        simp only [← routed_runBlock hj]
        cases h.binding <;> rfl
    | leave v => rfl
    | stop s => rfl

theorem routed_evalMessage (hj : ev.Jumps j) (n : Option Node) (w : Routes String τ) :
    (evalMessage ev n).routed w = Jump.message j n w := by
  cases n with
  | none => rfl
  | some n =>
    unfold evalMessage
    rw [routed_bind, hj]
    rfl

theorem routed_evalNode (hj : ev.Jumps j) (rounds : Nat) :
    Evaluator.Jumps (evalNode env ev rounds) (Jump.node env j rounds) := by
  intro n w
  cases n with
  | literal line l => rfl
  | «variable» line name => rfl
  | member line object member => rfl
  | bind line name value =>
    unfold evalNode
    rw [routed_bind, hj]
    rfl
  | assign line name value =>
    unfold evalNode
    simp only [routed_bind, hj _ _]
    rfl
  | define line name params ns file column => rfl
  | branch line condition taken other =>
    unfold evalNode
    simp only [routed_bind, hj _ _, routed_runBlock hj]
    rfl
  | loop line condition ns => exact routed_runLoop hj line condition ns rounds true w
  | block line ns => exact routed_runBlock hj .nil ns w
  | leave line value =>
    cases value with
    | none => rfl
    | some value =>
      unfold evalNode
      rw [routed_bind, hj]
      rfl
  | load line name =>
    unfold evalNode
    rw [routed_bind, routed_load hj]
    rfl
  | defer line ns => rfl
  | await line value =>
    unfold evalNode
    simp only [routed_bind, hj _ _, routed_settle hj]
    rfl
  | allOf line items => exact routed_evalUntil hj false (.bool true) items w
  | anyOf line items => exact routed_evalUntil hj true (.bool false) items w
  | raise line name text =>
    unfold evalNode
    rw [routed_bind, routed_evalMessage hj]
    rfl
  | attempt line ns handlers => exact routed_runAttempt hj ns handlers w
  | call line callee args =>
    unfold evalNode
    simp only [routed_bind, hj _ _, routed_evalAll hj, routed_callValue hj]
    rfl

/-- Whatever places there are to go on from, the evaluator comes to the same one, in the same state,
with the same questions. -/
theorem routed_eval (env : Environment) (fuel : Nat) :
    Evaluator.Jumps (eval env fuel) (jump env fuel : Jumper τ) := by
  induction fuel with
  | zero => exact fun n w => rfl
  | succ fuel ih =>
    intro n w
    rw [eval_succ, routed_withFrames, routed_bind]
    simp only [routed_evalNode ih fuel _ _]
    rfl

/-- With the ends themselves as places it is the same evaluator. -/
theorem eval_eq_jump (env : Environment) (fuel : Nat) (n : Node) :
    eval env fuel n = jump env fuel n .ends :=
  (routed_ends (eval env fuel n)).symm.trans (routed_eval env fuel n .ends)

theorem routed_runProgram (env : Environment) (fuel : Nat) (p : Program) (w : Routes Value τ) :
    (runProgram env fuel p).routed w = p.jump env fuel w := by
  unfold runProgram Program.jump
  rw [routed_enter]
  congr 1
  funext w
  rw [routed_bind, routed_untilLeft, routed_runBlock (routed_eval env fuel)]
  simp only [routed_settle (routed_eval env fuel)]
  rfl

end

end Lispbox
