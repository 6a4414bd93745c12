import Lispbox.Run.Eval

/-!
# Where exceptions come from

An exception gets its frames late, from the first evaluation that sees it, and a frame knows its
line only as the last one that it was moved to. To say where an exception comes from takes more than
a run keeps, so here is an evaluator that keeps account of it. It asks the same questions and goes
through the same states as `eval`, but

* it knows for every active frame which node is being evaluated in it (`Spot`): by which call or
  statement this node is evaluated, and to which lines the frame may have been moved since that one
  began;
* an exception is raised with all of this and with the state of the run (`Origin`), and nothing
  changes it on its way.

`Site` is where a node is evaluated. `Node.moves` are the lines to which the evaluation of a node
may move its frame; `Node.Governs` tells the call or statement by which a node is evaluated.
-/
namespace Lispbox
open Script (get set modify exit exhausted)

/-! ## Lines -/

mutual

/-- The lines that the evaluation of a node may move its frame to. -/
def Node.moves : Node → List Nat
  | .bind _ _ value | .assign _ _ value | .await _ value => value.moves
  | .branch _ condition taken other =>
    condition.moves ++ (movesOfBlock taken ++ movesOfBlock other)
  | .loop line condition body => line :: (condition.moves ++ movesOfBlock body)
  | .block _ body => movesOfBlock body
  | .leave _ value | .raise _ _ value => movesOfOption value
  | .allOf _ items | .anyOf _ items => movesOfAll items
  | .attempt _ body handlers => movesOfBlock body ++ movesOfHandlers handlers
  | .call line callee args => line :: (callee.moves ++ movesOfAll args)
  | _ => []

/-- The lines of statements count as well. -/
def movesOfBlock : List Node → List Nat
  | [] => []
  | n :: ns => n.line :: (n.moves ++ movesOfBlock ns)

def movesOfAll : List Node → List Nat
  | [] => []
  | n :: ns => n.moves ++ movesOfAll ns

def movesOfOption : Option Node → List Nat
  | none => []
  | some n => n.moves

def movesOfClause : Clause (List Node) → List Nat
  | ⟨_, _, body⟩ => movesOfBlock body

def movesOfHandlers : List (Clause (List Node)) → List Nat
  | [] => []
  | h :: hs => movesOfClause h ++ movesOfHandlers hs

end

/-- The node is a call form. -/
def Node.isCall : Node → Bool
  | .call _ _ _ => true
  | _ => false

/-- The nodes that the evaluation of a node evaluates, statements aside. -/
def Node.operands : Node → List Node
  | .bind _ _ value | .assign _ _ value | .await _ value => [value]
  | .leave _ (some value) | .raise _ _ (some value) => [value]
  | .branch _ condition _ _ | .loop _ condition _ => [condition]
  | .allOf _ items | .anyOf _ items => items
  | .call _ callee args => callee :: args
  | _ => []

/-- The node is evaluated by the form, with no call and no statement in between. -/
inductive Node.Governs (form : Node) : Node → Prop where
  | self : form.Governs form
  | operand {n c : Node} (hn : form.Governs n) (hc : c ∈ n.operands) (hcall : c.isCall = false) :
    form.Governs c

/-- A call is evaluated by itself. -/
theorem Node.Governs.of_call {form n : Node} (h : form.Governs n) (hn : n.isCall = true) :
    form = n := by
  cases h with
  | self => rfl
  | operand _ _ hcall => rw [hn] at hcall; cases hcall

/-! ## Origins -/

/-- A node that is being evaluated in a frame. -/
structure Spot where
  node : Node
  /-- The innermost call or statement that it belongs to. -/
  form : Node
  /-- The lines that the frame may have been moved to since the form began. -/
  before : List Nat

/-- Nothing that was evaluated before within the form is on another line than the form. -/
def Spot.IsSteady (s : Spot) : Prop := ∀ line ∈ s.before, line = s.form.line

/-- For each active frame what is being evaluated in it, innermost first; nothing for the main
program when all its statements are over. -/
abbrev Trail := List (Option Spot)

/-- Where a node is evaluated. -/
structure Site where
  form : Node
  before : List Nat
  /-- What is being evaluated in the frames further out. -/
  outer : Trail

namespace Site

/-- What is being evaluated while a node is evaluated here. -/
def trail (w : Site) (n : Node) : Trail := some ⟨n, w.form, w.before⟩ :: w.outer

/-- The site after the evaluation of a node. -/
def past (w : Site) (n : Node) : Site := { w with before := w.before ++ n.moves }

/-- The site when the frame was moved to a line. -/
def turned (w : Site) (line : Nat) : Site := { w with before := [line] }

end Site

/-- An exception without frames, the state in which it was raised, and what was being evaluated. -/
structure Origin where
  exception : Exception
  machine : Machine
  trail : Trail

/-- The exception with the frames that were active when it was raised. -/
def Origin.thrown (o : Origin) : Exception := { o.exception with frames := o.machine.traceback }

/-- The exception was raised by the evaluation of a node. -/
def Origin.InNode (o : Origin) : Prop := ∃ s outer, o.trail = some s :: outer

/-- A frame was refused because too many were active. -/
structure Origin.IsRefusal (env : Environment) (o : Origin) : Prop where
  exception : o.exception = .ofCause .depthExceeded
  full : env.depth ≤ o.machine.frames.length

/-- A frame was refused when the statements of the program were over. -/
structure Origin.IsLast (env : Environment) (o : Origin) : Prop where
  refusal : o.IsRefusal env
  trail : o.trail = [none]

/-- Why the rest of an evaluation is skipped. -/
inductive Departure where
  | raise (o : Origin)
  | leave (v : Value)
  | stop (s : Signal)

/-- A part of a dialogue that keeps account of where exceptions come from. -/
def Account (α : Type) : Type := Machine → Dialogue (Except Departure α)

namespace Account

variable {α : Type}

instance : Monad Account where
  pure a := fun m => .done (.ok a) m
  bind t f := fun m => (t m).bind fun r m =>
    match r with
    | .ok a => f a m
    | .error d => .done (.error d) m

/-- The departure for an exit of a script, in the state in which it ends. -/
def departure (trail : Trail) (m : Machine) : Exit → Departure
  | .raise e => .raise ⟨e, m, trail⟩
  | .leave v => .leave v
  | .stop s => .stop s

/-- Does what a script does, which raises exceptions in the state in which it ends. -/
def of (trail : Trail) (s : Script α) : Account α := fun m =>
  (s m).bind fun r m => .done (r.mapError (departure trail m)) m

/-- Does what a script does that raises nothing. -/
def quiet (s : Script α) : Account α := of [] s

def depart (d : Departure) : Account α := fun m => .done (.error d) m

def outcome (t : Account α) : Account (Except Departure α) := fun m =>
  (t m).bind fun r m => .done (.ok r) m

def ofExcept (r : Except Departure α) : Account α := fun m => .done r m

end Account

open Account

/-! ## The evaluator that keeps account -/

/-- Evaluates a node at a site. -/
abbrev Tracer := Site → Node → Account Value

/-- Executes the statements of a block; what is evaluated further out is given. -/
def traceBlock (tr : Tracer) (outer : Trail) (last : Value) : Block → Account Value
  | [] => return last
  | n :: ns => do
    quiet (reportLine false n.line)
    let v ← tr ⟨n, [], outer⟩ n
    traceBlock tr outer v ns

def traceAll (tr : Tracer) (w : Site) : List Node → Account (List Value)
  | [] => return []
  | n :: ns => do
    let v ← tr w n
    let vs ← traceAll tr (w.past n) ns
    return v :: vs

def traceUntil (tr : Tracer) (w : Site) (stop : Bool) (last : Value) :
    List Node → Account Value
  | [] => return last
  | n :: ns => do
    let v ← tr w n
    if v.isTrue == stop then return v else traceUntil tr (w.past n) stop v ns

/-- Executes a body in a frame of its own. A frame that is refused is refused to the node that is
evaluated last on the trail. -/
def traceEnter (env : Environment) (trail : Trail) (f : Frame) (body : Account Value) :
    Account Value := do
  let m ← quiet get
  if env.depth ≤ m.frames.length then
    of trail do
      set m.refuse
      Script.raise .depthExceeded
  else
    quiet (set (m.push f))
    let r ← outcome body
    quiet (modify Machine.pop)
    ofExcept r

/-- A body that is left early has the value it is left with. -/
def traceBody (tr : Tracer) (outer : Trail) (body : Block) : Account Value := do
  match ← outcome (traceBlock tr outer .nil body) with
  | .error (.leave v) => return v
  | r => ofExcept r

def traceFunction (env : Environment) (tr : Tracer) (trail : Trail) (d : Definition) (scope : Nat)
    (args : List Value) : Account Value :=
  if args.length ≠ d.params.length then
    of trail (Script.raise (.argumentCount d.name d.params.length args.length))
  else
    traceEnter env trail ⟨d.name, d.file, d.line, none, some (d.params.zip args), scope⟩
      (traceBody tr trail d.body)

def traceCall (env : Environment) (tr : Tracer) (trail : Trail) (callee : Value)
    (args : List Value) : Account Value :=
  match callee with
  | .function d _ scope => traceFunction env tr trail d scope args
  | .native n => of trail (n.call args)
  | v => of trail (Script.raise (.notCallable v.kind))

def traceSettle (env : Environment) (tr : Tracer) (trail : Trail) : Nat → Value → Account Value
  | 0, .deferred _ _ _ _ _ => quiet exhausted
  | fuel + 1, .deferred _ body locals file scope => do
    let v ← traceEnter env trail ⟨"<async>", file, firstLine body, none, some locals, scope⟩
      (traceBody tr trail body)
    traceSettle env tr trail fuel v
  | _, v => return v

def traceModule (env : Environment) (tr : Tracer) (trail : Trail) (name : String) (p : Program) :
    Account Bindings := do
  let m ← quiet get
  let scope := m.namespaces.length
  quiet (set (m.openModule name p))
  let _ ← traceEnter env trail ⟨"<module>", p.file, 1, none, none, scope⟩
    (traceBody tr trail p.body)
  let m ← quiet get
  match m.namespaces[scope]? with
  | some n => return n.bindings
  | none => return []

def traceLoad (env : Environment) (tr : Tracer) (trail : Trail) (name : String) :
    Account Value := do
  let m ← quiet get
  match m.loaded.get? name with
  | some v => return v
  | none =>
    match env.registry.get? name with
    | none => of trail (Script.raise (.noModule name))
    | some ⟨_, .native members⟩ => quiet (addModule name members)
    | some ⟨_, .script p⟩ => do
      let members ← traceModule env tr trail name p
      quiet (addModule name members)

/-- Repeats a body; in the first round the condition is evaluated at the site of the loop, and in
the others the frame was moved to the line of the loop just before. -/
def traceLoop (tr : Tracer) (w : Site) (line : Nat) (condition : Node) (body : Block) :
    Nat → Bool → Account Value
  | 0, _ => quiet exhausted
  | fuel + 1, isFirst => do
    if !isFirst then quiet (reportLine true line)
    let c ← tr (if isFirst then w else w.turned line) condition
    if c.isTrue then
      let _ ← traceBlock tr w.outer .nil body
      traceLoop tr w line condition body fuel false
    else return .nil

def traceAttempt (tr : Tracer) (outer : Trail) (body : Block) (handlers : List Handler) :
    Account Value := do
  match ← outcome (traceBlock tr outer .nil body) with
  | .error (.raise o) =>
    match handlers.find? (·.catches o.exception.name) with
    | none => depart (.raise o)
    | some h =>
      match h.binding with
      | some name => quiet (modify fun m => m.bind name (.text o.exception.message))
      | none => pure ()
      traceBlock tr outer .nil h.body
  | r => ofExcept r

def traceMessage (tr : Tracer) (w : Site) : Option Node → Account String
  | none => return ""
  | some n => do
    let v ← tr w n
    return v.display

/-- Evaluates a node at a site. A call is a site of its own. -/
def traceNode (env : Environment) (tr : Tracer) (rounds : Nat) (w : Site) (n : Node) :
    Account Value :=
  match n with
  | .literal _ l => return l.value
  | .variable _ name => of (w.trail n) (lookupName name)
  | .member _ object member => of (w.trail n) (lookupMember object member)
  | .bind _ name value => do
    let v ← tr w value
    quiet (modify fun m => m.bind name v)
    return .nil
  | .assign _ name value => do
    let v ← tr w value
    of ((w.past value).trail n) (assignName name v)
    return .nil
  | .define line name params body file column => do
    let m ← quiet get
    quiet (set (m.bind name (.function ⟨name, params, body, file, line, column⟩ m.home m.scope)))
    return .nil
  | .branch _ condition taken other => do
    let c ← tr w condition
    traceBlock tr w.outer .nil (if c.isTrue then taken else other)
  | .loop line condition body => traceLoop tr w line condition body rounds true
  | .block _ body => traceBlock tr w.outer .nil body
  | .leave _ none => depart (.leave .nil)
  | .leave _ (some value) => do
    let v ← tr w value
    depart (.leave v)
  | .load _ name => do
    let v ← traceLoad env tr (w.trail n) name
    quiet (modify fun m => m.bind name v)
    return .nil
  | .defer _ body => quiet (deferBody body)
  | .await _ value => do
    let v ← tr w value
    traceSettle env tr ((w.past value).trail n) rounds v
  | .allOf _ items => traceUntil tr w false (.bool true) items
  | .anyOf _ items => traceUntil tr w true (.bool false) items
  | .raise _ name message => do
    let text ← traceMessage tr w message
    of ((message.elim w w.past).trail n) (exit (.raise (.raised name text)))
  | .attempt _ body handlers => traceAttempt tr w.outer body handlers
  | .call line callee args => do
    quiet (modify fun m => m.setLine line)
    let f ← tr ⟨n, [], w.outer⟩ callee
    let vs ← traceAll tr ((⟨n, [], w.outer⟩ : Site).past callee) args
    quiet (modify fun m => m.setLine line)
    traceCall env tr ((⟨n, [], w.outer⟩ : Site).trail n) f vs

/-- Evaluates a node at a site, with a bound on the depth of recursion and the rounds of loops. -/
def trace (env : Environment) : Nat → Tracer
  | 0, _, _ => quiet exhausted
  | fuel + 1, w, n => do
    quiet (Script.ask .poll)
    traceNode env (trace env fuel) fuel w n

/-- What is executed in the frame of the main program. When its statements are over, no node is
being evaluated in it any more. -/
def Program.traceMain (env : Environment) (fuel : Nat) (p : Program) : Account Value := do
  let v ← traceBody (trace env fuel) [] p.body
  traceSettle env (trace env fuel) [none] fuel v

/-- The dialogue of a program, with account of where exceptions come from. -/
def Program.account (env : Environment) (fuel : Nat) (p : Program) :
    Dialogue (Except Departure Value) :=
  traceEnter env [] ⟨"<module>", p.file, 1, none, none, 0⟩ (p.traceMain env fuel) (Machine.start p)

end Lispbox
