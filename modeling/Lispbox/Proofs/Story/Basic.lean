import Lispbox.Proofs.Dialogue.Every

/-!
# The story of a run

What a host is asked does not show in which frame a statement is executed, nor when it begins. The
story of a run does: it asks the same questions and goes through the same states, and between them
stand marks (`Mark`) for

* bodies that begin and end in frames of their own,
* blocks that come to a statement, and statements that begin to be evaluated,
* loops that come back to their condition, and conditions that begin to be evaluated.

`Program.story` is told along the lines of `eval`, by a function for each of those that the
evaluator consists of. A `Happening` is a mark or a question with its answer, and
`Story.happenings` are those of a conversation with a host, in order.
-/
namespace Lispbox

/-- What happens in a run and is not said to the host. -/
inductive Mark where
  /-- A body begins in a frame of its own. -/
  | enters (file : String)
  /-- The innermost body is over. -/
  | leaves
  /-- A block comes to a statement. -/
  | reaches (n : Node)
  /-- A statement begins to be evaluated. -/
  | starts (n : Node)
  /-- A loop on a line has executed its body and comes back to its condition. -/
  | returns (line : Nat)
  /-- The condition of a loop on a line begins to be evaluated. -/
  | checks (line : Nat) (isFirst : Bool)

/-- A dialogue with marks. -/
inductive Story (ρ : Type) where
  | done (r : ρ) (m : Machine)
  | abort (a : Abort) (m : Machine)
  | ask (m : Machine) (q : Query) (resume : Except Signal q.Answer → Story ρ)
  | mark (k : Mark) (rest : Story ρ)

/-- A mark, or a question with the state of the run and the answer. -/
inductive Happening where
  | mark (k : Mark)
  | said (x : Exchange)

/-- What is said to the host. -/
def Happening.exchange? : Happening → Option Exchange
  | .mark _ => none
  | .said x => some x

namespace Story

variable {ρ τ σ : Type}

def bind : Story ρ → (ρ → Machine → Story τ) → Story τ
  | .done r m, f => f r m
  | .abort a m, _ => .abort a m
  | .ask m q resume, f => .ask m q fun a => (resume a).bind f
  | .mark k rest, f => .mark k (rest.bind f)

/-- A story without marks. -/
def ofDialogue : Dialogue ρ → Story ρ
  | .done r m => .done r m
  | .abort a m => .abort a m
  | .ask m q resume => .ask m q fun a => ofDialogue (resume a)

/-- The dialogue without the marks. -/
def erase : Story ρ → Dialogue ρ
  | .done r m => .done r m
  | .abort a m => .abort a m
  | .ask m q resume => .ask m q fun a => (resume a).erase
  | .mark _ rest => rest.erase

/-- What happens when a host is talked to. -/
def happenings (h : Host σ) : Story ρ → σ → List Happening
  | .done _ _, _ => []
  | .abort _ _, _ => []
  | .ask m q resume, s =>
    .said ⟨m, q, (h.reply s q).1⟩ :: (resume (h.reply s q).1).happenings h (h.reply s q).2
  | .mark k rest, s => .mark k :: rest.happenings h s

end Story

/-- A part of a story, from the state it starts in. -/
def Narrator (α : Type) : Type := Machine → Story (Except Exit α)

namespace Narrator

variable {α : Type}

instance : Monad Narrator where
  pure a := fun m => .done (.ok a) m
  bind t f := fun m => (t m).bind fun r m =>
    match r with
    | .ok a => f a m
    | .error e => .done (.error e) m

/-- Does what a script does, without marks. -/
def of (s : Script α) : Narrator α := fun m => .ofDialogue (s m)

def mark (k : Mark) : Narrator Unit := fun m => .mark k (.done (.ok ()) m)

def outcome (t : Narrator α) : Narrator (Except Exit α) := fun m =>
  (t m).bind fun r m => .done (.ok r) m

/-- What the script does that is told. -/
def erase (t : Narrator α) : Script α := fun m => (t m).erase

end Narrator

open Narrator

/-! ## The evaluator that tells its story -/

/-- Evaluates a node. -/
abbrev Teller := Node → Narrator Value

/-- Gives an exception without frames the active ones. -/
def tellFrames {α : Type} (t : Narrator α) : Narrator α := do
  match ← outcome t with
  | .error (.raise e) =>
    if e.frames.isEmpty then
      let m ← of Script.get
      of (Script.exit (.raise { e with frames := m.traceback }))
    else of (Script.exit (.raise e))
  | r => of (Script.ofExcept r)

/-- Executes the statements of a block. -/
def tellBlock (te : Teller) (last : Value) : Block → Narrator Value
  | [] => return last
  | n :: ns => do
    mark (.reaches n)
    of (reportLine false n.line)
    mark (.starts n)
    let v ← te n
    tellBlock te v ns

def tellAll (te : Teller) : List Node → Narrator (List Value)
  | [] => return []
  | n :: ns => do
    let v ← te n
    let vs ← tellAll te ns
    return v :: vs

def tellUntil (te : Teller) (stop : Bool) (last : Value) : List Node → Narrator Value
  | [] => return last
  | n :: ns => do
    let v ← te n
    if v.isTrue == stop then return v else tellUntil te stop v ns

/-- Executes a body in a frame of its own. No body begins if the frame is refused. -/
def tellEnter (env : Environment) (f : Frame) (body : Narrator Value) : Narrator Value := do
  let m ← of Script.get
  if env.depth ≤ m.frames.length then
    of do
      Script.set m.refuse
      Script.raise .depthExceeded
  else
    of (Script.set (m.push f))
    mark (.enters f.file)
    let r ← outcome body
    of (Script.modify Machine.pop)
    mark .leaves
    of (Script.ofExcept r)

/-- A body that is left early has the value it is left with. -/
def tellBody (te : Teller) (body : Block) : Narrator Value := do
  match ← outcome (tellBlock te .nil body) with
  | .error (.leave v) => return v
  | r => of (Script.ofExcept r)

def tellFunction (env : Environment) (te : Teller) (d : Definition) (scope : Nat)
    (args : List Value) : Narrator Value :=
  if args.length ≠ d.params.length then
    of (Script.raise (.argumentCount d.name d.params.length args.length))
  else
    tellEnter env ⟨d.name, d.file, d.line, none, some (d.params.zip args), scope⟩
      (tellBody te d.body)

def tellCall (env : Environment) (te : Teller) (callee : Value) (args : List Value) :
    Narrator Value :=
  match callee with
  | .function d _ scope => tellFunction env te d scope args
  | .native n => of (n.call args)
  | v => of (Script.raise (.notCallable v.kind))

def tellSettle (env : Environment) (te : Teller) : Nat → Value → Narrator Value
  | 0, .deferred _ _ _ _ _ => of Script.exhausted
  | fuel + 1, .deferred _ body locals file scope => do
    let v ← tellEnter env ⟨"<async>", file, firstLine body, none, some locals, scope⟩
      (tellBody te body)
    tellSettle env te fuel v
  | _, v => return v

def tellModule (env : Environment) (te : Teller) (name : String) (p : Program) :
    Narrator Bindings := do
  let m ← of Script.get
  let scope := m.namespaces.length
  of (Script.set (m.openModule name p))
  let _ ← tellEnter env ⟨"<module>", p.file, 1, none, none, scope⟩ (tellBody te p.body)
  let m ← of Script.get
  match m.namespaces[scope]? with
  | some n => return n.bindings
  | none => return []

def tellLoad (env : Environment) (te : Teller) (name : String) : Narrator Value := do
  let m ← of Script.get
  match m.loaded.get? name with
  | some v => return v
  | none =>
    match env.registry.get? name with
    | none => of (Script.raise (.noModule name))
    | some ⟨_, .native members⟩ => of (addModule name members)
    | some ⟨_, .script p⟩ => do
      let members ← tellModule env te name p
      of (addModule name members)

/-- Repeats a body while a condition is true. -/
def tellLoop (te : Teller) (line : Nat) (condition : Node) (body : Block) :
    Nat → Bool → Narrator Value
  | 0, _ => of Script.exhausted
  | fuel + 1, isFirst => do
    if !isFirst then
      mark (.returns line)
      of (reportLine true line)
    mark (.checks line isFirst)
    let c ← te condition
    if c.isTrue then
      let _ ← tellBlock te .nil body
      tellLoop te line condition body fuel false
    else return .nil

def tellAttempt (te : Teller) (body : Block) (handlers : List Handler) : Narrator Value := do
  match ← outcome (tellBlock te .nil body) with
  | .error (.raise e) =>
    match handlers.find? (·.catches e.name) with
    | none => of (Script.exit (.raise e))
    | some h =>
      match h.binding with
      | some name => of (Script.modify fun m => m.bind name (.text e.message))
      | none => pure ()
      tellBlock te .nil h.body
  | r => of (Script.ofExcept r)

def tellMessage (te : Teller) : Option Node → Narrator String
  | none => return ""
  | some n => do
    let v ← te n
    return v.display

/-- Evaluates a node, where its parts are evaluated by `te`. -/
def tellNode (env : Environment) (te : Teller) (rounds : Nat) : Teller
  | .literal _ l => return l.value
  | .variable _ name => of (lookupName name)
  | .member _ object member => of (lookupMember object member)
  | .bind _ name value => do
    let v ← te value
    of (Script.modify fun m => m.bind name v)
    return .nil
  | .assign _ name value => do
    let v ← te value
    of (assignName name v)
    return .nil
  | .define line name params body file column => do
    let m ← of Script.get
    of (Script.set
      (m.bind name (.function ⟨name, params, body, file, line, column⟩ m.home m.scope)))
    return .nil
  | .branch _ condition taken other => do
    let c ← te condition
    tellBlock te .nil (if c.isTrue then taken else other)
  | .loop line condition body => tellLoop te line condition body rounds true
  | .block _ body => tellBlock te .nil body
  | .leave _ none => of (Script.exit (.leave .nil))
  | .leave _ (some value) => do
    let v ← te value
    of (Script.exit (.leave v))
  | .load _ name => do
    let v ← tellLoad env te name
    of (Script.modify fun m => m.bind name v)
    return .nil
  | .defer _ body => of (deferBody body)
  | .await _ value => do
    let v ← te value
    tellSettle env te rounds v
  | .allOf _ items => tellUntil te false (.bool true) items
  | .anyOf _ items => tellUntil te true (.bool false) items
  | .raise _ name message => do
    let text ← tellMessage te message
    of (Script.exit (.raise (.raised name text)))
  | .attempt _ body handlers => tellAttempt te body handlers
  | .call line callee args => do
    of (Script.modify fun m => m.setLine line)
    let f ← te callee
    let vs ← tellAll te args
    of (Script.modify fun m => m.setLine line)
    tellCall env te f vs

/-- Evaluates a node with a bound on the depth of recursion and the rounds of loops. -/
def tell (env : Environment) : Nat → Teller
  | 0, _ => of Script.exhausted
  | fuel + 1, n => tellFrames do
    of (Script.ask .poll)
    tellNode env (tell env fuel) fuel n

/-- The story of a program. -/
def Program.story (env : Environment) (fuel : Nat) (p : Program) : Story (Except Exit Value) :=
  tellEnter env ⟨"<module>", p.file, 1, none, none, 0⟩ (do
    let v ← tellBody (tell env fuel) p.body
    tellSettle env (tell env fuel) fuel v) (Machine.start p)

end Lispbox
