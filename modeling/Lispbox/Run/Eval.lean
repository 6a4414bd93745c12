import Lispbox.Native.Call
/-!
# Evaluation

A node is evaluated in the innermost frame. Before every node the host is asked whether to go on,
and before every statement its line is reported if it is not the line that the frame reported last.
An exception gets its frames from the first evaluation that sees it without any.

All recursion is through `eval`, which counts its fuel down, as loops and chains of deferred values
do; each of these steps asks the host first, so a host that stops the run after some number of
questions bounds the fuel that a run needs.

* `eval_succ`: what the evaluation of a node consists of.
-/
namespace Lispbox
open Script

/-- Evaluates a node. -/
abbrev Evaluator := Node → Script Value

/-- Moves the innermost frame to a line, and reports the line if the frame did not report it last or
if `always` is set. Mirrors `line_event`. -/
def reportLine (always : Bool) (line : Nat) : Script Unit := do
  let m ← get
  match m.frames with
  | [] => return
  | f :: _ =>
    if !always && f.reported == some line then set (m.setLine line)
    else
      set (m.reportFrom line)
      Script.ask (.line f.file line)

/-- Gives an exception without frames the active ones. Mirrors a part of `eval`. -/
def withFrames {α : Type} (s : Script α) : Script α := do
  match ← outcome s with
  | .error (.raise e) =>
    if e.frames.isEmpty then
      let m ← get
      exit (.raise { e with frames := m.traceback })
    else exit (.raise e)
  | r => ofExcept r

/-- Executes the statements of a block; the last value is its value, `last` if it is empty. Mirrors
`block`. -/
def runBlock (ev : Evaluator) (last : Value) : Block → Script Value
  | [] => return last
  | n :: ns => do
    reportLine false n.line
    let v ← ev n
    runBlock ev v ns

/-- Evaluates nodes from left to right. Mirrors the arguments of a call in `eval_node`. -/
def evalAll (ev : Evaluator) : List Node → Script (List Value)
  | [] => return []
  | n :: ns => do
    let v ← ev n
    let vs ← evalAll ev ns
    return v :: vs

/-- Evaluates nodes up to the first one whose truth is `stop`; the last value is the result. Mirrors
the loops for `and` and `or` in `eval_node`. -/
def evalUntil (ev : Evaluator) (stop : Bool) (last : Value) : List Node → Script Value
  | [] => return last
  | n :: ns => do
    let v ← ev n
    if v.isTrue == stop then return v else evalUntil ev stop v ns

/-- Executes a body in a frame of its own, unless too many frames are active. Mirrors `in_frame`. -/
def enter (env : Environment) (f : Frame) (body : Script Value) : Script Value := do
  let m ← get
  if env.depth ≤ m.frames.length then
    set m.refuse
    raise .depthExceeded
  else
    set (m.push f)
    let r ← outcome body
    modify Machine.pop
    ofExcept r

/-- A body that is left early has the value it is left with. Mirrors the way in which
`call_closure`, `run_deferred`, `import` and `run` take a return. -/
def untilLeft (body : Script Value) : Script Value := do
  match ← outcome body with
  | .error (.leave v) => return v
  | r => ofExcept r

/-- Calls a function of a script. Mirrors `call_closure`. -/
def callFunction (env : Environment) (ev : Evaluator) (d : Definition) (scope : Nat)
    (args : List Value) : Script Value :=
  if args.length ≠ d.params.length then
    raise (.argumentCount d.name d.params.length args.length)
  else
    enter env ⟨d.name, d.file, d.line, none, some (d.params.zip args), scope⟩
      (untilLeft (runBlock ev .nil d.body))

/-- Calls a value. Mirrors `call`. -/
def callValue [Supply] (env : Environment) (ev : Evaluator) (callee : Value) (args : List Value) :
    Script Value :=
  match callee with
  | .function d _ scope => callFunction env ev d scope args
  | .native n => n.call args
  | v => raise (.notCallable v.kind)

/-- The line of a deferred body before its first statement is reached. Mirrors a part of
`run_deferred`. -/
def firstLine (body : Block) : Nat :=
  match body with
  | n :: _ => n.line
  | [] => 1

/-- Executes deferred bodies until the value is not deferred. Mirrors `settle` and
`run_deferred`. -/
def settle (env : Environment) (ev : Evaluator) : Nat → Value → Script Value
  | 0, .deferred _ _ _ _ _ => exhausted
  | fuel + 1, .deferred _ body locals file scope => do
    let v ← enter env ⟨"<async>", file, firstLine body, none, some locals, scope⟩
      (untilLeft (runBlock ev .nil body))
    settle env ev fuel v
  | _, v => return v

/-- The module object of a new serial number; it is remembered under its name. Mirrors a part of
`import`. -/
def addModule (name : String) (members : Bindings) : Script Value := do
  let m ← get
  let v := Value.module m.serial name members
  set (m.advance.remember name v)
  return v

/-- Executes the body of a module in a namespace of its own; the globals are the members. Mirrors
the part of `import` for scripts. -/
def runModule (env : Environment) (ev : Evaluator) (name : String) (p : Program) :
    Script Bindings := do
  let m ← get
  let scope := m.namespaces.length
  set (m.openModule name p)
  let _ ← enter env ⟨"<module>", p.file, 1, none, none, scope⟩
    (untilLeft (runBlock ev .nil p.body))
  let m ← get
  match m.namespaces[scope]? with
  | some n => return n.bindings
  | none => return []

/-- The module of a name; its body is executed if it was not imported yet. Mirrors `import`. -/
def load (env : Environment) (ev : Evaluator) (name : String) : Script Value := do
  let m ← get
  match m.loaded.get? name with
  | some v => return v
  | none =>
    match env.registry.get? name with
    | none => raise (.noModule name)
    | some ⟨_, .native members⟩ => addModule name members
    | some ⟨_, .script p⟩ => do
      let members ← runModule env ev name p
      addModule name members

/-- The value of a name. Mirrors `lookup`. -/
def lookupName (name : String) : Script Value := do
  let m ← get
  match m.lookup? name with
  | some v => return v
  | none => raise (.undefined name)

/-- The member of a module that is bound to a name. Mirrors `member`. -/
def lookupMember (object member : String) : Script Value := do
  match ← lookupName object with
  | .module _ name members =>
    match Bindings.get? member members with
    | some v => return v
    | none => raise (.noModuleMember name member)
  | v => raise (.noMember v.kind member)

/-- Changes the nearest binding of a name. Mirrors `assign`. -/
def assignName (name : String) (v : Value) : Script Unit := do
  let m ← get
  match m.assign? name v with
  | some m => set m
  | none => raise (.undefined name)

/-- Repeats a body while a condition is true. Before every check but the first the line of the loop
is reported. Mirrors the loop for `while` in `eval_node`. -/
def runLoop (ev : Evaluator) (line : Nat) (condition : Node) (body : Block) :
    Nat → Bool → Script Value
  | 0, _ => exhausted
  | fuel + 1, isFirst => do
    if !isFirst then reportLine true line
    let c ← ev condition
    if c.isTrue then
      let _ ← runBlock ev .nil body
      runLoop ev line condition body fuel false
    else return .nil

/-- Executes a body, and the first handler that catches the exception it raises. Mirrors
`try_block`. -/
def runAttempt (ev : Evaluator) (body : Block) (handlers : List Handler) : Script Value := do
  match ← outcome (runBlock ev .nil body) with
  | .error (.raise e) =>
    match handlers.find? (·.catches e.name) with
    | none => exit (.raise e)
    | some h =>
      match h.binding with
      | some name => modify fun m => m.bind name (.text e.message)
      | none => pure ()
      runBlock ev .nil h.body
  | r => ofExcept r

/-- The text of the message that a script raises an exception with. Mirrors a part of
`eval_node`. -/
def evalMessage (ev : Evaluator) : Option Node → Script String
  | none => return ""
  | some n => do
    let v ← ev n
    return v.display

/-- A deferred body with the locals of the innermost frame. Mirrors a part of `eval_node`, with
`capture`. -/
def deferBody (body : Block) : Script Value := do
  let m ← get
  set m.advance
  return .deferred m.serial body m.locals m.file m.scope

/-- Evaluates a node, where its parts are evaluated by `ev`, and loops and chains of deferred values
take `rounds` rounds at most. Mirrors `eval_node`. -/
def evalNode [Supply] (env : Environment) (ev : Evaluator) (rounds : Nat) : Evaluator
  | .literal _ l => return l.value
  | .variable _ name => lookupName name
  | .member _ object member => lookupMember object member
  | .bind _ name value => do
    let v ← ev value
    modify fun m => m.bind name v
    return .nil
  | .assign _ name value => do
    let v ← ev value
    assignName name v
    return .nil
  | .define line name params body file column => do
    let m ← get
    set (m.bind name (.function ⟨name, params, body, file, line, column⟩ m.home m.scope))
    return .nil
  | .branch _ condition taken other => do
    let c ← ev condition
    runBlock ev .nil (if c.isTrue then taken else other)
  | .loop line condition body => runLoop ev line condition body rounds true
  | .block _ body => runBlock ev .nil body
  | .leave _ none => exit (.leave .nil)
  | .leave _ (some value) => do
    let v ← ev value
    exit (.leave v)
  | .load _ name => do
    let v ← load env ev name
    modify fun m => m.bind name v
    return .nil
  | .defer _ body => deferBody body
  | .await _ value => do
    let v ← ev value
    settle env ev rounds v
  | .allOf _ items => evalUntil ev false (.bool true) items
  | .anyOf _ items => evalUntil ev true (.bool false) items
  | .raise _ name message => do
    let text ← evalMessage ev message
    exit (.raise (.raised name text))
  | .attempt _ body handlers => runAttempt ev body handlers
  | .call line callee args => do
    modify fun m => m.setLine line
    let f ← ev callee
    let vs ← evalAll ev args
    modify fun m => m.setLine line
    callValue env ev f vs

/-- Evaluates a node with a bound on the depth of recursion and the rounds of loops. Mirrors
`eval`. -/
def eval [Supply] (env : Environment) : Nat → Evaluator
  | 0, _ => exhausted
  | fuel + 1, n => withFrames do
    Script.ask .poll
    evalNode env (eval env fuel) fuel n

theorem eval_succ [Supply] (env : Environment) (fuel : Nat) (n : Node) :
    eval env (fuel + 1) n = withFrames (do
      Script.ask .poll
      evalNode env (eval env fuel) fuel n) := rfl

/-- Executes a program in its frame; the value of a program is never a deferred one. Mirrors
`run`. -/
def runProgram [Supply] (env : Environment) (fuel : Nat) (p : Program) : Script Value :=
  enter env ⟨"<module>", p.file, 1, none, none, 0⟩ do
    let v ← untilLeft (runBlock (eval env fuel) .nil p.body)
    settle env (eval env fuel) fuel v

/-- The dialogue of a program. -/
def Program.dialogue [Supply] (env : Environment) (fuel : Nat) (p : Program) :
    Dialogue (Except Exit Value) :=
  runProgram env fuel p (Machine.start p)

end Lispbox
