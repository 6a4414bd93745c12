/-!
# Programs

A program is a list of nodes. Every node knows the line it starts on, and every node of a block is a
statement: its line can be reported to a debugger.

`Definition` is a function as written, `Handler` one `except` clause; without a name that catches
every exception.
-/
namespace Lispbox

/-- A constant of a program. -/
inductive Literal where
  | nil
  | bool (b : Bool)
  | integer (n : Int64)
  | float (x : Float)
  | text (s : String)
  deriving Repr

/-- A clause that handles exceptions by a name, or all of them, and may bind the message to a
variable. -/
structure Clause (β : Type) where
  name : Option String
  binding : Option String
  body : β
  deriving Repr

/-- A node of a program. The first component is the line where it starts. -/
inductive Node where
  | literal (line : Nat) (value : Literal)
  | variable (line : Nat) (name : String)
  /-- A member of a module that is bound to a name. -/
  | member (line : Nat) (object member : String)
  /-- Binds a name in the innermost scope. -/
  | bind (line : Nat) (name : String) (value : Node)
  /-- Changes an existing binding. -/
  | assign (line : Nat) (name : String) (value : Node)
  /-- Binds a function; the column tells definitions on one line apart. -/
  | define (line : Nat) (name : String) (params : List String) (body : List Node) (file : String)
      (column : Nat)
  | branch (line : Nat) (condition : Node) (thenBlock elseBlock : List Node)
  | loop (line : Nat) (condition : Node) (body : List Node)
  | block (line : Nat) (body : List Node)
  /-- Ends the function, deferred body, module or program. -/
  | leave (line : Nat) (value : Option Node)
  | load (line : Nat) (module : String)
  | defer (line : Nat) (body : List Node)
  | await (line : Nat) (value : Node)
  /-- The first value that is false, or the last one. -/
  | allOf (line : Nat) (items : List Node)
  /-- The first value that is true, or the last one. -/
  | anyOf (line : Nat) (items : List Node)
  | raise (line : Nat) (name : String) (message : Option Node)
  | attempt (line : Nat) (body : List Node) (handlers : List (Clause (List Node)))
  | call (line : Nat) (callee : Node) (args : List Node)
  deriving Repr

/-- Statements that are executed one after another. -/
abbrev Block := List Node

/-- An `except` clause. -/
abbrev Handler := Clause Block

/-- The line where the node starts. -/
def Node.line : Node → Nat
  | .literal l _ | .variable l _ | .member l _ _ | .bind l _ _ | .assign l _ _ | .define l _ _ _ _ _
  | .branch l _ _ _ | .loop l _ _ | .block l _ | .leave l _ | .load l _ | .defer l _ | .await l _
  | .allOf l _ | .anyOf l _ | .raise l _ _ | .attempt l _ _ | .call l _ _ => l

/-- The handler catches exceptions with the given name. Mirrors `matches`. -/
def Clause.catches {β : Type} (h : Clause β) (exception : String) : Bool :=
  match h.name with
  | none => true
  | some name => name == exception || name == "Exception"

/-- A function as written in a source. -/
structure Definition where
  name : String
  params : List String
  body : Block
  file : String
  line : Nat
  column : Nat
  deriving Repr

/-- A program that can be executed. -/
structure Program where
  file : String
  /-- The text it was read from; tracebacks quote its lines. -/
  source : String
  body : Block
  deriving Repr

end Lispbox
