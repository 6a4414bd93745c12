import Lispbox.Exception.Basic
import Lispbox.Run.Registry
import Lispbox.Text.Blank
import Lispbox.Text.Lines
/-!
# The state of a run

A run has a stack of frames and a list of namespaces. Code at the level of a program or module binds
names in its namespace; functions and deferred bodies have locals, and see the namespace of the file
they were written in, where locals hide globals. Nothing refers to the locals of another frame.
-/
namespace Lispbox

/-- What is being executed: a program, a module body, a function or a deferred body. -/
structure Frame where
  function : String
  file : String
  line : Nat
  /-- The line that was reported last. -/
  reported : Option Nat
  /-- Nothing at the level of a program or module. -/
  locals : Option Bindings
  /-- The number of the namespace of the globals. -/
  scope : Nat
  deriving Repr

/-- The globals of a program or module. -/
structure Namespace where
  home : Home
  file : String
  bindings : Bindings
  deriving Repr

/-- The state of a run. -/
structure Machine where
  namespaces : List Namespace
  /-- The active frames, innermost first. -/
  frames : List Frame
  /-- The modules that were imported. -/
  loaded : Bindings
  /-- The sources of files, newest first. -/
  sources : List (String × String)
  /-- The serial number of the next module object or deferred body. -/
  serial : Nat
  /-- How often a frame was refused because too many were active. -/
  refusals : Nat
  deriving Repr

/-- What stays fixed in a run. -/
structure Environment where
  registry : Registry
  /-- How many frames may be active; at least one is always allowed. -/
  limit : Nat
  deriving Repr

/-- The number of frames that may be active. -/
def Environment.depth (env : Environment) : Nat := max 1 env.limit

namespace Machine

/-- The state before a program is executed. -/
def start (p : Program) : Machine where
  namespaces := [⟨.program, p.file, []⟩]
  frames := []
  loaded := []
  sources := [(p.file, p.source)]
  serial := 0
  refusals := 0

/-- The globals of the main program. -/
def globals (m : Machine) : Bindings :=
  match m.namespaces with
  | n :: _ => n.bindings
  | [] => []

/-- The globals that a frame sees. -/
def globalsOf (m : Machine) (f : Frame) : Bindings :=
  match m.namespaces[f.scope]? with
  | some n => n.bindings
  | none => []

/-- The value of a name: a local of the innermost frame, or a global that it sees, or a builtin.
Mirrors `lookup`. -/
def lookup? (m : Machine) (name : String) : Option Value :=
  let bound := m.frames.head?.bind fun f =>
    match (f.locals.getD []).get? name with
    | some v => some v
    | none => (m.globalsOf f).get? name
  match bound with
  | some v => some v
  | none => (Native.builtin? name).map .native

/-- Binds a global of a namespace. -/
def setGlobal (m : Machine) (scope : Nat) (name : String) (v : Value) : Machine :=
  { m with namespaces := m.namespaces.modify scope fun n =>
      { n with bindings := n.bindings.set name v } }

/-- Replaces the innermost frame. -/
def withTop (m : Machine) (f : Frame) : Machine :=
  { m with frames := f :: m.frames.drop 1 }

/-- Binds a name in the innermost scope. -/
def bind (m : Machine) (name : String) (v : Value) : Machine :=
  match m.frames with
  | [] => m
  | f :: _ =>
    match f.locals with
    | some locals => m.withTop { f with locals := some (locals.set name v) }
    | none => m.setGlobal f.scope name v

/-- Changes the nearest binding of a name; nothing if it has none. Mirrors `assign`. -/
def assign? (m : Machine) (name : String) (v : Value) : Option Machine :=
  match m.frames with
  | [] => none
  | f :: _ =>
    match f.locals with
    | some locals =>
      if (locals.get? name).isSome then
        some (m.withTop { f with locals := some (locals.set name v) })
      else if ((m.globalsOf f).get? name).isSome then some (m.setGlobal f.scope name v)
      else none
    | none =>
      if ((m.globalsOf f).get? name).isSome then some (m.setGlobal f.scope name v) else none

/-- Moves the innermost frame to a line. -/
def setLine (m : Machine) (line : Nat) : Machine :=
  match m.frames with
  | [] => m
  | f :: _ => m.withTop { f with line := line }

/-- Moves the innermost frame to a line, which is reported from there. Mirrors `line_event`. -/
def reportFrom (m : Machine) (line : Nat) : Machine :=
  match m.frames with
  | [] => m
  | f :: _ => m.withTop { f with line := line, reported := some line }

/-- A body begins in a frame of its own. -/
def push (m : Machine) (f : Frame) : Machine := { m with frames := f :: m.frames }

/-- The innermost body is over. -/
def pop (m : Machine) : Machine := { m with frames := m.frames.drop 1 }

/-- A frame is refused. -/
def refuse (m : Machine) : Machine := { m with refusals := m.refusals + 1 }

/-- A serial number is given away. -/
def advance (m : Machine) : Machine := { m with serial := m.serial + 1 }

/-- A module gets a namespace, the last one, and its source is known from then on. -/
def openModule (m : Machine) (name : String) (p : Program) : Machine :=
  { m with
    namespaces := m.namespaces ++ [⟨.module name, p.file, []⟩]
    sources := (p.file, p.source) :: m.sources }

/-- A module is remembered under its name. -/
def remember (m : Machine) (name : String) (module : Value) : Machine :=
  { m with loaded := m.loaded.set name module }

/-- The text of a line of a file, trimmed, if the file is known. -/
def sourceLine? (m : Machine) (file : String) (line : Nat) : Option String :=
  (m.sources.lookup file).map fun source => Text.trim (Text.lineText source line)

/-- The active frames, outermost first. -/
def traceback (m : Machine) : List TraceFrame :=
  m.frames.reverse.map fun f => ⟨f.file, f.line, f.function, m.sourceLine? f.file f.line⟩

/-- The namespace of the innermost frame. Mirrors `namespace`. -/
def scope (m : Machine) : Nat :=
  match m.frames with
  | f :: _ => f.scope
  | [] => 0

/-- The file of the innermost frame. Mirrors `filename`. -/
def file (m : Machine) : String :=
  match m.frames with
  | f :: _ => f.file
  | [] => "<unknown>"

/-- The locals of the innermost frame. Mirrors `capture`. -/
def locals (m : Machine) : Bindings :=
  match m.frames with
  | f :: _ => f.locals.getD []
  | [] => []

/-- Whose code the innermost frame executes. -/
def home (m : Machine) : Home :=
  match m.namespaces[m.scope]? with
  | some n => n.home
  | none => .program

end Machine
end Lispbox
