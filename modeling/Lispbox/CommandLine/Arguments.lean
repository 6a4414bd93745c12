import Lispbox.Integer.Power
import Lispbox.Text.Digits
/-!
# Arguments

A command line asks to run a script or to serve a client. Its words are read one by one: switches
with one or two dashes, values of switches, the name of a command, and the file of a script. A value
stands in the same word behind an equals sign, or is the next word if that does not start with a
dash. Behind the word `--` no word is a switch. The command `help` is followed by the name of at
most one command.
-/
namespace Lispbox.CommandLine

/-- How a script is run. -/
structure ScriptOptions where
  file : String
  debug : Bool
  breakpoints : List Nat
  /-- Messages are shown as lines of JSON. -/
  json : Bool
  /-- The files that the script may read, each as `NAME=PATH`. -/
  files : List String
  deriving DecidableEq, Repr

/-- What a command line asks for. -/
inductive Action where
  | script (o : ScriptOptions)
  /-- Serves a client on the standard streams, or on an address. -/
  | service (address : Option String)
  deriving DecidableEq, Repr

/-- A command line. -/
structure Invocation where
  /-- The file of the settings. -/
  config : Option String
  /-- The directory of modules that are not installed. -/
  packages : Option String
  action : Action
  deriving DecidableEq, Repr

/-- Why a command line is not carried out. -/
inductive Stop where
  /-- It asks for the usage. -/
  | help
  | misuse
  deriving DecidableEq, Repr

/-- The command whose words are read. -/
inductive Place where
  /-- No command is named yet. -/
  | start
  | script
  | service
  | help
  /-- The usage of a command is asked for. -/
  | topic
  deriving DecidableEq, Repr

/-- The switches. -/
inductive Switch where
  | config
  | packages
  | debug
  | breakpoint
  | json
  | file
  | address
  | help
  deriving DecidableEq, Repr

/-- The long name of a switch. -/
def Switch.name : Switch → String
  | .config => "config"
  | .packages => "packages"
  | .debug => "debug"
  | .breakpoint => "break"
  | .json => "json"
  | .file => "file"
  | .address => "listen"
  | .help => "help"

/-- The letter of a switch that has one. -/
def Switch.ofLetter? : Char → Option Switch
  | 'c' => some .config
  | 'h' => some .help
  | _ => none

/-- The switch has a value. -/
def Switch.hasValue : Switch → Bool
  | .debug | .json | .help => false
  | _ => true

/-- The switch may be given more than once. -/
def Switch.isRepeatable : Switch → Bool
  | .breakpoint | .file => true
  | _ => false

/-- The switches of a command. -/
def Place.switches : Place → List Switch
  | .start => [.config, .packages, .help]
  | .script => [.config, .packages, .debug, .breakpoint, .json, .file, .help]
  | .service => [.config, .packages, .address, .help]
  | .help | .topic => []

/-- The names of the commands. -/
def Place.ofName? : String → Option Place
  | "run" => some .script
  | "serve" => some .service
  | "help" => some .help
  | _ => none

/-- The number of a line. -/
def lineNumber? (s : String) : Option Nat :=
  let (negative, digits) := Text.splitSign s.toList
  let n := Text.digitsValue digits
  if Text.isDigits digits && n < word32 && (!negative || n == 0) then some n else none

/-- The value is one that the switch can have. -/
def Switch.accepts (value : String) : Switch → Bool
  | .config | .packages => !value.isEmpty
  | .breakpoint => (lineNumber? value).isSome
  | _ => true

/-- The words that are read. -/
structure Arguments where
  place : Place
  /-- The word `--` was met. -/
  literal : Bool
  /-- The switch whose value is the next word. -/
  pending : Option Switch
  /-- The switches, each with the command it belongs to and its value, last one first. -/
  given : List (Place × Switch × String)
  /-- The file of the script. -/
  file : Option String
  deriving DecidableEq, Repr

namespace Arguments

/-- No word. -/
def empty : Arguments := ⟨.start, false, none, [], none⟩

/-- Adds a switch with its value. -/
def give (a : Arguments) (w : Switch) (value : String) : Except Stop Arguments :=
  let again := a.given.any fun (place, other, _) => place == a.place && other == w
  if !w.accepts value || (again && !w.isRepeatable) then .error .misuse
  else .ok { a with pending := none, given := (a.place, w, value) :: a.given }

/-- Meets a switch, with the value that is attached to it. -/
def meet (a : Arguments) (w : Switch) (attached : Option String) : Except Stop Arguments :=
  match w.hasValue, attached with
  | true, some value => a.give w value
  | true, none => .ok { a with pending := some w }
  | false, some _ => .error .misuse
  | false, none => if w = .help then .error .help else a.give w ""

/-- Meets a word that is neither a switch nor a value. -/
def plain (a : Arguments) (word : String) : Except Stop Arguments :=
  match a.place, a.file with
  | .script, none => if word.isEmpty then .error .misuse else .ok { a with file := some word }
  | _, _ => .error .misuse

/-- Meets the name of a command. -/
def command (a : Arguments) (word : String) : Except Stop Arguments :=
  match Place.ofName? word with
  | some place => .ok { a with place }
  | none => .error .misuse

/-- Meets the name of a command whose usage is asked for. -/
def topic (a : Arguments) (word : String) : Except Stop Arguments :=
  match Place.ofName? word with
  | some _ => .ok { a with place := .topic }
  | none => .error .misuse

/-- Meets a switch by its long name. -/
def long (a : Arguments) (cs : List Char) : Except Stop Arguments :=
  let name := String.ofList (cs.takeWhile (· != '='))
  let attached := match cs.dropWhile (· != '=') with
    | _ :: value => some (String.ofList value)
    | [] => none
  match a.place.switches.find? (·.name == name) with
  | some w => a.meet w attached
  | none => .error .misuse

/-- Meets a switch by its letter. -/
def short (a : Arguments) (letter : Char) (rest : List Char) : Except Stop Arguments :=
  match Switch.ofLetter? letter, rest with
  | some .help, _ => .error .help
  | some w, [] => a.meet w none
  | some w, '=' :: value => a.meet w (some (String.ofList value))
  | some w, value => a.meet w (some (String.ofList value))
  | none, _ => .error .misuse

/-- Reads a word in front of a command or behind one that has switches. -/
def readSwitched (a : Arguments) (word : String) : Except Stop Arguments :=
  match a.pending, a.literal, word.toList with
  | some _, _, '-' :: _ :: _ => .error .misuse
  | some w, _, _ => a.give w word
  | none, true, _ => a.plain word
  | none, false, ['-', '-'] => .ok { a with literal := true }
  | none, false, '-' :: '-' :: cs => a.long cs
  | none, false, '-' :: c :: cs => a.short c cs
  | none, false, _ => if a.place = .start then a.command word else a.plain word

/-- Reads a word. -/
def read (a : Arguments) (word : String) : Except Stop Arguments :=
  match a.place with
  | .help => a.topic word
  | .topic => .error .misuse
  | _ => a.readSwitched word

/-- The value of a switch; what belongs to the command counts before what stands in front of it. -/
def value? (a : Arguments) (w : Switch) : Option String := first a.given w
where
  /-- The value of the first entry of a switch. -/
  first : List (Place × Switch × String) → Switch → Option String
    | [], _ => none
    | (_, other, value) :: rest, w => if other = w then some value else first rest w

/-- The values of a switch in their order. -/
def values (a : Arguments) (w : Switch) : List String :=
  (a.given.filter fun (_, other, _) => other == w).reverse.map fun (_, _, value) => value

/-- The switch is given. -/
def has (a : Arguments) (w : Switch) : Bool := (a.value? w).isSome

/-- The action of the words. -/
def action (a : Arguments) : Except Stop Action :=
  match a.pending, a.place, a.file with
  | none, .service, _ => .ok (.service (a.value? .address))
  | none, .script, some file =>
    .ok (.script ⟨file, a.has .debug, (a.values .breakpoint).filterMap lineNumber?, a.has .json,
      a.values .file⟩)
  | none, .help, _ | none, .topic, _ => .error .help
  | _, _, _ => .error .misuse

end Arguments

/-- The command line with these words. -/
def Invocation.ofWords (words : List String) : Except Stop Invocation := do
  let a ← words.foldlM Arguments.read .empty
  return ⟨a.value? .config, a.value? .packages, ← a.action⟩

end Lispbox.CommandLine
