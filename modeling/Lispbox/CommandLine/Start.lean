import Lispbox.CommandLine.Arguments
import Lispbox.CommandLine.Job
import Lispbox.Integer.Power
import Lispbox.Run.Host
import Lispbox.Text.Split
/-!
# Starting a command

The files that a command reads are known from its arguments (`Invocation.paths`), so that they can
be read before it starts. The first thing that is missing ends the command with an error: the
settings, then the script, then the files for the script.
-/
namespace Lispbox.CommandLine

/-- Why a file cannot be read. -/
inductive FileFault where
  | missing
  | isDirectory
  /-- A part of the path is a file. -/
  | notDirectory
  /-- The path or one of its parts is too long. -/
  | nameTooLong
  | other (text : String)
  deriving DecidableEq, Repr

/-- The text of the error. -/
def FileFault.describe : FileFault → String
  | .missing => "No such file or directory (os error 2)"
  | .isDirectory => "Is a directory (os error 21)"
  | .notDirectory => "Not a directory (os error 20)"
  | .nameTooLong => "File name too long (os error 36)"
  | .other text => text

/-- The files that a command can read, by their paths. -/
structure Files where
  read : String → Except FileFault String
  /-- The files and directories in a directory. -/
  directory : String → Resolver.Directory

/-- The part of a text before the first equals sign and the part behind it. -/
def splitEquals (spec : String) : Option (String × String) :=
  match spec.toList.dropWhile (· != '=') with
  | [] => none
  | _ :: path => some (String.ofList (spec.toList.takeWhile (· != '=')), String.ofList path)

/-- The files that a command reads. -/
def Invocation.paths (i : Invocation) : List String :=
  i.config.toList ++
    match i.action with
    | .script o => o.file :: o.files.filterMap fun spec => (splitEquals spec).map Prod.snd
    | .service _ => []

namespace Files

/-- Reads a file that the command cannot do without. -/
def require (fs : Files) (path : String) : Except Failure String :=
  match fs.read path with
  | .ok text => .ok text
  | .error f => .error ⟨"failed to read " ++ path, some f.describe⟩

/-- Reads the settings. -/
def config (fs : Files) (path : Option String) : Except Failure Config :=
  match path with
  | none => .ok .default
  | some path =>
    match fs.read path with
    | .error f => .error ⟨"failed to read " ++ path ++ ": " ++ f.describe, some f.describe⟩
    | .ok text =>
      match Config.ofText text with
      | .ok c => .ok c
      | .error .malformed =>
        let cause := "the text does not describe settings"
        .error ⟨"failed to parse " ++ path ++ ": " ++ cause, some cause⟩
      | .error (.invalid f) => .error ⟨f.describe, none⟩

/-- Reads the files for a script; of two with one name the last counts. -/
def forScript (fs : Files) (specs : List String) : Except Failure (List (String × String)) := do
  let named ← specs.mapM fun spec =>
    match splitEquals spec with
    | none => .error ⟨"expected NAME=PATH, got '" ++ spec ++ "'", none⟩
    | some (name, path) => (fs.require path).map fun text => (name, text)
  return Json.sortMembers named

end Files

/-- The last part of a path. -/
def fileName (path : String) : String := ((Text.split '/' path).getLast?).getD ""

/-- A session for a command. -/
def openSession (fs : Files) (config : Config) (packages : Option String) :
    Except Failure Session :=
  let resolver := match packages with
    | some path => Resolver.ofDirectory (fs.directory path) config.recursionLimit
    | none => .none
  match Session.build ⟨config, resolver, .builtin, ampleFuel⟩ .standard true with
  | .ok s => .ok s
  | .error f => .error ⟨f.describe, none⟩

/-- The run that is asked for. -/
def ScriptOptions.request (o : ScriptOptions) (source : String) : RunRequest where
  source := some source
  file := some (fileName o.file)
  mode := if o.debug || !o.breakpoints.isEmpty then .debug else .plain
  breakpoints := Debugger.sortLines o.breakpoints
  stdin := []

/-- Starts to run a script. -/
def ScriptOptions.start (o : ScriptOptions) (fs : Files) (config : Config)
    (packages : Option String) : Except Failure (List Print × Job) := do
  let source ← fs.require o.file
  let session ← openSession fs config packages
  let files ← fs.forScript o.files
  return Job.scripting (Console.start (session.provideFiles files) (o.request source) o.json)

/-- Why an address is not one to listen on. -/
def addressFault (address : String) : String :=
  match (Text.split ':' address).reverse with
  | number :: _ :: _ =>
    let (negative, digits) := Text.splitSign number.toList
    if Text.isDigits digits && Text.digitsValue digits < word16 && !negative then
      "listening on addresses is not supported"
    else "invalid port value"
  | _ => "invalid socket address"

/-- Starts a service, which tells its clients the name of the session. -/
def startService (fs : Files) (config : Config) (packages : Option String) (name : String)
    (address : Option String) : Except Failure (List Print × Job) :=
  match address with
  | some a => .error ⟨"failed to bind " ++ a, some (addressFault a)⟩
  | none =>
    (openSession fs config packages).map fun s => ([], .service (Service.opened s name))

/-- Starts what a command line asks for. -/
def Invocation.start (i : Invocation) (fs : Files) (name : String) :
    Except Failure (List Print × Job) := do
  let config ← fs.config i.config
  match i.action with
  | .script o => o.start fs config i.packages
  | .service address => startService fs config i.packages name address

end Lispbox.CommandLine
