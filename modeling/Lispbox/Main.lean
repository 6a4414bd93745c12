import Lispbox.CommandLine.Start
/-!
# The command

Reads the files that the arguments name, starts the job and leads it to its end: it hands over the
lines of the standard input, lets pauses pass, and shows what there is to show.
-/
namespace Lispbox.CommandLine

/-- What is shown for a command line that is not carried out. -/
def usage : String :=
  "Usage: lispbox [--config FILE] [--packages DIR] run FILE [--debug] [--break LINE]...\n" ++
  "               [--json] [--file NAME=PATH]...\n" ++
  "       lispbox [--config FILE] [--packages DIR] serve [--listen ADDRESS]"

/-- What an error about a file means. -/
def FileFault.ofError : IO.Error → FileFault
  | .noFileOrDirectory _ _ _ => .missing
  | .inappropriateType _ code _ => if code = 21 then .isDirectory else .notDirectory
  | e@(.invalidArgument _ code _) =>
    -- the system may give the code with either sign
    if code = 36 ∨ code = -36 then .nameTooLong else .other (toString e)
  | e => .other (toString e)

/-- Reads a file. -/
def readFile (path : String) : IO (Except FileFault String) := do
  try
    return .ok (← IO.FS.readFile path)
  catch e => return .error (.ofError e)

/-- Reads the scripts in a directory; one that is not there has none. -/
def readDirectory (path : String) : IO Resolver.Directory := do
  let here ← IO.currentDir
  let entries ← try (here / path).readDir catch _ => pure #[]
  let mut files := []
  let mut others := []
  for e in entries do
    if e.fileName.endsWith ".scm" then
      match ← readFile (path ++ "/" ++ e.fileName) with
      | .ok text => files := (e.fileName, text) :: files
      | .error _ => others := e.fileName :: others
  return ⟨files, others⟩

/-- Reads the files that a command line names. -/
def readFiles (i : Invocation) : IO Files := do
  let texts ← i.paths.mapM fun path => return (path, ← readFile path)
  let directories ← i.packages.toList.mapM fun path => return (path, ← readDirectory path)
  return ⟨fun path => (texts.lookup path).getD (.error .missing),
    fun path => (directories.lookup path).getD ⟨[], []⟩⟩

/-- A name that no other session has. -/
def freshName : IO String := do
  let digits ← (List.range 32).mapM fun _ => return Nat.digitChar (← IO.rand 0 15)
  let group (start count : Nat) : String := String.ofList ((digits.drop start).take count)
  return "-".intercalate [group 0 8, group 8 4, group 12 4, group 16 4, group 20 12]

/-- Shows a piece of text. -/
def display : Print → IO Unit
  | .out text => do
    IO.print text
    (← IO.getStdout).flush
  | .err text => IO.eprint text

/-- A line without its ending. -/
def lineOf (text : String) : String := ((Text.lines text)[0]?).getD ""

/-- The longest time that is waited at once, in milliseconds. -/
def longestNap : Nat := 60 * 1000

/-- Leads the run of a script to its end. -/
partial def leadScript (input : IO.FS.Stream) (ended : Bool) (left : Nat)
    (r : List Print × Job) : IO UInt32 := do
  r.1.forM display
  match r.2.exit?, r.2.pause? with
  | some status, _ => return status.toUInt32
  | none, some duration =>
    if left < duration then
      let nap := min longestNap (duration - left)
      IO.sleep nap.toUInt32
      leadScript input ended (left + nap) ([], r.2)
    else leadScript input ended 0 r.2.elapse
  | none, none =>
    if ended then
      IO.sleep longestNap.toUInt32
      leadScript input ended 0 ([], r.2)
    else
      let text ← input.getLine
      if text.isEmpty then leadScript input true 0 r.2.close
      else leadScript input false 0 (r.2.receive (lineOf text))

/-- Leads a service to its end; `deadline` is the time at which the pause of a script is over. -/
partial def leadService (input : IO.FS.Stream) (reading : Option (Task (Except IO.Error String)))
    (deadline : Option Nat) (r : List Print × Job) : IO UInt32 := do
  r.1.forM display
  match r.2.exit? with
  | some status => return status.toUInt32
  | none =>
    match reading, r.2.pause? with
    | some task, none => take task none r.2
    | some task, some duration =>
      let now ← IO.monoMsNow
      let deadline := deadline.getD (now + duration)
      if ← IO.hasFinished task then take task (some deadline) r.2
      else if deadline ≤ now then leadService input reading none r.2.elapse
      else
        IO.sleep 5
        leadService input reading (some deadline) ([], r.2)
    | none, some duration =>
      IO.sleep (min longestNap duration).toUInt32
      leadService input none none r.2.elapse
    | none, none => return 0
where
  /-- Takes the line that was read. -/
  take (task : Task (Except IO.Error String)) (deadline : Option Nat) (j : Job) : IO UInt32 := do
    match task.get with
    | .ok text =>
      if text.isEmpty then leadService input none none j.close
      else
        let next ← IO.asTask input.getLine Task.Priority.dedicated
        leadService input (some next) deadline (j.receive (lineOf text))
    | .error _ => leadService input none none j.close

/-- Carries out a command line. -/
def carryOut (i : Invocation) : IO UInt32 := do
  match i.start (← readFiles i) (← freshName) with
  | .error f =>
    IO.eprint f.render
    return 1
  | .ok r =>
    let input ← IO.getStdin
    match r.2 with
    | .script _ => leadScript input false 0 r
    | .service _ =>
      let reading ← IO.asTask input.getLine Task.Priority.dedicated
      leadService input (some reading) none r

end Lispbox.CommandLine

/-- The command. -/
def main (args : List String) : IO UInt32 :=
  match Lispbox.CommandLine.Invocation.ofWords args with
  | .ok i => Lispbox.CommandLine.carryOut i
  | .error .help => do
    IO.println Lispbox.CommandLine.usage
    return 0
  | .error .misuse => do
    IO.eprintln Lispbox.CommandLine.usage
    return 2
