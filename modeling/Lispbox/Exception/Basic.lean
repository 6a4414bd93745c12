import Lispbox.Exception.Cause
/-!
# Exceptions

An exception has a name and a message, and the frames that were active when it was raised, outermost
first. Its traceback lists the frames and ends with the summary; of a run of equal frames three are
shown and the others are counted.
-/
namespace Lispbox

/-- An active function, module body or deferred body, at the time of an exception. -/
structure TraceFrame where
  file : String
  line : Nat
  function : String
  /-- The trimmed text of the line, if the source is known. -/
  sourceLine : Option String
  deriving DecidableEq, Repr

/-- An exception. -/
structure Exception where
  name : String
  message : String
  frames : List TraceFrame
  /-- The module that could not be imported. -/
  missingModule : Option String
  deriving DecidableEq, Repr

/-- The exception of a cause, not yet raised in any frame. Mirrors `raise` and
`module_not_found`. -/
def Exception.ofCause (c : Cause) : Exception :=
  ⟨c.kind.name, c.message, [],
    match c with
    | .noModule name => some name
    | _ => none⟩

/-- The exception that a script raises itself. -/
def Exception.raised (name message : String) : Exception := ⟨name, message, [], none⟩

/-- The last line of the traceback. -/
def Exception.summary (e : Exception) : String :=
  if e.message.isEmpty then e.name else e.name ++ ": " ++ e.message

/-- How many frames of a run of equal ones are shown. Mirrors `MAX_REPEATED_FRAMES`. -/
def shownRepetitions : Nat := 3

/-- The lines of a frame. -/
def TraceFrame.render (f : TraceFrame) : String :=
  "  File \"" ++ f.file ++ "\", line " ++ toString f.line ++ ", in " ++ f.function ++ "\n"
    ++ match f.sourceLine with
      | some text => if text.isEmpty then "" else "    " ++ text ++ "\n"
      | none => ""

/-- The lines of a run of equal frames. -/
def renderRun (run : List TraceFrame) : String :=
  String.join ((run.take shownRepetitions).map TraceFrame.render)
    ++ if shownRepetitions < run.length then
        "  [Previous line repeated " ++ toString (run.length - shownRepetitions) ++ " more times]\n"
      else ""

/-- The first line of a traceback. -/
def tracebackHeader : String := "Traceback (most recent call last):\n"

/-- The traceback. Mirrors `render_traceback`. -/
def Exception.render (e : Exception) : String :=
  tracebackHeader ++ String.join ((e.frames.splitBy (· == ·)).map renderRun) ++ e.summary

end Lispbox
