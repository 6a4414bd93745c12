import Lispbox.Exception.Basic
import Lispbox.Text.Split
/-!
# Explanations

An exception is explained to the user in six texts: its name and traceback, what exceptions of this
name mean, why it was raised this time, where in the user's own file, and what happened in short.

* `locate`: the part of a traceback from the first line that mentions the file up to the next line
  that mentions the exception.
-/
namespace Lispbox

/-- An exception as it is shown to the user. -/
structure Explanation where
  name : String
  traceback : String
  /-- What exceptions of this name mean. -/
  info : String
  /-- Why it was raised this time. -/
  why : String
  /-- The lines of the traceback that concern the user's file. -/
  whereText : String
  /-- What happened, in short. -/
  what : String
  deriving DecidableEq, Repr

/-- A source of the texts that depend on more than the traceback. -/
structure Explainer where
  info : Exception → String
  why : Exception → String

/-- What exceptions of a kind mean. -/
def ExceptionKind.info : ExceptionKind → String
  | .nameError => "A NameError occurs when you use a name that has not been defined yet, or that was defined somewhere your code cannot see it."
  | .typeError => "A TypeError usually means you combined values of incompatible types, or called a function with the wrong number of arguments."
  | .valueError => "A ValueError means a function received a value of the right type but with an inappropriate content."
  | .zeroDivision => "A ZeroDivisionError occurs when you divide a number by zero or take a modulo with zero."
  | .indexError => "An IndexError occurs when you ask for an item at a position that does not exist in a list or string."
  | .attributeError => "An AttributeError occurs when you ask a module or value for a member it does not have."
  | .moduleNotFound => "A ModuleNotFoundError means the module you tried to import is not installed or its name is misspelled."
  | .recursionError => "A RecursionError occurs when a function calls itself too many times without reaching a stopping case."
  | .fileNotFound => "A FileNotFoundError means the program tried to read a file that was not provided."
  | .overflowError => "An OverflowError means a calculation produced a number, string or list too large to be represented."
  | .systemError => "A SystemError means the interpreter itself failed while running your program. It is not caused by a mistake in your code alone."

/-- All kinds of exceptions that the interpreter raises. -/
def ExceptionKind.all : List ExceptionKind :=
  [.nameError, .typeError, .valueError, .zeroDivision, .indexError, .attributeError,
   .moduleNotFound, .recursionError, .fileNotFound, .overflowError, .systemError]

/-- The kind with a name. -/
def ExceptionKind.ofName? (name : String) : Option ExceptionKind :=
  ExceptionKind.all.find? (·.name == name)

theorem ExceptionKind.ofName?_name (k : ExceptionKind) :
    ExceptionKind.ofName? k.name = some k := by
  cases k <;> decide

/-- The general text for an exception of any name. -/
def builtinInfo (e : Exception) : String :=
  match ExceptionKind.ofName? e.name with
  | some k => k.info
  | none => e.name ++ " was raised by your program."

/-- The text for the message of an exception that nothing more is known about. -/
def reportedText (e : Exception) : String :=
  if e.message.isEmpty then "" else "Your program reported: " ++ e.message

/-- The likely reason of an exception. Mirrors `cause`. -/
def builtinWhy (e : Exception) : String :=
  match ExceptionKind.ofName? e.name with
  | some .nameError =>
    "In your program, " ++ e.message
      ++ ". Check the spelling, and make sure the name is defined before it is used."
  | some .zeroDivision => "The divisor in your calculation evaluated to zero."
  | some .recursionError =>
    "Your function keeps calling itself. Make sure every recursive call moves closer to a case that returns without recursing."
  | some .moduleNotFound =>
    match e.missingModule with
    | some name => "No module named '" ++ name ++ "' could be found or installed."
    | none => e.message
  | _ => reportedText e

/-- The explanations for the exceptions that the interpreter raises. -/
def Explainer.builtin : Explainer := ⟨builtinInfo, builtinWhy⟩

/-- The lines from the first one that mentions `file` up to the first later one that mentions
`name`; empty if there are no such lines. -/
def locate (traceback file name : String) : String :=
  match (Text.split '\n' traceback).dropWhile fun l => !Text.contains l file with
  | [] => ""
  | first :: rest =>
    match rest.dropWhile fun l => !Text.contains l name with
    | [] => ""
    | last :: _ =>
      "\n".intercalate (first :: rest.takeWhile (fun l => !Text.contains l name) ++ [last])

/-- The explanation of an exception for the user of a file. -/
def Exception.explain (e : Exception) (file : String) (x : Explainer) : Explanation where
  name := e.name
  traceback := e.render
  info := x.info e
  why := x.why e
  whereText := locate e.render file e.name
  what := e.summary

end Lispbox
