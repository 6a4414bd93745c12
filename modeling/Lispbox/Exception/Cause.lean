import Lispbox.Value.Basic
/-!
# Causes of exceptions

Everything that makes the interpreter itself raise an exception is a `Cause`; it determines the name
of the exception and its message.
-/
namespace Lispbox

/-- The names of the exceptions that the interpreter raises. -/
inductive ExceptionKind where
  | nameError | typeError | valueError | zeroDivision | indexError | attributeError | moduleNotFound
  | recursionError | fileNotFound | overflowError | systemError
  deriving DecidableEq, Repr

/-- The name that handlers and users see. -/
def ExceptionKind.name : ExceptionKind → String
  | .nameError => "NameError"
  | .typeError => "TypeError"
  | .valueError => "ValueError"
  | .zeroDivision => "ZeroDivisionError"
  | .indexError => "IndexError"
  | .attributeError => "AttributeError"
  | .moduleNotFound => "ModuleNotFoundError"
  | .recursionError => "RecursionError"
  | .fileNotFound => "FileNotFoundError"
  | .overflowError => "OverflowError"
  | .systemError => "SystemError"

/-- Why the interpreter raises an exception. -/
inductive Cause where
  -- names, members, calls, modules
  | undefined (name : String)
  | notCallable (kind : Kind)
  | argumentCount (function : String) (expected given : Nat)
  | noModuleMember (module member : String)
  | noMember (kind : Kind) (member : String)
  | depthExceeded
  | noModule (name : String)
  -- arguments of native functions
  | nativeCount (function : String) (expected given : Nat)
  | tooFew (function : String) (minimum given : Nat)
  | notNumber (function : String) (kind : Kind)
  | badSleep
  | floatToInteger (text : String)
  | badIntegerText (quoted : String)
  | badIntegerKind (kind : Kind)
  | badFloatText (quoted : String)
  | badFloatKind (kind : Kind)
  | noLength (kind : Kind)
  | badIndexKind (kind : Kind)
  | listIndex
  | textIndex
  | notIndexable (kind : Kind)
  | appendKind (kind : Kind)
  | rangeKind (kind : Kind)
  | rangeCount (given : Nat)
  | rangeStep
  | rangeTooLarge
  | absKind (kind : Kind)
  | emptyExtremum (function : String)
  | fileNameKind (kind : Kind)
  | noFile (name : String)
  | imageArguments
  | imageFormat (format : String)
  -- arithmetic
  | operandKinds (operator : String) (left right : Kind)
  | negationKind (kind : Kind)
  | unordered (operator : String) (left right : Kind)
  | integerOverflow
  | repetitionTooLong
  | sequenceTooLong
  | divisionByZero
  | integerDivisionByZero
  | floorDivisionByZero
  | moduloByZero
  | domain
  | infiniteToInteger
  -- the interpreter itself
  | crash (reason : String)
  deriving DecidableEq, Repr

/-- The name of the exception that a cause raises. -/
def Cause.kind : Cause → ExceptionKind
  | .undefined _ => .nameError
  | .notCallable _ | .argumentCount _ _ _ | .nativeCount _ _ _ | .tooFew _ _ _ | .notNumber _ _
  | .badIntegerKind _ | .badFloatKind _ | .noLength _ | .badIndexKind _ | .notIndexable _
  | .appendKind _ | .rangeKind _ | .rangeCount _ | .absKind _ | .fileNameKind _ | .imageArguments
  | .operandKinds _ _ _ | .negationKind _ | .unordered _ _ _ => .typeError
  | .noModuleMember _ _ | .noMember _ _ => .attributeError
  | .depthExceeded => .recursionError
  | .noModule _ => .moduleNotFound
  | .badSleep | .floatToInteger _ | .badIntegerText _ | .badFloatText _ | .rangeStep
  | .rangeTooLarge | .emptyExtremum _ | .imageFormat _ | .domain => .valueError
  | .listIndex | .textIndex => .indexError
  | .noFile _ => .fileNotFound
  | .integerOverflow | .repetitionTooLong | .sequenceTooLong | .infiniteToInteger => .overflowError
  | .divisionByZero | .integerDivisionByZero | .floorDivisionByZero | .moduloByZero => .zeroDivision
  | .crash _ => .systemError

/-- A count of arguments that were expected, as a phrase. -/
def expectedPhrase (noun : String) (expected given : Nat) : String :=
  toString expected ++ " " ++ noun ++ (if expected = 1 then "" else "s") ++ " but "
    ++ toString given ++ (if given = 1 then " was" else " were") ++ " given"

/-- The message of the exception that a cause raises. -/
def Cause.message : Cause → String
  | .undefined name => "name '" ++ name ++ "' is not defined"
  | .notCallable k => "'" ++ k.name ++ "' object is not callable"
  | .argumentCount f expected given =>
    f ++ "() takes " ++ expectedPhrase "positional argument" expected given
  | .noModuleMember m x => "module '" ++ m ++ "' has no attribute '" ++ x ++ "'"
  | .noMember k x => "'" ++ k.name ++ "' object has no attribute '" ++ x ++ "'"
  | .depthExceeded => "maximum recursion depth exceeded"
  | .noModule name => "No module named '" ++ name ++ "'"
  | .nativeCount f expected given => f ++ "() takes " ++ expectedPhrase "argument" expected given
  | .tooFew f minimum given =>
    f ++ "() expected at least " ++ toString minimum ++ " arguments, got " ++ toString given
  | .notNumber f k => f ++ "() expected a number, not '" ++ k.name ++ "'"
  | .badSleep => "sleep length must be non-negative"
  | .floatToInteger text => "cannot convert float " ++ text ++ " to integer"
  | .badIntegerText quoted => "invalid literal for int() with base 10: " ++ quoted
  | .badIntegerKind k => "int() argument must be a string or a number, not '" ++ k.name ++ "'"
  | .badFloatText quoted => "could not convert string to float: " ++ quoted
  | .badFloatKind k => "float() argument must be a string or a number, not '" ++ k.name ++ "'"
  | .noLength k => "object of type '" ++ k.name ++ "' has no len()"
  | .badIndexKind k => "indices must be integers, not '" ++ k.name ++ "'"
  | .listIndex => "list index out of range"
  | .textIndex => "string index out of range"
  | .notIndexable k => "'" ++ k.name ++ "' object is not subscriptable"
  | .appendKind k => "append() expected a list, not '" ++ k.name ++ "'"
  | .rangeKind k => "'" ++ k.name ++ "' object cannot be interpreted as an integer"
  | .rangeCount given => "range expected 1 to 3 arguments, got " ++ toString given
  | .rangeStep => "range() arg 3 must not be zero"
  | .rangeTooLarge => "range() result is too large"
  | .absKind k => "bad operand type for abs(): '" ++ k.name ++ "'"
  | .emptyExtremum f => f ++ "() arg is an empty sequence"
  | .fileNameKind k => "read-file() expected a file name, not '" ++ k.name ++ "'"
  | .noFile name => "[Errno 2] No such file or directory: '" ++ name ++ "'"
  | .imageArguments => "show() expects a format and base64 data as strings"
  | .imageFormat format => "unsupported image format '" ++ format ++ "'"
  | .operandKinds op a b =>
    "unsupported operand type(s) for " ++ op ++ ": '" ++ a.name ++ "' and '" ++ b.name ++ "'"
  | .negationKind k => "bad operand type for unary -: '" ++ k.name ++ "'"
  | .unordered op a b =>
    "'" ++ op ++ "' not supported between instances of '" ++ a.name ++ "' and '" ++ b.name ++ "'"
  | .integerOverflow => "integer overflow"
  | .repetitionTooLong => "repeated sequence is too long"
  | .sequenceTooLong => "sequence is too long"
  | .divisionByZero => "division by zero"
  | .integerDivisionByZero => "integer division or modulo by zero"
  | .floorDivisionByZero => "float floor division by zero"
  | .moduloByZero => "float modulo"
  | .domain => "math domain error"
  | .infiniteToInteger => "cannot convert float infinity to integer"
  | .crash reason => "internal interpreter error: " ++ reason

end Lispbox
