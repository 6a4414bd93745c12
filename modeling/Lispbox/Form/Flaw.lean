/-!
# Flaws of a source

Why a source cannot be read or has no meaning. `Flaw.message` holds the wording.
-/
namespace Lispbox

/-- Why a source is refused. -/
inductive Flaw where
  -- reading
  | unmatchedClose
  | tooDeep
  | neverClosed
  | unterminatedText
  | incompleteEscape
  /-- The escaped character, or the first byte of its encoding. -/
  | unknownEscape (c : Char)
  | emptyKeyword
  | integerOutOfRange
  -- the shape of special forms
  | emptyList
  | nestedMember
  | letShape
  | setShape
  | defShape
  | ifShape
  | whileShape
  | returnShape
  | importShape
  | awaitShape
  | raiseShape
  | tryWithoutExcept
  | exceptOutsideTry
  | onlyExceptMayFollow
  | parametersNotList
  | duplicateParameter (name : String)
  | cannotAssign (name : String)
  | expectedName
  | moduleNameKind
  | invalidModuleName (name : String)
  | exceptionNameKind
  deriving DecidableEq, Repr

/-- The wording of a flaw. -/
def Flaw.message : Flaw → String
  | .unmatchedClose => "unmatched ')'"
  | .tooDeep => "too many nested parentheses"
  | .neverClosed => "'(' was never closed"
  | .unterminatedText => "unterminated string literal"
  | .incompleteEscape => "incomplete escape"
  | .unknownEscape c => "unknown escape: \\" ++ c.toString
  | .emptyKeyword => "empty keyword"
  | .integerOutOfRange => "integer literal out of range"
  | .emptyList => "empty expression '()'"
  | .nestedMember => "nested attribute access is not supported"
  | .letShape => "'let' expects a name and a value"
  | .setShape => "'set' expects a name and a value"
  | .defShape => "'def' expects a name and a parameter list"
  | .ifShape => "'if' expects a condition, a branch and an optional else branch"
  | .whileShape => "'while' expects a condition"
  | .returnShape => "'return' expects at most one value"
  | .importShape => "'import' expects a single module name"
  | .awaitShape => "'await' expects a single value"
  | .raiseShape => "'raise' expects an exception name and an optional message"
  | .tryWithoutExcept => "'try' expects at least one 'except' clause"
  | .exceptOutsideTry => "'except' outside 'try'"
  | .onlyExceptMayFollow => "only 'except' clauses may follow them in 'try'"
  | .parametersNotList => "function parameters must be a list"
  | .duplicateParameter name => "duplicate argument '" ++ name ++ "' in function definition"
  | .cannotAssign name => "cannot assign to '" ++ name ++ "'"
  | .expectedName => "expected a name"
  | .moduleNameKind => "module name must be a symbol or string"
  | .invalidModuleName name => "invalid module name '" ++ name ++ "'"
  | .exceptionNameKind => "exception name must be a symbol"

end Lispbox
