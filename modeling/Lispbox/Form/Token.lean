import Lispbox.Decimal.Reading
import Lispbox.Form.Basic
import Lispbox.Form.Flaw
import Lispbox.Integer.Basic
import Lispbox.Text.Blank
/-!
# Tokens

The characters of a source are grouped into tokens one after another: parentheses, literals in
double quotes, and words, which are maximal runs of the characters that are none of these, no blank
and no semicolon. A semicolon starts a comment that runs to the end of its line.

A word is a number if all of it is one: an optional sign and digits, or an optional sign and digits
around a point. It is a keyword if it starts with a colon, and one of `true`, `false` and `nil`
stands for that value. Everything else is a symbol, so `-`, `1+` and `5.` are symbols.

* `Reading.step` is the whole scanner: one character, and what it completes.
-/
namespace Lispbox

/-- A character that words are made of. Mirrors `is_symbol_char`. -/
def isSymbolChar (c : Char) : Bool :=
  !(c == '(' || c == ')' || c == '"' || c == ';' || Text.isAsciiBlank c)

/-- A piece of a source that a form is made of. -/
inductive Token where
  | openList
  | closeList
  | atom (content : Atom)
  deriving Repr

/-- A token and where it starts. -/
structure Lexeme where
  pos : Pos
  token : Token
  deriving Repr

/-- The parts of a number with a point: whether it is negative, and the digits before and behind.
Mirrors the part of `parse_number_or_symbol` that tells floats. -/
def pointParts? (word : List Char) : Option (Bool × List Char × List Char) :=
  let (negative, digits) := Text.splitSign word
  match digits.dropWhile Char.isDigit with
  | '.' :: fraction =>
    let whole := digits.takeWhile Char.isDigit
    if Text.isDigits whole && Text.isDigits fraction then some (negative, whole, fraction) else none
  | _ => none

/-- What a word stands for. Mirrors `parse_keyword`, `parse_number_or_symbol` and
`parse_symbol_or_literal`. -/
def Atom.ofWord (word : List Char) : Except Flaw Atom :=
  match word with
  | [':'] => .error .emptyKeyword
  | ':' :: name => .ok (.keyword (String.ofList name))
  | _ =>
    match Integer.ofSigned? word with
    | some n =>
      match Integer.fit? n with
      | some w => .ok (.integer w)
      | none => .error .integerOutOfRange
    | none =>
      match pointParts? word with
      | some (negative, whole, fraction) => .ok (.float (Decimal.ofParts negative whole fraction))
      | none =>
        match String.ofList word with
        | "true" => .ok (.boolean true)
        | "false" => .ok (.boolean false)
        | "nil" => .ok .nil
        | name => .ok (.symbol name)

/-- The character that an escaped character stands for. Mirrors the escapes of `parse_string`. -/
def unescape? : Char → Option Char
  | '"' => some '"'
  | '\\' => some '\\'
  | 'n' => some '\n'
  | 'r' => some '\r'
  | 't' => some '\t'
  | _ => none

/-- The refusal of an escaped character. Escapes are told by their first byte, so that byte is what
is shown and where the refusal stands. Mirrors an error of `parse_string`. -/
def refuseEscape (pos : Pos) (c : Char) : Pos × Flaw :=
  let byte := Char.ofUInt8 ((String.utf8EncodeChar c).headD 0)
  (if c = '\n' then pos.after c else ⟨pos.line, pos.column + 1⟩, .unknownEscape byte)

/-- What the scanner is in the middle of. Characters that are seen already are kept last one first.
-/
inductive Reading where
  | blank
  | comment
  | word (start : Pos) (seen : List Char)
  | text (start : Pos) (seen : List Char)
  /-- Behind a backslash inside a text. -/
  | escape (start : Pos) (seen : List Char)
  deriving DecidableEq, Repr

/-- A character at which nothing is in progress. Mirrors `parse_expr`. -/
def Reading.begin (pos : Pos) (c : Char) : List Lexeme × Reading :=
  if Text.isAsciiBlank c then ([], .blank)
  else match c with
    | '(' => ([⟨pos, .openList⟩], .blank)
    | ')' => ([⟨pos, .closeList⟩], .blank)
    | '"' => ([], .text pos [])
    | ';' => ([], .comment)
    | _ => ([], .word pos [c])

/-- The lexeme of a word that ends at `pos`. -/
def Lexeme.ofWord (start pos : Pos) (seen : List Char) : Except (Pos × Flaw) Lexeme :=
  match Atom.ofWord seen.reverse with
  | .ok a => .ok ⟨start, .atom a⟩
  | .error flaw => .error (pos, flaw)

/-- The character at `pos`: the lexemes that it completes, and what is in progress behind it.
Mirrors `skip_ws`, `parse_string` and `parse_symbol_or_literal`. -/
def Reading.step (pos : Pos) (c : Char) : Reading → Except (Pos × Flaw) (List Lexeme × Reading)
  | .blank => .ok (Reading.begin pos c)
  | .comment => .ok ([], if c = '\n' then .blank else .comment)
  | .word start seen =>
    if isSymbolChar c then .ok ([], .word start (c :: seen))
    else
      match Lexeme.ofWord start pos seen with
      | .ok l => let (found, next) := Reading.begin pos c; .ok (l :: found, next)
      | .error e => .error e
  | .text start seen =>
    if c = '"' then .ok ([⟨start, .atom (.text (String.ofList seen.reverse))⟩], .blank)
    else if c = '\\' then .ok ([], .escape start seen)
    else .ok ([], .text start (c :: seen))
  | .escape start seen =>
    match unescape? c with
    | some d => .ok ([], .text start (d :: seen))
    | none => .error (refuseEscape pos c)

/-- The end of the source at `pos`: the lexeme that it completes, if any. Mirrors what
`parse_string` and `parse_symbol_or_literal` do there. -/
def Reading.finish (pos : Pos) : Reading → Except (Pos × Flaw) (List Lexeme)
  | .blank => .ok []
  | .comment => .ok []
  | .word start seen => (Lexeme.ofWord start pos seen).map ([·])
  | .text _ _ => .error (pos, .unterminatedText)
  | .escape _ _ => .error (pos, .incompleteEscape)

end Lispbox
