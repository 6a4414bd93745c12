import Lispbox.Decimal.Style
import Lispbox.Json.Basic
/-!
# The text of a JSON value

Compact: no blanks. Strings escape the double quote, the backslash and the control characters below
`U+0020`; five of these have a short form. Doubles that are not finite have no JSON form and are
written as null.
-/
namespace Lispbox.Json

/-- A hexadecimal digit in lower case. -/
def hexDigit (n : Nat) : Char := (Nat.digitChar (n % 16))

/-- The form of a character inside a JSON string. -/
def escapeChar (c : Char) : List Char :=
  if c = '"' then ['\\', '"']
  else if c = '\\' then ['\\', '\\']
  else if c = '\x08' then ['\\', 'b']
  else if c = '\x0C' then ['\\', 'f']
  else if c = '\n' then ['\\', 'n']
  else if c = '\r' then ['\\', 'r']
  else if c = '\t' then ['\\', 't']
  else if c.toNat < 0x20 then ['\\', 'u', '0', '0', hexDigit (c.toNat / 16), hexDigit c.toNat]
  else [c]

/-- A string in double quotes. -/
def quote (s : String) : String :=
  "\"" ++ String.ofList (s.toList.flatMap escapeChar) ++ "\""

/-- A double; null if it is not finite. -/
def floatText (x : Float) : String :=
  match Decimal.parts x.toBits with
  | .finite s m q => Decimal.Style.json.renderParts (.finite s m q)
  | _ => "null"

mutual
/-- The compact text of a value. -/
def print : Json → String
  | .null => "null"
  | .bool b => if b then "true" else "false"
  | .whole n => toString n
  | .float x => floatText x
  | .str s => quote s
  | .arr items => "[" ++ ",".intercalate (printItems items) ++ "]"
  | .obj members => "\x7b" ++ ",".intercalate (printMembers members) ++ "\x7d"

/-- The texts of the items of an array. -/
def printItems : List Json → List String
  | [] => []
  | v :: vs => print v :: printItems vs

/-- The texts of the members of an object. -/
def printMembers : List (String × Json) → List String
  | [] => []
  | (k, v) :: ms => (quote k ++ ":" ++ print v) :: printMembers ms
end

end Lispbox.Json
