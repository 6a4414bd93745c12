import Lispbox.Decimal.Style
import Lispbox.Json.Basic
import Lispbox.Value.Basic
/-!
# The texts of values

`repr` is the text of a value inside a list: texts are in quotes and use the escapes of a source.
`display` is the same, but a text stands for itself. As JSON, values without a JSON form are their
display text; so are doubles that are not finite, except where null is asked for.
-/
namespace Lispbox

/-- The form of a character in a quoted text. -/
def quoteChar (c : Char) : List Char :=
  if c = '\\' then ['\\', '\\']
  else if c = '"' then ['\\', '"']
  else if c = '\n' then ['\\', 'n']
  else if c = '\t' then ['\\', 't']
  else [c]

/-- A text in quotes. -/
def quoteText (s : String) : String :=
  "\"" ++ String.ofList (s.toList.flatMap quoteChar) ++ "\""

mutual
/-- The quoted text of a value. -/
def Value.repr : Value → String
  | .nil => "nil"
  | .bool b => if b then "true" else "false"
  | .integer n => toString n.toInt
  | .float x => Decimal.Style.display.render x
  | .text s => quoteText s
  | .list items => "[" ++ ", ".intercalate (reprItems items) ++ "]"
  | .function f _ _ => "<function " ++ f.name ++ ">"
  | .native n => "<builtin " ++ n.name ++ ">"
  | .module _ name _ => "<module " ++ name ++ ">"
  | .deferred _ _ _ _ _ => "<async>"

/-- The quoted texts of the items of a list. -/
def reprItems : List Value → List String
  | [] => []
  | v :: vs => v.repr :: reprItems vs
end

/-- The text that printing shows. Mirrors `fmt`. -/
def Value.display : Value → String
  | .text s => s
  | v => v.repr

/-- The double is neither infinite nor without value. -/
def isFinite (x : Float) : Bool :=
  match Decimal.parts x.toBits with
  | .finite _ _ _ => true
  | _ => false

mutual
/-- The JSON form of a value; a double that is not finite is its display text. -/
def Value.toJson : Value → Json
  | .nil => .null
  | .bool b => .bool b
  | .integer n => .whole n.toInt
  | .float x => if isFinite x then .float x else .str (Value.float x).display
  | .text s => .str s
  | .list items => .arr (jsonItems items)
  | v => .str v.display

/-- The JSON forms of the items of a list. -/
def jsonItems : List Value → List Json
  | [] => []
  | v :: vs => v.toJson :: jsonItems vs
end

mutual
/-- The JSON form of a value when it is part of a larger document; a double that is not finite is
null. -/
def Value.serialize : Value → Json
  | .nil => .null
  | .bool b => .bool b
  | .integer n => .whole n.toInt
  | .float x => if isFinite x then .float x else .null
  | .text s => .str s
  | .list items => .arr (serializeItems items)
  | v => .str v.display

/-- The JSON forms of the items of a list in a larger document. -/
def serializeItems : List Value → List Json
  | [] => []
  | v :: vs => v.serialize :: serializeItems vs
end

end Lispbox
