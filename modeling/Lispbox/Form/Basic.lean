import Lispbox.Text.Pos
/-!
# Forms

A source is a sequence of forms: atoms and parenthesised lists of forms. Each form knows where it
starts.
-/
namespace Lispbox

/-- A form without parts. -/
inductive Atom where
  | symbol (name : String)
  /-- A word that starts with a colon, which is not part of its name. -/
  | keyword (name : String)
  | text (content : String)
  | integer (value : Int64)
  | float (value : Float)
  | boolean (value : Bool)
  | nil
  deriving Repr

/-- A piece of a source. -/
inductive Form where
  | atom (pos : Pos) (content : Atom)
  | list (pos : Pos) (items : List Form)
  deriving Repr

/-- Where the form starts. -/
def Form.pos : Form → Pos
  | .atom pos _ => pos
  | .list pos _ => pos

/-- The name of the form, if it is a symbol. Mirrors `as_symbol`. -/
def Form.symbol? : Form → Option String
  | .atom _ (.symbol name) => some name
  | _ => none

/-- The form is a list that starts with the given symbol. Mirrors `is_form`. -/
def Form.isHeadedBy (head : String) : Form → Bool
  | .list _ (f :: _) => f.symbol? == some head
  | _ => false

end Lispbox
