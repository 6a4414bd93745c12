import Lispbox.Program.Basic
import Lispbox.Value.Native
/-!
# Values

What a script computes with. Lists are immutable. Functions carry the number of the namespace that
their body sees; module objects and deferred bodies carry a serial number, by which one is told from
another.

* `Value.same` is the equality of scripts: numbers compare across kinds, functions are equal if they
  come from one definition or are native ones of one name, modules and deferred bodies only if they
  are one object.
-/
namespace Lispbox

/-- Whose code is executed: the main program's or that of an installed module. -/
inductive Home where
  | program
  | module (name : String)
  deriving DecidableEq, Repr

/-- A value of the script language. -/
inductive Value where
  | nil
  | bool (b : Bool)
  | integer (n : Int64)
  | float (x : Float)
  | text (s : String)
  | list (items : List Value)
  /-- A function of a script, where it was defined, and the namespace of its globals. -/
  | function (definition : Definition) (home : Home) (scope : Nat)
  | native (n : Native)
  | module (serial : Nat) (name : String) (members : List (String × Value))
  /-- A body that is executed when it is awaited, with the locals it was created under. -/
  | deferred (serial : Nat) (body : Block) (locals : List (String × Value)) (file : String)
      (scope : Nat)
  deriving Repr, Inhabited

/-- Names and their values. -/
abbrev Bindings := List (String × Value)

/-- The value bound to a name. -/
def Bindings.get? (name : String) (bs : Bindings) : Option Value := bs.lookup name

/-- Binds a name, replacing what it was bound to. -/
def Bindings.set (name : String) (value : Value) : Bindings → Bindings
  | [] => [(name, value)]
  | (n, v) :: bs => if n = name then (n, value) :: bs else (n, v) :: Bindings.set name value bs

theorem Bindings.get?_set_self (name : String) (value : Value) (bs : Bindings) :
    (bs.set name value).get? name = some value := by
  induction bs with
  | nil => simp [set, get?]
  | cons b bs ih =>
    obtain ⟨n, v⟩ := b
    by_cases h : n = name
    · simp [set, get?, h]
    · have : (name == n) = false := by simpa using Ne.symm h
      simpa [set, get?, h, List.lookup_cons, this] using ih

theorem Bindings.get?_set_of_ne {name other : String} (value : Value) (bs : Bindings)
    (h : other ≠ name) : (bs.set name value).get? other = bs.get? other := by
  have hb : (other == name) = false := by simpa using h
  induction bs with
  | nil => simp [set, get?, List.lookup_cons, hb]
  | cons b bs ih =>
    obtain ⟨n, v⟩ := b
    simp only [get?] at ih
    by_cases hn : n = name
    · simp [set, get?, hn, List.lookup_cons, hb]
    · simp [set, get?, hn, List.lookup_cons, ih]

/-- The value of a constant. -/
def Literal.value : Literal → Value
  | .nil => .nil
  | .bool b => .bool b
  | .integer n => .integer n
  | .float x => .float x
  | .text s => .text s

/-- The kinds of values. -/
inductive Kind where
  | nil | bool | integer | float | text | list | function | native | module | deferred
  deriving DecidableEq, Repr

/-- The word for a kind in messages. Mirrors `type_name`. -/
def Kind.name : Kind → String
  | .nil => "nil"
  | .bool => "bool"
  | .integer => "int"
  | .float => "float"
  | .text => "str"
  | .list => "list"
  | .function => "function"
  | .native => "builtin"
  | .module => "module"
  | .deferred => "async"

/-- The kind of a value. -/
def Value.kind : Value → Kind
  | .nil => .nil
  | .bool _ => .bool
  | .integer _ => .integer
  | .float _ => .float
  | .text _ => .text
  | .list _ => .list
  | .function _ _ _ => .function
  | .native _ => .native
  | .module _ _ _ => .module
  | .deferred _ _ _ _ _ => .deferred

/-- What conditions take for true: everything but nil, false, zeros and empty sequences. Mirrors
`is_truthy`. -/
def Value.isTrue : Value → Bool
  | .nil => false
  | .bool b => b
  | .integer n => n != 0
  | .float x => x != 0.0
  | .text s => !s.isEmpty
  | .list items => !items.isEmpty
  | _ => true

/-- The value as a double; booleans are no numbers. Mirrors `as_f64`. -/
def Value.toFloat? : Value → Option Float
  | .integer n => some n.toFloat
  | .float x => some x
  | _ => none

mutual
/-- The equality of scripts. Mirrors `eq`. -/
def Value.same : Value → Value → Bool
  | .nil, .nil => true
  | .bool a, .bool b => a == b
  | .integer a, .integer b => a == b
  | .float a, .float b => a == b
  | .integer a, .float b => a.toFloat == b
  | .float a, .integer b => b.toFloat == a
  | .text a, .text b => a == b
  | .list as, .list bs => sameItems as bs
  | .function f home _, .function g home' _ =>
    home == home' && f.line == g.line && f.column == g.column
  | .native m, .native n => m.name == n.name
  | .module s _ _, .module t _ _ => s == t
  | .deferred s _ _ _ _, .deferred t _ _ _ _ => s == t
  | _, _ => false

/-- Lists of one length with equal items. -/
def sameItems : List Value → List Value → Bool
  | [], [] => true
  | a :: as, b :: bs => Value.same a b && sameItems as bs
  | _, _ => false
end

end Lispbox
