import Lispbox.Integer.Power
import Lispbox.Json.Reader
/-!
# Shapes of JSON values

Readers for the values that records are made of. A record is written as an object, and read from an
object, where unknown members are skipped, or from an array with the fields in their order. A word
out of a fixed set is written as a string, and read from a string or from an object whose only
member has that key and no value.

* `naturalBelow_whole`: numbers within the bound are read as they are.
-/
namespace Lispbox.Json

/-- A string. -/
def text? : Json → Option String
  | .str s => some s
  | _ => none

/-- A truth value. -/
def bool? : Json → Option Bool
  | .bool b => some b
  | _ => none

/-- A whole number from zero to below a bound. -/
def naturalBelow (bound : Nat) : Json → Option Nat
  | .whole n => if 0 ≤ n ∧ n < bound then some n.toNat else none
  | _ => none

theorem naturalBelow_whole {bound n : Nat} (h : n < bound) :
    naturalBelow bound (.whole n) = some n := by
  simp [naturalBelow, Int.ofNat_lt.mpr h]

/-- A natural number of 32 bits. -/
def word32? : Json → Option Nat := naturalBelow word32

/-- A natural number of 64 bits. -/
def word64? : Json → Option Nat := naturalBelow word64

/-- A signed integer of 64 bits. -/
def int64? : Json → Option Int
  | .whole n => if -(word63 : Int) ≤ n ∧ n < word63 then some n else none
  | _ => none

/-- Null, or what the reader reads. -/
def orNull? {α : Type} (read : Json → Option α) : Json → Option (Option α)
  | .null => some none
  | v => (read v).map some

/-- An array of what the reader reads. -/
def list? {α : Type} (read : Json → Option α) : Json → Option (List α)
  | .arr vs => vs.mapM read
  | _ => none

/-- A word out of a fixed set. -/
def word? {α : Type} (ofName : String → Option α) : Json → Option α
  | .str s => ofName s
  | .obj [(s, .null)] => ofName s
  | _ => none

/-- The fields of a record that are there: those of an object by their names, those of an array by
their order. -/
structure Fields where
  members : List (String × Json)
  deriving Repr

/-- The fields of a record with the given names. -/
def fields? (names : List String) : Json → Option Fields
  | .obj ms => some ⟨ms⟩
  | .arr vs => if vs.length ≤ names.length then some ⟨names.zip vs⟩ else none
  | _ => none

/-- A field that has to be there. -/
def Fields.required {α : Type} (f : Fields) (name : String) (read : Json → Option α) : Option α :=
  (f.members.lookup name).bind read

/-- A field that has a default. -/
def Fields.optional {α : Type} (f : Fields) (name : String) (default : α)
    (read : Json → Option α) : Option α :=
  match f.members.lookup name with
  | none => some default
  | some v => read v

/-- The known members of an object in a text: every key is text, no known key occurs twice, and the
values of the known ones are inside one object. -/
def knownMembers? (known : List String) : List (Option String × Tree) →
    Option (List (String × Json))
  | [] => some []
  | (key, t) :: ms => do
    let key ← key
    let rest ← knownMembers? known ms
    if known.contains key then
      if (rest.lookup key).isSome then none
      let v ← t.value? 1
      return (key, v) :: rest
    else return rest

/-- The record that a text is. -/
def recordOf? (known : List String) : Tree → Option Json
  | .obj ms => (knownMembers? known ms).map .obj
  | .arr ts => (itemValues? 1 ts).map .arr
  | t => t.value? 0

end Lispbox.Json
