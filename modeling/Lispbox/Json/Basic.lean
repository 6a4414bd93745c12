/-!
# JSON values

Numbers keep the kind they are written in: whole numbers of 64 bits, signed or unsigned, and
doubles. The members of an object are a list; an object in normal form has its keys in increasing
order and each key once.

* `Json.field?` looks a member up, `Json.sorted` is an object in normal form.
* `lookup_insert_self`, `lookup_insert_of_ne`: putting a member in place changes no other.
-/
namespace Lispbox

/-- A JSON value. -/
inductive Json where
  | null
  | bool (b : Bool)
  | whole (n : Int)
  | float (x : Float)
  | str (s : String)
  | arr (items : List Json)
  | obj (members : List (String × Json))
  deriving Repr, Inhabited

namespace Json

/-- A member of an object; nothing for any other value. -/
def field? (key : String) : Json → Option Json
  | .obj ms => ms.lookup key
  | _ => none

/-- Puts a member at its place in the order of the keys; a member with the same key is replaced. -/
def insert {α : Type} (key : String) (value : α) : List (String × α) → List (String × α)
  | [] => [(key, value)]
  | (k, v) :: ms =>
    if key < k then (key, value) :: (k, v) :: ms
    else if key = k then (key, value) :: ms
    else (k, v) :: insert key value ms

theorem lookup_insert_self {α : Type} (key : String) (value : α) (ms : List (String × α)) :
    (insert key value ms).lookup key = some value := by
  induction ms with
  | nil => simp [insert]
  | cons m ms ih =>
    obtain ⟨k, v⟩ := m
    simp only [insert]
    split
    · simp
    split
    · simp
    · next h =>
      have hb : (key == k) = false := by simpa using h
      simpa [List.lookup_cons, hb] using ih

theorem lookup_insert_of_ne {α : Type} {key other : String} (value : α)
    (ms : List (String × α)) (h : other ≠ key) :
    (insert key value ms).lookup other = ms.lookup other := by
  have hb : (other == key) = false := by simpa using h
  induction ms with
  | nil => simp [insert, List.lookup_cons, hb]
  | cons m ms ih =>
    obtain ⟨k, v⟩ := m
    simp only [insert]
    split
    · simp [List.lookup_cons, hb]
    split
    · next hk =>
      subst hk
      simp [List.lookup_cons, hb]
    · cases hk : other == k <;> simp [List.lookup_cons, hk, ih]

/-- The members in the order of their keys; of several with one key the last counts. -/
def sortMembers {α : Type} (ms : List (String × α)) : List (String × α) :=
  ms.foldl (fun sorted (k, v) => insert k v sorted) []

/-- The object with these members, in the order of their keys. -/
def sorted (ms : List (String × Json)) : Json := .obj (sortMembers ms)

mutual
/-- The value with each of its objects in normal form. -/
def normal : Json → Json
  | .arr vs => .arr (normalItems vs)
  | .obj ms => sorted (normalMembers ms)
  | v => v

/-- The items of an array in normal form. -/
def normalItems : List Json → List Json
  | [] => []
  | v :: vs => normal v :: normalItems vs

/-- The members of an object, each in normal form. -/
def normalMembers : List (String × Json) → List (String × Json)
  | [] => []
  | (k, v) :: ms => (k, normal v) :: normalMembers ms
end

/-- A string, or null. -/
def ofText? : Option String → Json
  | some s => .str s
  | none => .null

/-- A list of strings. -/
def texts (ss : List String) : Json := .arr (ss.map .str)

/-- A natural number. -/
def nat (n : Nat) : Json := .whole n

end Json
end Lispbox
