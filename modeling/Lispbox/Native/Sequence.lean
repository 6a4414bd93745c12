import Lispbox.Exception.Cause
/-!
# Sequences

Native functions build no text of more than `maxLength` bytes and no list of more than `maxLength`
items: lengths are checked before anything is built.

* `rangeItems`: the members of an arithmetic progression.
* `index?_of_lt`: an index within the bounds stands for itself.
-/
namespace Lispbox.Sequence

/-- The longest list, in items, and text, in bytes, that a native function builds. Mirrors
`MAX_SEQUENCE_LEN`. -/
def maxLength : Nat := 10000000

/-- The length of two sequences in a row, or why they are not joined. Mirrors `joined_len`. -/
def joinedLength (a b : Nat) : Except Cause Nat :=
  if a + b ≤ maxLength then .ok (a + b) else .error .sequenceTooLong

/-- How often a sequence of the given length is copied, and the length of all copies, or why it is
not copied; a negative count stands for none. Mirrors `repeated_len`. -/
def repeatedLength (length : Nat) (count : Int64) : Except Cause (Nat × Nat) :=
  let times := count.toInt.toNat
  if length * times ≤ maxLength then .ok (times, length * times) else .error .repetitionTooLong

/-- Text behind copies of another text. -/
def copyText (s : String) : Nat → String → String
  | 0, before => before
  | n + 1, before => copyText s n (before ++ s)

/-- Copies of a text in a row; copies of nothing are not counted out. Mirrors a loop of `mul`. -/
def repeatText (s : String) (times : Nat) : String :=
  if s.isEmpty then "" else copyText s times ""

/-- Copies of a list in a row; copies of nothing are not counted out. Mirrors a loop of `mul`. -/
def repeatList {α : Type} (items : List α) (times : Nat) : List α :=
  if items.isEmpty then [] else (List.replicate times items).flatten

/-- The place that an index stands for in a sequence; negative ones count from the end. Mirrors
`normalize_index`. -/
def index? (i : Int64) (length : Nat) : Option Nat :=
  let n := if i.toInt < 0 then i.toInt + length else i.toInt
  if 0 ≤ n ∧ n < length then some n.toNat else none

theorem index?_of_lt {i : Int64} {length : Nat} (h0 : 0 ≤ i.toInt) (h : i.toInt < length) :
    index? i length = some i.toInt.toNat := by
  simp [index?, Int.not_lt.mpr h0, h0, h]

/-- The number kept within 64 bits: numbers beyond a bound become the bound. -/
def clamp (n : Int) : Int := max (-9223372036854775808) (min 9223372036854775807 n)

/-- How many members a range has. The distance and the step are kept within 64 bits. Mirrors the
count that `range` makes. -/
def rangeCount (start stop step : Int64) : Nat :=
  let span := if 0 < step.toInt then clamp (stop.toInt - start.toInt)
    else clamp (start.toInt - stop.toInt)
  if span ≤ 0 then 0 else ((span - 1) / clamp step.toInt.natAbs + 1).toNat

/-- The first members of an arithmetic progression, in front of `after`; the last is made first. -/
def progression (start step : Int) : Nat → List Int64 → List Int64
  | 0, after => after
  | n + 1, after => progression start step n (Int64.ofInt (start + n * step) :: after)

/-- The members of a range, or why there is none. Mirrors the end of `range`. -/
def rangeItems (start stop step : Int64) : Except Cause (List Int64) :=
  if step = 0 then .error .rangeStep
  else
    let count := rangeCount start stop step
    if maxLength < count then .error .rangeTooLarge
    else .ok (progression start.toInt step.toInt count [])

end Lispbox.Sequence
