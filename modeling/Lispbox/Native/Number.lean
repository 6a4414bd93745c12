import Lispbox.Integer.Arithmetic
import Lispbox.Native.Sequence
import Lispbox.Value.Display
/-!
# Arithmetic and order of values

On integers the operators are those of `Lispbox.Integer`: the result is exact, or it overflows. If
one operand is a double, so is the result. Addition joins texts and lists, multiplication repeats
them.
-/
namespace Lispbox.Native

/-- The cause of a fault of integer arithmetic. -/
def causeOf : Integer.Fault → Cause
  | .overflow => .integerOverflow
  | .divisionByZero => .integerDivisionByZero

/-- The result of integer arithmetic. -/
def integerResult (r : Except Integer.Fault Int64) : Except Cause Value :=
  match r with
  | .ok n => .ok (.integer n)
  | .error f => .error (causeOf f)

/-- Both operands as doubles. Mirrors `operands`. -/
def operands (operator : String) (a b : Value) : Except Cause (Float × Float) :=
  match a.toFloat?, b.toFloat? with
  | some x, some y => .ok (x, y)
  | _, _ => .error (.operandKinds operator a.kind b.kind)

/-- The sum of two values, or two sequences in a row. Mirrors `add`. -/
def addValues : Value → Value → Except Cause Value
  | .integer x, .integer y => integerResult (Integer.add x y)
  | .text x, .text y => do
    let _ ← Sequence.joinedLength x.utf8ByteSize y.utf8ByteSize
    return .text (x ++ y)
  | .list x, .list y => do
    let _ ← Sequence.joinedLength x.length y.length
    return .list (x ++ y)
  | a, b => do
    let (x, y) ← operands "+" a b
    return .float (x + y)

/-- The difference of two values. Mirrors `sub`. -/
def subValues : Value → Value → Except Cause Value
  | .integer x, .integer y => integerResult (Integer.sub x y)
  | a, b => do
    let (x, y) ← operands "-" a b
    return .float (x - y)

/-- The value with the other sign. Mirrors the case of one argument of `sub`. -/
def negValue : Value → Except Cause Value
  | .integer n => integerResult (Integer.neg n)
  | .float x => .ok (.float (-x))
  | v => .error (.negationKind v.kind)

/-- Copies of a text. -/
def repeatedText (s : String) (n : Int64) : Except Cause Value := do
  let (times, _) ← Sequence.repeatedLength s.utf8ByteSize n
  return .text (Sequence.repeatText s times)

/-- Copies of a list. -/
def repeatedList (items : List Value) (n : Int64) : Except Cause Value := do
  let (times, _) ← Sequence.repeatedLength items.length n
  return .list (Sequence.repeatList items times)

/-- The product of two values, or copies of a sequence. Mirrors `mul`. -/
def mulValues : Value → Value → Except Cause Value
  | .integer x, .integer y => integerResult (Integer.mul x y)
  | .text s, .integer n | .integer n, .text s => repeatedText s n
  | .list items, .integer n | .integer n, .list items => repeatedList items n
  | a, b => do
    let (x, y) ← operands "*" a b
    return .float (x * y)

/-- The quotient, always a double. Mirrors `div`. -/
def divValues (a b : Value) : Except Cause Value := do
  let (x, y) ← operands "/" a b
  if y == 0.0 then .error .divisionByZero else .ok (.float (x / y))

/-- The quotient rounded to the floor. Mirrors `floor_div`. -/
def floorDivValues : Value → Value → Except Cause Value
  | .integer x, .integer y => integerResult (Integer.floorDiv x y)
  | a, b => do
    let (x, y) ← operands "//" a b
    if y == 0.0 then .error .floorDivisionByZero else .ok (.float (x / y).floor)

/-- The remainder with the sign of the divisor. -/
def floatModulo (x y : Float) : Float :=
  let rest := Decimal.remainder x y
  if rest != 0.0 && decide (rest < 0.0) != decide (y < 0.0) then rest + y else rest

/-- The remainder of `floorDivValues`. Mirrors `modulo`. -/
def moduloValues : Value → Value → Except Cause Value
  | .integer x, .integer y => integerResult (Integer.floorMod x y)
  | a, b => do
    let (x, y) ← operands "%" a b
    if y == 0.0 then .error .moduloByZero else .ok (.float (floatModulo x y))

/-- Combines values from left to right; the first one alone is the result. Mirrors `fold`. -/
def combine (empty : Value) (step : Value → Value → Except Cause Value) :
    List Value → Except Cause Value
  | [] => .ok empty
  | v :: vs => vs.foldlM step v

/-- The order of two doubles, unless one of them is not a number. -/
def floatOrder? (x y : Float) : Option Ordering :=
  if x < y then some .lt
  else if x == y then some .eq
  else if x > y then some .gt
  else none

/-- The order of two values, unless one of them is not a number. Texts are ordered by their code
points, numbers by size; other values have no order. Mirrors `compare`. -/
def orderOf (operator : String) : Value → Value → Except Cause (Option Ordering)
  | .text x, .text y => .ok (some (compareOfLessAndEq x y))
  | .integer x, .integer y => .ok (some (compare x.toInt y.toInt))
  | a, b =>
    match a.toFloat?, b.toFloat? with
    | some x, some y => .ok (floatOrder? x y)
    | _, _ => .error (.unordered operator a.kind b.kind)

/-- Every value stands in an accepted order to the next one. Mirrors `chain`. -/
def isChain (operator : String) (accept : Ordering → Bool) : List Value → Except Cause Bool
  | a :: b :: rest => do
    match ← orderOf operator a b with
    | some o => if accept o then isChain operator accept (b :: rest) else .ok false
    | none => .ok false
  | _ => .ok true

/-- Every value is the same as the next one. Mirrors `eq`. -/
def allSame : List Value → Bool
  | a :: b :: rest => a.same b && allSame (b :: rest)
  | _ => true

/-- The first of the values that no later one stands in the wanted order to. Mirrors `extremum`. -/
def extremum (function : String) (wanted : Ordering) : List Value → Except Cause Value
  | [] => .error (.emptyExtremum function)
  | v :: vs => vs.foldlM (fun best candidate => do
      return if (← orderOf function candidate best) = some wanted then candidate else best) v

end Lispbox.Native
