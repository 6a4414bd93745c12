import Lispbox.Integer.Basic
/-!
# Exact integer arithmetic

Every operation is computed in the integers without bound; a result that does not fit in 64 bits is
an overflow. Division rounds to the floor, so a remainder has the sign of the divisor.
-/
namespace Lispbox.Integer

/-- Why integer arithmetic fails. -/
inductive Fault where
  | overflow
  | divisionByZero
  deriving DecidableEq, Repr

/-- The exact result, or an overflow. -/
def checked (n : Int) : Except Fault Int64 :=
  match fit? n with
  | some w => .ok w
  | none => .error .overflow

/-- The sum. -/
def add (x y : Int64) : Except Fault Int64 := checked (x.toInt + y.toInt)

/-- The difference. -/
def sub (x y : Int64) : Except Fault Int64 := checked (x.toInt - y.toInt)

/-- The product. -/
def mul (x y : Int64) : Except Fault Int64 := checked (x.toInt * y.toInt)

/-- The number with the other sign. -/
def neg (x : Int64) : Except Fault Int64 := checked (-x.toInt)

/-- The magnitude. -/
def abs (x : Int64) : Except Fault Int64 := checked x.toInt.natAbs

/-- The quotient rounded to the floor. -/
def floorDiv (x y : Int64) : Except Fault Int64 :=
  if y = 0 then .error .divisionByZero else checked (Int.fdiv x.toInt y.toInt)

/-- The remainder of `floorDiv`. -/
def floorMod (x y : Int64) : Except Fault Int64 :=
  if y = 0 then .error .divisionByZero else checked (Int.fmod x.toInt y.toInt)

end Lispbox.Integer
