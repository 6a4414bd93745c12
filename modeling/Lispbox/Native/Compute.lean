import Lispbox.Decimal.Reading
import Lispbox.Integer.Power
import Lispbox.Native.Number
import Lispbox.Text.Blank
/-!
# Native functions without effects

`Native.compute?` is the value of such a function on its arguments, or the cause of an exception.
The functions that talk to the host have none.
-/
namespace Lispbox.Native

/-- At least so many arguments have to be given. Mirrors `at_least`. -/
def atLeast (function : String) (args : List Value) (minimum : Nat) : Except Cause Unit :=
  if minimum ≤ args.length then .ok () else .error (.tooFew function minimum args.length)

/-- The only argument. Mirrors `arity`. -/
def oneArgument (function : String) (args : List Value) : Except Cause Value :=
  match args with
  | [v] => .ok v
  | _ => .error (.nativeCount function 1 args.length)

/-- The two arguments. Mirrors `arity`. -/
def twoArguments (function : String) (args : List Value) : Except Cause (Value × Value) :=
  match args with
  | [a, b] => .ok (a, b)
  | _ => .error (.nativeCount function 2 args.length)

/-- An argument that has to be a number. Mirrors `number`. -/
def number (function : String) (v : Value) : Except Cause Float :=
  match v.toFloat? with
  | some x => .ok x
  | none => .error (.notNumber function v.kind)

/-- A whole double as an integer. -/
def integerOfWhole (n : Int) : Except Cause Value :=
  if n.natAbs < word63 then .ok (.integer (Int64.ofInt n)) else .error .integerOverflow

/-- Conversion to an integer; doubles lose their fraction. Mirrors `to_int`. -/
def toInteger : Value → Except Cause Value
  | .integer n => .ok (.integer n)
  | .bool b => .ok (.integer (if b then 1 else 0))
  | .float x =>
    match Decimal.whole? x with
    | some n => integerOfWhole n
    | none => .error (.floatToInteger (Value.float x).display)
  | .text s =>
    match Integer.ofText? (Text.trim s) with
    | some n => .ok (.integer n)
    | none => .error (.badIntegerText (quoteText s))
  | v => .error (.badIntegerKind v.kind)

/-- Conversion to a double. Mirrors `to_float`. -/
def toFloat : Value → Except Cause Value
  | .integer n => .ok (.float n.toFloat)
  | .float x => .ok (.float x)
  | .bool b => .ok (.float (if b then 1.0 else 0.0))
  | .text s =>
    match Decimal.ofText (Text.trim s) with
    | some x => .ok (.float x)
    | none => .error (.badFloatText (quoteText s))
  | v => .error (.badFloatKind v.kind)

/-- The number of characters of a text or of items of a list. Mirrors `len`. -/
def lengthOf : Value → Except Cause Value
  | .text s => .ok (.integer (Int64.ofNat s.length))
  | .list items => .ok (.integer (Int64.ofNat items.length))
  | v => .error (.noLength v.kind)

/-- The item or character at an index; negative ones count from the end. Mirrors `nth`. -/
def itemAt (sequence index : Value) : Except Cause Value :=
  match index with
  | .integer i =>
    match sequence with
    | .list items =>
      match (Sequence.index? i items.length).bind (items[·]?) with
      | some v => .ok v
      | none => .error .listIndex
    | .text s =>
      match (Sequence.index? i s.length).bind (s.toList[·]?) with
      | some c => .ok (.text (String.singleton c))
      | none => .error .textIndex
    | v => .error (.notIndexable v.kind)
  | v => .error (.badIndexKind v.kind)

/-- A list with further items at its end. Mirrors `append`. -/
def appendItems : List Value → Except Cause Value
  | [] => .error (.tooFew "append" 1 0)
  | .list items :: rest => do
    let _ ← Sequence.joinedLength items.length rest.length
    return .list (items ++ rest)
  | v :: _ => .error (.appendKind v.kind)

/-- The arguments as integers. Mirrors a part of `range`. -/
def rangeBounds : List Value → Except Cause (List Int64)
  | [] => .ok []
  | .integer n :: vs => do
    let ns ← rangeBounds vs
    return n :: ns
  | v :: _ => .error (.rangeKind v.kind)

/-- The list of the numbers from a start up to a stop, in steps. Mirrors `range`. -/
def rangeList (args : List Value) : Except Cause Value := do
  let items ← match ← rangeBounds args with
    | [stop] => Sequence.rangeItems 0 stop 1
    | [start, stop] => Sequence.rangeItems start stop 1
    | [start, stop, step] => Sequence.rangeItems start stop step
    | _ => .error (.rangeCount args.length)
  return .list (items.map .integer)

/-- The magnitude of a number. Mirrors `abs`. -/
def magnitude : Value → Except Cause Value
  | .integer n => integerResult (Integer.abs n)
  | .float x => .ok (.float x.abs)
  | v => .error (.absKind v.kind)

/-- A list alone stands for its items. Mirrors a part of `extremum`. -/
def spread : List Value → List Value
  | [.list items] => items
  | args => args

/-- A number rounded to an integer. Mirrors `rounded`. -/
def rounded (function : String) (round : Float → Float) (v : Value) : Except Cause Value :=
  match v with
  | .integer n => .ok (.integer n)
  | _ => do
    match Decimal.whole? (round (← number function v)) with
    | none => .error .infiniteToInteger
    | some n => integerOfWhole n

/-- The square root. Mirrors `math_sqrt`. -/
def squareRoot (x : Float) : Except Cause Value :=
  if x < 0.0 then .error .domain else .ok (.float x.sqrt)

/-- A power. Mirrors `math_pow`. -/
def power (base exponent : Float) : Except Cause Value :=
  if base == 0.0 && decide (exponent < 0.0) then .error .domain
  else .ok (.float (base.pow exponent))

/-- Whether the values stand in an order. Mirrors `chain`. -/
def ordered (operator : String) (accept : Ordering → Bool) (args : List Value) :
    Except Cause Value := do
  atLeast operator args 2
  return .bool (← isChain operator accept args)

/-- The value of a native function on its arguments; nothing for one that talks to the host. -/
def compute? (n : Native) (args : List Value) : Option (Except Cause Value) :=
  match n with
  | .str => some do return .text (← oneArgument "str" args).display
  | .repr => some do return .text (← oneArgument "repr" args).repr
  | .int => some do toInteger (← oneArgument "int" args)
  | .float => some do toFloat (← oneArgument "float" args)
  | .len => some do lengthOf (← oneArgument "len" args)
  | .list => some (.ok (.list args))
  | .nth => some do
    let (sequence, index) ← twoArguments "nth" args
    itemAt sequence index
  | .append => some (appendItems args)
  | .range => some (rangeList args)
  | .type => some do return .text (← oneArgument "type" args).kind.name
  | .abs => some do magnitude (← oneArgument "abs" args)
  | .min => some (extremum "min" .lt (spread args))
  | .max => some (extremum "max" .gt (spread args))
  | .not => some do return .bool (!(← oneArgument "not" args).isTrue)
  | .add => some (combine (.integer 0) addValues args)
  | .sub => some <|
    match args with
    | [v] => negValue v
    | _ => do
      atLeast "-" args 1
      combine (.integer 0) subValues args
  | .mul => some (combine (.integer 1) mulValues args)
  | .div => some do
    atLeast "/" args 2
    combine .nil divValues args
  | .floorDiv => some do
    let (a, b) ← twoArguments "//" args
    floorDivValues a b
  | .modulo => some do
    let (a, b) ← twoArguments "%" args
    moduloValues a b
  | .eq => some do
    atLeast "=" args 2
    return .bool (allSame args)
  | .ne => some do
    let (a, b) ← twoArguments "!=" args
    return .bool (!a.same b)
  | .lt => some (ordered "<" (· == .lt) args)
  | .gt => some (ordered ">" (· == .gt) args)
  | .le => some (ordered "<=" (· != .gt) args)
  | .ge => some (ordered ">=" (· != .lt) args)
  | .sqrt => some do squareRoot (← number "sqrt" (← oneArgument "sqrt" args))
  | .floor => some do rounded "floor" Float.floor (← oneArgument "floor" args)
  | .ceil => some do rounded "ceil" Float.ceil (← oneArgument "ceil" args)
  | .pow => some do
    let (a, b) ← twoArguments "pow" args
    let base ← number "pow" a
    power base (← number "pow" b)
  | .print | .input | .sleep | .readFile | .showImage | .supplied _ => none

end Lispbox.Native
