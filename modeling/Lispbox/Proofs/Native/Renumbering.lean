import Lispbox.Native.Call
import Lispbox.Proofs.Machine.Renumbering

/-!
# Native functions and other serial numbers

Native functions see nothing of the serial numbers in their arguments. What they make of them are
numbers, texts and truth values (`IsPlain`), and lists of what they are given; so with other serial
numbers in the arguments the result is the same, with these numbers.

* `compute?_renumber`: all native functions without effects.
-/
namespace Lispbox.Native

variable {c : Numbering}

/-- A computation goes on with what it has been given. -/
theorem bind_renumber {α β : Type} {x x' : Except Cause α} {change : α → α} {after : β → β}
    {f f' : α → Except Cause β} (hx : x' = x.map change)
    (hf : ∀ a, f' (change a) = (f a).map after) : (x' >>= f') = (x >>= f).map after := by
  subst hx
  cases x with
  | ok a => exact hf a
  | error e => rfl

/-- A computation goes on from something that is as before. -/
theorem bind_plain {α β : Type} (x : Except Cause α) {after : β → β} {f f' : α → Except Cause β}
    (hf : ∀ a, f' a = (f a).map after) : (x >>= f') = (x >>= f).map after := by
  cases x with
  | ok a => exact hf a
  | error e => rfl

/-! ## Plain results -/

/-- The result, if there is one, is as before whatever the numbers are. -/
def IsPlain (c : Numbering) (r : Except Cause Value) : Prop := r.map (Value.renumber c) = r

theorem plain_bind {α : Type} {x : Except Cause α} {f : α → Except Cause Value}
    (hf : ∀ a, IsPlain c (f a)) : IsPlain c (x >>= f) := by
  cases x with
  | ok a => exact hf a
  | error e => rfl

theorem plain_integerResult (r : Except Integer.Fault Int64) : IsPlain c (integerResult r) := by
  cases r <;> rfl

theorem plain_integerOfWhole (n : Int) : IsPlain c (integerOfWhole n) := by
  unfold integerOfWhole
  split <;> rfl

theorem plain_toInteger (v : Value) : IsPlain c (toInteger v) := by
  unfold toInteger
  split
  · rfl
  · rfl
  · split
    · exact plain_integerOfWhole _
    · rfl
  · split <;> rfl
  · rfl

theorem plain_toFloat (v : Value) : IsPlain c (toFloat v) := by
  unfold toFloat
  split
  · rfl
  · rfl
  · rfl
  · split <;> rfl
  · rfl

theorem plain_lengthOf (v : Value) : IsPlain c (lengthOf v) := by
  unfold lengthOf
  split <;> rfl

theorem plain_magnitude (v : Value) : IsPlain c (magnitude v) := by
  unfold magnitude
  split
  · exact plain_integerResult _
  · rfl
  · rfl

theorem plain_rounded (function : String) (round : Float → Float) (v : Value) :
    IsPlain c (rounded function round v) := by
  unfold rounded
  split
  · rfl
  · refine plain_bind fun x => ?_
    split
    · rfl
    · exact plain_integerOfWhole _

theorem plain_squareRoot (x : Float) : IsPlain c (squareRoot x) := by
  unfold squareRoot
  split <;> rfl

theorem plain_power (x y : Float) : IsPlain c (power x y) := by
  unfold power
  split <;> rfl

theorem plain_subValues (a b : Value) : IsPlain c (subValues a b) := by
  unfold subValues
  split
  · exact plain_integerResult _
  · exact plain_bind fun _ => rfl

theorem plain_negValue (v : Value) : IsPlain c (negValue v) := by
  unfold negValue
  split
  · exact plain_integerResult _
  · rfl
  · rfl

theorem plain_divValues (a b : Value) : IsPlain c (divValues a b) := by
  refine plain_bind fun p => ?_
  split
  split <;> rfl

theorem plain_floorDivValues (a b : Value) : IsPlain c (floorDivValues a b) := by
  unfold floorDivValues
  split
  · exact plain_integerResult _
  · refine plain_bind fun p => ?_
    split
    split <;> rfl

theorem plain_moduloValues (a b : Value) : IsPlain c (moduloValues a b) := by
  unfold moduloValues
  split
  · exact plain_integerResult _
  · refine plain_bind fun p => ?_
    split
    split <;> rfl

theorem plain_rangeList (args : List Value) : IsPlain c (rangeList args) := by
  have integers (x : Except Cause (List Int64)) :
      IsPlain c (x >>= fun items => pure (.list (items.map .integer))) := by
    refine plain_bind fun items => congrArg Except.ok ?_
    rw [Value.renumber_list, List.map_map]
    rfl
  refine plain_bind fun bounds => ?_
  split <;> exact integers _

/-! ## Operators -/

/-- A function of one value that sees nothing of serial numbers. -/
theorem renumber_of_plain {f : Value → Except Cause Value} (hf : ∀ v, IsPlain c (f v))
    (hsame : ∀ v, f (v.renumber c) = f v) (v : Value) :
    f (v.renumber c) = (f v).map (Value.renumber c) := by
  rw [hsame, hf v]

/-- An operator that sees nothing of serial numbers. -/
theorem renumber_of_plain₂ {f : Value → Value → Except Cause Value}
    (hf : ∀ a b, IsPlain c (f a b)) (hsame : ∀ a b, f (a.renumber c) (b.renumber c) = f a b)
    (a b : Value) : f (a.renumber c) (b.renumber c) = (f a b).map (Value.renumber c) := by
  rw [hsame, hf a b]

theorem subValues_renumber (a b : Value) :
    subValues (a.renumber c) (b.renumber c) = (subValues a b).map (Value.renumber c) :=
  renumber_of_plain₂ plain_subValues (fun a b => by cases a <;> cases b <;> rfl) a b

theorem divValues_renumber (a b : Value) :
    divValues (a.renumber c) (b.renumber c) = (divValues a b).map (Value.renumber c) :=
  renumber_of_plain₂ plain_divValues (fun a b => by cases a <;> cases b <;> rfl) a b

theorem floorDivValues_renumber (a b : Value) :
    floorDivValues (a.renumber c) (b.renumber c) = (floorDivValues a b).map (Value.renumber c) :=
  renumber_of_plain₂ plain_floorDivValues (fun a b => by cases a <;> cases b <;> rfl) a b

theorem moduloValues_renumber (a b : Value) :
    moduloValues (a.renumber c) (b.renumber c) = (moduloValues a b).map (Value.renumber c) :=
  renumber_of_plain₂ plain_moduloValues (fun a b => by cases a <;> cases b <;> rfl) a b

/-- Lists of what is given. -/
theorem ok_list_renumber (items : List Value) :
    (Except.ok (.list (items.map (Value.renumber c))) : Except Cause Value) =
      (Except.ok (.list items)).map (Value.renumber c) :=
  congrArg Except.ok (Value.renumber_list items).symm

theorem addValues_renumber (a b : Value) :
    addValues (a.renumber c) (b.renumber c) = (addValues a b).map (Value.renumber c) := by
  cases a with
  | integer x =>
    cases b with
    | integer y => exact (plain_integerResult _).symm
    | _ => rfl
  | text x =>
    cases b with
    | text y => exact bind_plain _ fun _ => rfl
    | _ => rfl
  | list x =>
    cases b with
    | list y =>
      rw [Value.renumber_list, Value.renumber_list, addValues, addValues, List.length_map,
        List.length_map, ← List.map_append]
      exact bind_plain _ fun _ => ok_list_renumber (x ++ y)
    | _ => rfl
  | _ => cases b <;> rfl

theorem repeatedList_renumber (items : List Value) (n : Int64) :
    repeatedList (items.map (Value.renumber c)) n =
      (repeatedList items n).map (Value.renumber c) := by
  have hrepeat (times : Nat) : Sequence.repeatList (items.map (Value.renumber c)) times =
      (Sequence.repeatList items times).map (Value.renumber c) := by
    cases items with
    | nil => rfl
    | cons v vs => simp [Sequence.repeatList]
  unfold repeatedList
  rw [List.length_map]
  refine bind_plain _ fun p => ?_
  dsimp only
  rw [hrepeat]
  exact ok_list_renumber _

theorem mulValues_renumber (a b : Value) :
    mulValues (a.renumber c) (b.renumber c) = (mulValues a b).map (Value.renumber c) := by
  have texts (s : String) (n : Int64) : IsPlain c (repeatedText s n) := plain_bind fun _ => rfl
  cases a with
  | integer x =>
    cases b with
    | integer y => exact (plain_integerResult _).symm
    | text s => exact (texts s x).symm
    | list items =>
      rw [Value.renumber_list]
      exact repeatedList_renumber items x
    | _ => rfl
  | text s =>
    cases b with
    | integer n => exact (texts s n).symm
    | _ => rfl
  | list items =>
    cases b with
    | integer n =>
      rw [Value.renumber_list]
      exact repeatedList_renumber items n
    | _ => rfl
  | _ => cases b <;> rfl

theorem foldlM_renumber {step : Value → Value → Except Cause Value}
    (hstep : ∀ a b, step (a.renumber c) (b.renumber c) = (step a b).map (Value.renumber c))
    (v : Value) (vs : List Value) :
    (vs.map (Value.renumber c)).foldlM step (v.renumber c) =
      (vs.foldlM step v).map (Value.renumber c) := by
  induction vs generalizing v with
  | nil => rfl
  | cons w vs ih =>
    rw [List.map_cons, List.foldlM_cons, List.foldlM_cons]
    exact bind_renumber (hstep v w) ih

theorem combine_renumber {empty : Value} {step : Value → Value → Except Cause Value}
    (hempty : empty.renumber c = empty)
    (hstep : ∀ a b, step (a.renumber c) (b.renumber c) = (step a b).map (Value.renumber c))
    (vs : List Value) :
    combine empty step (vs.map (Value.renumber c)) =
      (combine empty step vs).map (Value.renumber c) := by
  cases vs with
  | nil => exact congrArg Except.ok hempty.symm
  | cons v vs => exact foldlM_renumber hstep v vs

/-! ## Order -/

theorem orderOf_renumber (operator : String) (a b : Value) :
    orderOf operator (a.renumber c) (b.renumber c) = orderOf operator a b := by
  cases a <;> cases b <;> rfl

theorem isChain_renumber (operator : String) (accept : Ordering → Bool) (vs : List Value) :
    isChain operator accept (vs.map (Value.renumber c)) = isChain operator accept vs := by
  induction vs with
  | nil => rfl
  | cons v vs ih =>
    cases vs with
    | nil => rfl
    | cons w vs =>
      rw [List.map_cons, List.map_cons, isChain, isChain, orderOf_renumber]
      rw [List.map_cons] at ih
      rw [ih]

theorem allSame_renumber (vs : List Value) : allSame (vs.map (Value.renumber c)) = allSame vs := by
  induction vs with
  | nil => rfl
  | cons v vs ih =>
    cases vs with
    | nil => rfl
    | cons w vs =>
      rw [List.map_cons, List.map_cons, allSame, allSame, Value.same_renumber]
      rw [List.map_cons] at ih
      rw [ih]

theorem extremum_renumber (function : String) (wanted : Ordering) (vs : List Value) :
    extremum function wanted (vs.map (Value.renumber c)) =
      (extremum function wanted vs).map (Value.renumber c) := by
  cases vs with
  | nil => rfl
  | cons v vs =>
    refine foldlM_renumber (fun best candidate => ?_) v vs
    rw [orderOf_renumber]
    refine bind_plain _ fun o => ?_
    split <;> rfl

theorem spread_renumber (args : List Value) :
    spread (args.map (Value.renumber c)) = (spread args).map (Value.renumber c) := by
  cases args with
  | nil => rfl
  | cons v vs =>
    cases vs with
    | nil =>
      cases v with
      | list items =>
        rw [List.map_cons, Value.renumber_list]
        rfl
      | _ => rfl
    | cons w vs => cases v <;> rfl

/-! ## Sequences -/

theorem itemAt_renumber (sequence index : Value) :
    itemAt (sequence.renumber c) (index.renumber c) =
      (itemAt sequence index).map (Value.renumber c) := by
  cases index with
  | integer i =>
    cases sequence with
    | list items =>
      have hitem : (Sequence.index? i items.length).bind ((items.map (Value.renumber c))[·]?) =
          ((Sequence.index? i items.length).bind (items[·]?)).map (Value.renumber c) := by
        cases Sequence.index? i items.length with
        | none => rfl
        | some n => exact List.getElem?_map
      rw [Value.renumber_list, Value.renumber, itemAt, itemAt, List.length_map, hitem]
      cases (Sequence.index? i items.length).bind (items[·]?) <;> rfl
    | text s =>
      rw [Value.renumber, Value.renumber, itemAt]
      split <;> rfl
    | _ => rfl
  | _ => rfl

theorem appendItems_renumber (args : List Value) :
    appendItems (args.map (Value.renumber c)) = (appendItems args).map (Value.renumber c) := by
  cases args with
  | nil => rfl
  | cons v rest =>
    cases v with
    | list items =>
      rw [List.map_cons, Value.renumber_list, appendItems, appendItems, List.length_map,
        List.length_map, ← List.map_append]
      exact bind_plain _ fun _ => ok_list_renumber (items ++ rest)
    | _ => rfl

theorem rangeBounds_renumber (args : List Value) :
    rangeBounds (args.map (Value.renumber c)) = rangeBounds args := by
  induction args with
  | nil => rfl
  | cons v vs ih =>
    cases v with
    | integer n =>
      rw [List.map_cons]
      change (rangeBounds (vs.map _) >>= _) = _
      rw [ih]
      rfl
    | _ => rfl

theorem rangeList_renumber (args : List Value) :
    rangeList (args.map (Value.renumber c)) = (rangeList args).map (Value.renumber c) := by
  rw [plain_rangeList]
  unfold rangeList
  rw [rangeBounds_renumber, List.length_map]

/-! ## Calls -/

theorem oneArgument_renumber {function : String} {f : Value → Except Cause Value}
    (hf : ∀ v, f (v.renumber c) = (f v).map (Value.renumber c)) (args : List Value) :
    (oneArgument function (args.map (Value.renumber c)) >>= f) =
      (oneArgument function args >>= f).map (Value.renumber c) := by
  refine bind_renumber (x := oneArgument function args) ?_ hf
  unfold oneArgument
  rw [List.length_map]
  match args with
  | [] | [_] | _ :: _ :: _ => rfl

theorem twoArguments_renumber {function : String} {f : Value × Value → Except Cause Value}
    (hf : ∀ a b, f (a.renumber c, b.renumber c) = (f (a, b)).map (Value.renumber c))
    (args : List Value) : (twoArguments function (args.map (Value.renumber c)) >>= f) =
      (twoArguments function args >>= f).map (Value.renumber c) := by
  refine bind_renumber (x := twoArguments function args) ?_ fun p => hf p.1 p.2
  unfold twoArguments
  rw [List.length_map]
  match args with
  | [] | [_] | [_, _] | _ :: _ :: _ :: _ => rfl

theorem atLeast_renumber (function : String) (args : List Value) (minimum : Nat) :
    atLeast function (args.map (Value.renumber c)) minimum = atLeast function args minimum := by
  unfold atLeast
  rw [List.length_map]

theorem number_renumber (function : String) (v : Value) :
    number function (v.renumber c) = number function v := by
  unfold number
  rw [Value.toFloat?_renumber, Value.kind_renumber]

theorem ordered_renumber (operator : String) (accept : Ordering → Bool) (args : List Value) :
    ordered operator accept (args.map (Value.renumber c)) =
      (ordered operator accept args).map (Value.renumber c) := by
  unfold ordered
  rw [atLeast_renumber, isChain_renumber]
  exact bind_plain _ fun _ => bind_plain _ fun _ => rfl

/-- A native function has the same result, with other serial numbers. -/
theorem compute?_renumber (n : Native) (args : List Value) :
    n.compute? (args.map (Value.renumber c)) =
      (n.compute? args).map (Except.map (Value.renumber c)) := by
  cases n <;> simp only [compute?, Option.map_some, Option.map_none, Option.some.injEq]
  case str =>
    refine oneArgument_renumber (fun v => ?_) args
    rw [Value.display_renumber]
    rfl
  case repr =>
    refine oneArgument_renumber (fun v => ?_) args
    rw [Value.repr_renumber]
    rfl
  case type =>
    refine oneArgument_renumber (fun v => ?_) args
    rw [Value.kind_renumber]
    rfl
  case not =>
    refine oneArgument_renumber (fun v => ?_) args
    rw [Value.isTrue_renumber]
    rfl
  case int =>
    exact oneArgument_renumber
      (renumber_of_plain plain_toInteger fun v => by cases v <;> rfl) args
  case float =>
    exact oneArgument_renumber (renumber_of_plain plain_toFloat fun v => by cases v <;> rfl) args
  case len =>
    refine oneArgument_renumber (renumber_of_plain plain_lengthOf fun v => ?_) args
    cases v with
    | list items => rw [Value.renumber_list, lengthOf, lengthOf, List.length_map]
    | _ => rfl
  case abs =>
    exact oneArgument_renumber
      (renumber_of_plain plain_magnitude fun v => by cases v <;> rfl) args
  case floor | ceil =>
    exact oneArgument_renumber
      (renumber_of_plain (plain_rounded _ _) fun v => by cases v <;> rfl) args
  case sqrt =>
    refine oneArgument_renumber (fun v => ?_) args
    rw [number_renumber]
    exact bind_plain _ fun x => (plain_squareRoot x).symm
  case list => exact ok_list_renumber args
  case append => exact appendItems_renumber args
  case range => exact rangeList_renumber args
  case nth => exact twoArguments_renumber itemAt_renumber args
  case min | max =>
    rw [spread_renumber]
    exact extremum_renumber _ _ _
  case add => exact combine_renumber rfl addValues_renumber args
  case mul => exact combine_renumber rfl mulValues_renumber args
  case sub =>
    have several : (do
        atLeast "-" (args.map (Value.renumber c)) 1
        combine (.integer 0) subValues (args.map (Value.renumber c))) =
        Except.map (Value.renumber c) (do
          atLeast "-" args 1
          combine (.integer 0) subValues args) := by
      rw [atLeast_renumber]
      exact bind_plain _ fun _ => combine_renumber rfl subValues_renumber args
    match args with
    | [v] => exact renumber_of_plain plain_negValue (fun v => by cases v <;> rfl) v
    | [] | _ :: _ :: _ => exact several
  case div =>
    rw [atLeast_renumber]
    exact bind_plain _ fun _ => combine_renumber rfl divValues_renumber args
  case floorDiv => exact twoArguments_renumber floorDivValues_renumber args
  case modulo => exact twoArguments_renumber moduloValues_renumber args
  case eq =>
    rw [atLeast_renumber, allSame_renumber]
    exact bind_plain _ fun _ => rfl
  case ne =>
    refine twoArguments_renumber (fun a b => ?_) args
    rw [Value.same_renumber]
    rfl
  case lt | gt | le | ge => exact ordered_renumber _ _ args
  case pow =>
    refine twoArguments_renumber (fun a b => ?_) args
    rw [number_renumber, number_renumber]
    exact bind_plain _ fun x => bind_plain _ fun y => (plain_power x y).symm

/-! ## What is said to the host -/

theorem sleepSeconds_renumber (args : List Value) :
    sleepSeconds (args.map (Value.renumber c)) = sleepSeconds args := by
  match args with
  | [] => rfl
  | [v] =>
    change (number "sleep" (v.renumber c) >>= _) = _
    rw [number_renumber]
    rfl
  | v :: w :: rest => simp [sleepSeconds, oneArgument, bind, Except.bind]

theorem fileName_renumber (args : List Value) :
    fileName (args.map (Value.renumber c)) = fileName args := by
  match args with
  | [] => rfl
  | [v] => cases v <;> rfl
  | v :: w :: rest => simp [fileName, oneArgument, bind, Except.bind]

theorem imageParts_renumber (args : List Value) :
    imageParts (args.map (Value.renumber c)) = imageParts args := by
  match args with
  | [] => rfl
  | [v] => rfl
  | [a, b] => cases a <;> cases b <;> rfl
  | u :: v :: w :: rest => simp [imageParts, twoArguments, bind, Except.bind]

theorem argumentText_renumber (args : List Value) (i : Nat) :
    argumentText (args.map (Value.renumber c)) i = argumentText args i := by
  unfold argumentText
  rw [List.getElem?_map]
  cases args[i]? with
  | some v => exact v.display_renumber
  | none => rfl

theorem outputOf_renumber (args : List Value) :
    outputOf (args.map (Value.renumber c)) = outputOf args := by
  unfold outputOf
  rw [argumentText_renumber, argumentText_renumber, argumentText_renumber]

theorem crashReason_renumber (args : List Value) :
    crashReason (args.map (Value.renumber c)) = crashReason args := by
  match args with
  | [] => rfl
  | v :: rest => cases v <;> rfl

end Lispbox.Native
