import Lispbox.Native.Call
import Lispbox.Proofs.Machine.Stored

/-!
# What native functions give and ask

A native function makes numbers, texts and lists, and passes on parts of what it was given; it never
makes anything that can be executed. So whatever holds of all values that are not code, and of the
arguments with all their parts, holds of the result with all its parts (`compute?_all`).

`Native.Puts n q` says which questions a native function may put to the host; it does nothing else
that is noticed (`talks_call`).
-/
namespace Lispbox
namespace Native

variable {P : Value → Prop} {α : Type}

/-- The computation does not fail for want of a module. -/
def NoImport (r : Except Cause α) : Prop := ∀ name, r ≠ .error (.noModule name)

/-- The result, if there is one, is as required with all its parts. -/
def Yields (P : Value → Prop) (r : Except Cause Value) : Prop :=
  (∀ v, r = .ok v → v.All P) ∧ NoImport r

theorem yields_error {c : Cause} (h : ∀ name, c ≠ .noModule name) : Yields P (.error c) :=
  ⟨nofun, fun name e => h name (by cases e; rfl)⟩

theorem yields_ok {v : Value} (h : v.All P) : Yields P (.ok v) :=
  ⟨fun _ hv => by cases hv; exact h, nofun⟩

theorem yields_bind {x : Except Cause α} {f : α → Except Cause Value} (hx : NoImport x)
    (h : ∀ a, x = .ok a → Yields P (f a)) : Yields P (x >>= f) := by
  cases x with
  | error c => exact yields_error fun name e => hx name (by rw [e])
  | ok a => exact h a rfl

theorem yields_ite {p : Prop} [Decidable p] {x y : Except Cause Value} (hx : Yields P x)
    (hy : Yields P y) : Yields P (if p then x else y) := by
  split
  · exact hx
  · exact hy

/-! ## Computations on the way -/

theorem noImport_ok (a : α) : NoImport (.ok a : Except Cause α) := nofun

theorem noImport_bind {β : Type} {x : Except Cause α} {f : α → Except Cause β} (hx : NoImport x)
    (hf : ∀ a, NoImport (f a)) : NoImport (x >>= f) := by
  cases x with
  | error c => exact fun name e => hx name (by cases e; rfl)
  | ok a => exact hf a

theorem noImport_atLeast (function : String) (args : List Value) (n : Nat) :
    NoImport (atLeast function args n) := by
  unfold atLeast; split <;> nofun

theorem noImport_oneArgument (function : String) (args : List Value) :
    NoImport (oneArgument function args) := by
  unfold oneArgument; split <;> nofun

theorem noImport_twoArguments (function : String) (args : List Value) :
    NoImport (twoArguments function args) := by
  unfold twoArguments; split <;> nofun

theorem noImport_number (function : String) (v : Value) : NoImport (number function v) := by
  unfold number; split <;> nofun

theorem noImport_operands (operator : String) (a b : Value) : NoImport (operands operator a b) := by
  unfold operands; split <;> nofun

theorem noImport_joinedLength (a b : Nat) : NoImport (Sequence.joinedLength a b) := by
  unfold Sequence.joinedLength; split <;> nofun

theorem noImport_repeatedLength (length : Nat) (n : Int64) :
    NoImport (Sequence.repeatedLength length n) := by
  unfold Sequence.repeatedLength; dsimp only; split <;> nofun

theorem noImport_rangeBounds (args : List Value) : NoImport (rangeBounds args) := by
  fun_induction rangeBounds args with
  | case1 => exact noImport_ok _
  | case2 n vs ih => exact noImport_bind ih fun _ => noImport_ok _
  | case3 v vs => nofun

theorem noImport_rangeItems (start stop step : Int64) :
    NoImport (Sequence.rangeItems start stop step) := by
  unfold Sequence.rangeItems; dsimp only; repeat' split
  all_goals nofun

theorem noImport_orderOf (operator : String) (a b : Value) : NoImport (orderOf operator a b) := by
  unfold orderOf; repeat' split
  all_goals nofun

theorem noImport_isChain (operator : String) (accept : Ordering → Bool) (args : List Value) :
    NoImport (isChain operator accept args) := by
  fun_induction isChain operator accept args with
  | case1 a b rest ih =>
    refine noImport_bind (noImport_orderOf operator a b) fun o => ?_
    split
    · split
      · exact ih
      · exact noImport_ok _
    · exact noImport_ok _
  | case2 => exact noImport_ok _

theorem noImport_sleepSeconds (args : List Value) : NoImport (sleepSeconds args) := by
  refine noImport_bind (noImport_oneArgument "sleep" args) fun v => ?_
  refine noImport_bind (noImport_number "sleep" v) fun seconds => ?_
  split <;> nofun

theorem noImport_fileName (args : List Value) : NoImport (fileName args) := by
  refine noImport_bind (noImport_oneArgument "read-file" args) fun v => ?_
  split <;> nofun

theorem noImport_imageParts (args : List Value) : NoImport (imageParts args) := by
  refine noImport_bind (noImport_twoArguments "show" args) fun p => ?_
  split
  · split <;> nofun
  · nofun

section
variable (hdata : ∀ v : Value, v.isCode = false → P v)
include hdata

/-- Numbers, texts and truth values. -/
theorem all_plain {v : Value} (hc : v.isCode = false) (hp : v.parts = []) : v.All P :=
  .of (hdata v hc) (by simp [hp])

theorem yields_plain {v : Value} (hc : v.isCode = false) (hp : v.parts = []) : Yields P (.ok v) :=
  yields_ok (all_plain hdata hc hp)

theorem yields_list {items : List Value} (h : ∀ w ∈ items, w.All P) :
    Yields P (.ok (.list items)) :=
  yields_ok (.of (hdata _ rfl) h)

theorem yields_integerResult (r : Except Integer.Fault Int64) : Yields P (integerResult r) := by
  cases r with
  | error f => exact yields_error fun name h => by cases f <;> cases h
  | ok n => exact yields_plain hdata rfl rfl

theorem yields_integerOfWhole (n : Int) : Yields P (integerOfWhole n) :=
  yields_ite (yields_plain hdata rfl rfl) (yields_error nofun)

omit hdata in
theorem yields_floats (operator : String) (a b : Value) {f : Float × Float → Except Cause Value}
    (hf : ∀ p, Yields P (f p)) : Yields P (operands operator a b >>= f) :=
  yields_bind (noImport_operands operator a b) fun p _ => hf p

/-! ## Arithmetic -/

theorem yields_addValues {a b : Value} (ha : a.All P) (hb : b.All P) :
    Yields P (addValues a b) := by
  unfold addValues
  split
  · exact yields_integerResult hdata _
  · exact yields_bind (noImport_joinedLength _ _) fun _ _ => yields_plain hdata rfl rfl
  · next x y =>
    refine yields_bind (noImport_joinedLength _ _) fun _ _ => yields_list hdata fun w hw => ?_
    rcases List.mem_append.mp hw with hw | hw
    · exact ha.part w hw
    · exact hb.part w hw
  · exact yields_floats "+" _ _ fun _ => yields_plain hdata rfl rfl

theorem yields_subValues (a b : Value) : Yields P (subValues a b) := by
  unfold subValues
  split
  · exact yields_integerResult hdata _
  · exact yields_floats "-" _ _ fun _ => yields_plain hdata rfl rfl

theorem yields_negValue (v : Value) : Yields P (negValue v) := by
  unfold negValue
  split
  · exact yields_integerResult hdata _
  · exact yields_plain hdata rfl rfl
  · exact yields_error nofun

theorem yields_repeatedText (s : String) (n : Int64) : Yields P (repeatedText s n) :=
  yields_bind (noImport_repeatedLength _ _) fun _ _ => yields_plain hdata rfl rfl

theorem yields_repeatedList {items : List Value} (h : ∀ w ∈ items, w.All P) (n : Int64) :
    Yields P (repeatedList items n) := by
  refine yields_bind (noImport_repeatedLength _ _) fun p _ => yields_list hdata fun w hw => h w ?_
  unfold Sequence.repeatList at hw
  split at hw
  · simp at hw
  · obtain ⟨l, hl, hw⟩ := List.mem_flatten.mp hw
    exact List.eq_of_mem_replicate hl ▸ hw

theorem yields_mulValues {a b : Value} (ha : a.All P) (hb : b.All P) :
    Yields P (mulValues a b) := by
  unfold mulValues
  split
  · exact yields_integerResult hdata _
  · exact yields_repeatedText hdata _ _
  · exact yields_repeatedText hdata _ _
  · exact yields_repeatedList hdata ha.part _
  · exact yields_repeatedList hdata hb.part _
  · exact yields_floats "*" _ _ fun _ => yields_plain hdata rfl rfl

theorem yields_divValues (a b : Value) : Yields P (divValues a b) :=
  yields_floats "/" _ _ fun _ => yields_ite (yields_error nofun) (yields_plain hdata rfl rfl)

theorem yields_floorDivValues (a b : Value) : Yields P (floorDivValues a b) := by
  unfold floorDivValues
  split
  · exact yields_integerResult hdata _
  · exact yields_floats "//" _ _ fun _ =>
      yields_ite (yields_error nofun) (yields_plain hdata rfl rfl)

theorem yields_moduloValues (a b : Value) : Yields P (moduloValues a b) := by
  unfold moduloValues
  split
  · exact yields_integerResult hdata _
  · exact yields_floats "%" _ _ fun _ =>
      yields_ite (yields_error nofun) (yields_plain hdata rfl rfl)

omit hdata in
/-- What a step yields from yields, a fold yields. -/
theorem yields_foldlM {step : Value → Value → Except Cause Value}
    (hs : ∀ a b, a.All P → b.All P → Yields P (step a b)) {vs : List Value}
    (hvs : ∀ v ∈ vs, v.All P) {v : Value} (hv : v.All P) : Yields P (vs.foldlM step v) := by
  induction vs generalizing v with
  | nil => exact yields_ok hv
  | cons w ws ih =>
    rw [List.foldlM_cons]
    have hw := hs v w hv (hvs w (by simp))
    exact yields_bind hw.2 fun u hu => ih (fun x hx => hvs x (List.mem_cons_of_mem _ hx))
      (hw.1 u hu)

omit hdata in
theorem yields_combine {empty : Value} {step : Value → Value → Except Cause Value}
    (he : empty.All P) (hs : ∀ a b, a.All P → b.All P → Yields P (step a b)) {args : List Value}
    (hargs : ∀ v ∈ args, v.All P) : Yields P (combine empty step args) := by
  cases args with
  | nil => exact yields_ok he
  | cons v vs =>
    exact yields_foldlM hs (fun x hx => hargs x (List.mem_cons_of_mem _ hx)) (hargs v (by simp))

omit hdata in
theorem yields_extremum (function : String) (wanted : Ordering) {args : List Value}
    (hargs : ∀ v ∈ args, v.All P) : Yields P (extremum function wanted args) := by
  cases args with
  | nil => exact yields_error nofun
  | cons v vs =>
    refine yields_foldlM
      (fun a b ha hb => yields_bind (noImport_orderOf function b a) fun o _ => yields_ok ?_)
      (fun x hx => hargs x (List.mem_cons_of_mem _ hx)) (hargs v (by simp))
    split
    · exact hb
    · exact ha

/-! ## Conversions and sequences -/

theorem yields_toInteger (v : Value) : Yields P (toInteger v) := by
  unfold toInteger
  split
  · exact yields_plain hdata rfl rfl
  · exact yields_plain hdata rfl rfl
  · split
    · exact yields_integerOfWhole hdata _
    · exact yields_error nofun
  · split
    · exact yields_plain hdata rfl rfl
    · exact yields_error nofun
  · exact yields_error nofun

theorem yields_toFloat (v : Value) : Yields P (toFloat v) := by
  unfold toFloat
  split
  · exact yields_plain hdata rfl rfl
  · exact yields_plain hdata rfl rfl
  · exact yields_plain hdata rfl rfl
  · split
    · exact yields_plain hdata rfl rfl
    · exact yields_error nofun
  · exact yields_error nofun

theorem yields_lengthOf (v : Value) : Yields P (lengthOf v) := by
  unfold lengthOf
  split
  · exact yields_plain hdata rfl rfl
  · exact yields_plain hdata rfl rfl
  · exact yields_error nofun

theorem yields_itemAt {sequence : Value} (hs : sequence.All P) (index : Value) :
    Yields P (itemAt sequence index) := by
  unfold itemAt
  split
  · split
    · split
      · next v hv =>
        obtain ⟨i, -, hi⟩ := Option.bind_eq_some_iff.mp hv
        exact yields_ok (hs.part _ (List.mem_of_getElem? hi))
      · exact yields_error fun _ h => by cases h
    · split
      · exact yields_plain hdata rfl rfl
      · exact yields_error fun _ h => by cases h
    · exact yields_error fun _ h => by cases h
  · exact yields_error fun _ h => by cases h

theorem yields_appendItems {args : List Value} (hargs : ∀ v ∈ args, v.All P) :
    Yields P (appendItems args) := by
  unfold appendItems
  split
  · exact yields_error nofun
  · next items rest =>
    refine yields_bind (noImport_joinedLength _ _) fun _ _ => yields_list hdata fun w hw => ?_
    rcases List.mem_append.mp hw with hw | hw
    · exact (hargs (.list items) (by simp)).part w hw
    · exact hargs w (by simp [hw])
  · exact yields_error nofun

theorem yields_rangeList (args : List Value) : Yields P (rangeList args) := by
  have integers (items : List Int64) : Yields P (.ok (.list (items.map .integer))) :=
    yields_list hdata fun w hw => by
      obtain ⟨n, -, rfl⟩ := List.mem_map.mp hw
      exact .of (hdata _ rfl) (by simp [Value.parts])
  refine yields_bind (noImport_rangeBounds args) fun bounds _ => ?_
  split
  · exact yields_bind (noImport_rangeItems _ _ _) fun items _ => integers items
  · exact yields_bind (noImport_rangeItems _ _ _) fun items _ => integers items
  · exact yields_bind (noImport_rangeItems _ _ _) fun items _ => integers items
  · exact yields_bind (fun name h => by cases h) fun items _ => integers items

theorem yields_magnitude (v : Value) : Yields P (magnitude v) := by
  unfold magnitude
  split
  · exact yields_integerResult hdata _
  · exact yields_plain hdata rfl rfl
  · exact yields_error nofun

theorem yields_rounded (function : String) (round : Float → Float) (v : Value) :
    Yields P (rounded function round v) := by
  unfold rounded
  split
  · exact yields_plain hdata rfl rfl
  · refine yields_bind (noImport_number function v) fun x _ => ?_
    split
    · exact yields_error nofun
    · exact yields_integerOfWhole hdata _

omit hdata in
theorem spread_all {args : List Value} (hargs : ∀ v ∈ args, v.All P) :
    ∀ v ∈ spread args, v.All P := by
  unfold spread
  split
  · next items => exact (hargs (.list items) (by simp)).part
  · exact hargs

omit hdata in
/-- A function of one argument. -/
theorem yields_oneArgument {function : String} {args : List Value}
    {f : Value → Except Cause Value} (hargs : ∀ v ∈ args, v.All P)
    (hf : ∀ v, v.All P → Yields P (f v)) : Yields P (oneArgument function args >>= f) := by
  refine yields_bind (noImport_oneArgument function args) fun v hv => hf v ?_
  unfold oneArgument at hv
  split at hv
  · cases hv; exact hargs v (by simp)
  · cases hv

omit hdata in
/-- A function of two arguments. -/
theorem yields_twoArguments {function : String} {args : List Value}
    {f : Value × Value → Except Cause Value} (hargs : ∀ v ∈ args, v.All P)
    (hf : ∀ a b, a.All P → b.All P → Yields P (f (a, b))) :
    Yields P (twoArguments function args >>= f) := by
  refine yields_bind (noImport_twoArguments function args) fun p hp => ?_
  unfold twoArguments at hp
  split at hp
  · next a b => cases hp; exact hf a b (hargs a (by simp)) (hargs b (by simp))
  · cases hp

/-- The result of a native function, with all its parts, is as its arguments are. -/
theorem compute?_all {n : Native} {args : List Value} {r : Except Cause Value}
    (hargs : ∀ v ∈ args, v.All P) (h : n.compute? args = some r) : Yields P r := by
  have plain {v : Value} (hc : v.isCode = false) (hp : v.parts = []) : Yields P (.ok v) :=
    yields_plain hdata hc hp
  cases n <;> simp only [compute?, Option.some.injEq, reduceCtorEq] at h <;> subst h
  case str | repr | type | not =>
    exact yields_oneArgument hargs fun _ _ => plain rfl rfl
  case int => exact yields_oneArgument hargs fun v _ => yields_toInteger hdata v
  case float => exact yields_oneArgument hargs fun v _ => yields_toFloat hdata v
  case len => exact yields_oneArgument hargs fun v _ => yields_lengthOf hdata v
  case list => exact yields_list hdata hargs
  case nth => exact yields_twoArguments hargs fun a b ha _ => yields_itemAt hdata ha b
  case append => exact yields_appendItems hdata hargs
  case range => exact yields_rangeList hdata args
  case abs => exact yields_oneArgument hargs fun v _ => yields_magnitude hdata v
  case min | max => exact yields_extremum _ _ (spread_all hargs)
  case add =>
    exact yields_combine (all_plain hdata rfl rfl) (fun _ _ => yields_addValues hdata) hargs
  case sub =>
    split
    · exact yields_negValue hdata _
    · exact yields_bind (noImport_atLeast _ _ _) fun _ _ =>
        yields_combine (all_plain hdata rfl rfl) (fun a b _ _ => yields_subValues hdata a b) hargs
  case mul =>
    exact yields_combine (all_plain hdata rfl rfl) (fun _ _ => yields_mulValues hdata) hargs
  case div =>
    exact yields_bind (noImport_atLeast _ _ _) fun _ _ =>
      yields_combine (all_plain hdata rfl rfl) (fun a b _ _ => yields_divValues hdata a b) hargs
  case floorDiv => exact yields_twoArguments hargs fun a b _ _ => yields_floorDivValues hdata a b
  case modulo => exact yields_twoArguments hargs fun a b _ _ => yields_moduloValues hdata a b
  case eq => exact yields_bind (noImport_atLeast _ _ _) fun _ _ => plain rfl rfl
  case ne => exact yields_twoArguments hargs fun _ _ _ _ => plain rfl rfl
  case lt | gt | le | ge =>
    exact yields_bind (noImport_atLeast _ _ _) fun _ _ =>
      yields_bind (noImport_isChain _ _ _) fun _ _ => plain rfl rfl
  case sqrt =>
    exact yields_oneArgument hargs fun v _ => yields_bind (noImport_number "sqrt" v) fun _ _ =>
      yields_ite (yields_error nofun) (plain rfl rfl)
  case floor | ceil => exact yields_oneArgument hargs fun v _ => yields_rounded hdata _ _ v
  case pow =>
    exact yields_twoArguments hargs fun a b _ _ => yields_bind (noImport_number "pow" a) fun _ _ =>
      yields_bind (noImport_number "pow" b) fun _ _ =>
        yields_ite (yields_error nofun) (plain rfl rfl)

end

/-! ## Questions -/

end Native

/-- If an event is emitted, it is output. -/
def Query.EmitsOutput (q : Query) : Prop := ∀ e, q = .emit e → ∃ o, e = .output o

/-- The script puts some questions, one after another, and leaves the state of the run alone. -/
inductive Script.Talks {α : Type} (asks : Query → Prop) : Script α → Prop where
  | pure (a : α) : Talks asks (pure a)
  | raise (c : Cause) : Talks asks (Script.raise c)
  | crash (reason : String) : Talks asks (Script.crash reason)
  | ask {q : Query} (hq : asks q) {f : q.Answer → Script α} (hf : ∀ a, Talks asks (f a)) :
    Talks asks (Script.ask q >>= f)

/-- What a script does with the result of a computation. -/
theorem Script.Talks.computed {α β : Type} {asks : Query → Prop} (r : Except Cause α)
    {f : α → Script β} (hf : ∀ a, (f a).Talks asks) : (Script.ofCause r >>= f).Talks asks := by
  cases r with
  | ok a => exact hf a
  | error c => exact .raise c

namespace Native

theorem supplied_or_shipped (n : Native) : (∃ f, n = .supplied f) ∨ ∀ f, n ≠ .supplied f := by
  by_cases h : ∃ f, n = .supplied f
  · exact .inl h
  · exact .inr fun f hf => h ⟨f, hf⟩

/-- What a native function may ask the host. -/
inductive Puts : Native → Query → Prop where
  | print (text : String) : Puts .print (.emit (.output ⟨.stdout, text, ContentType.plain⟩))
  | prompt (text : String) : Puts .input (.emit (.output ⟨.inputPrompt, text, ContentType.plain⟩))
  | input (prompt : String) : Puts .input (.input prompt)
  | echo (line : String) : Puts .input (.emit (.output ⟨.input, line, ContentType.plain⟩))
  | sleep (duration : Nat) : Puts .sleep (.sleep duration)
  | readFile (name : String) : Puts .readFile (.readFile name)
  | showImage (format data : String) :
    Puts .showImage (.emit (.output ⟨.image, data, ContentType.image format⟩))
  /-- As the functions of the module `probe` do. -/
  | supplied (f : Supplied) (o : Output) : Puts (.supplied f) (.emit (.output o))

/-- What is emitted is output. -/
theorem Puts.emitsOutput {n : Native} {q : Query} (h : n.Puts q) : q.EmitsOutput := by
  intro e he
  cases h <;> cases he <;> exact ⟨_, rfl⟩

theorem talks_readLine (prompt : String) : (readLine prompt).Talks Native.input.Puts := by
  have asked : Script.Talks Native.input.Puts (do
      let line ← Script.ask (.input prompt)
      emitText .input (line ++ "\n")
      return Value.text line) :=
    .ask (.input prompt) fun line => .ask (.echo _) fun _ => .pure _
  unfold readLine
  split
  · exact .ask (.prompt prompt) fun _ => asked
  · exact asked

/-- A function that is not supplied puts its questions and does nothing else. -/
theorem talks_shipped [Supply] {n : Native} (hn : ∀ f, n ≠ .supplied f) (args : List Value) :
    (n.call args).Talks n.Puts := by
  unfold call
  split
  · next r _ =>
    cases r with
    | ok v => exact .pure v
    | error c => exact .raise c
  · split
    · exact .ask (.print _) fun _ => .pure _
    · split
      · exact talks_readLine _
      · exact talks_readLine _
      · exact .raise _
    · exact .computed _ fun _ => .ask (.sleep _) fun _ => .pure _
    · refine .computed _ fun name => .ask (.readFile name) fun text => ?_
      cases text with
      | some text => exact .pure _
      | none => exact .raise _
    · exact .computed _ fun p => .ask (.showImage p.1 p.2) fun _ => .pure _
    · next f _ => exact absurd rfl (hn f)
    · exact .pure _

/-- So does a function of the module `probe`. -/
theorem talks_probe (f : Supplied) (args : List Value) :
    (Supply.act f args).script.Talks (Native.supplied f).Puts := by
  rw [script_probe]
  split
  · exact .crash _
  · exact .ask (.supplied f _) fun _ => .pure _

/-- A native function puts its questions and does nothing else. -/
theorem talks_call (n : Native) (args : List Value) : (n.call args).Talks n.Puts := by
  rcases n.supplied_or_shipped with ⟨f, rfl⟩ | hn
  · exact talks_probe f args
  · exact talks_shipped hn args

end Native
end Lispbox
