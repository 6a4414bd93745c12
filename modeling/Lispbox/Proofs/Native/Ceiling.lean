import Lispbox.Native.Call
import Lispbox.Run.Host

/-!
# How large texts and lists become

A value fits if no text in it has more bytes, and no list in it more items, than
`Sequence.maxLength`; what is bound in functions and modules is not part of it (`Value.Fits`). What
builtins make of values that fit does fit: those that join or repeat check the length first, the
others give a part of what they are given or something small.

That does not hold of `repr`, which adds quotes and escapes without a check, nor of `str` for lists:
the quoted text of a text is longer than the text (`utf8ByteSize_quoteText`), so repeated quoting
exceeds any bound.

* `call_fits`: every builtin but those that quote values and those that read from the host.
* `repr_exceeds`: the quoted text of a text that fits, and does not fit itself.
-/
namespace Lispbox

open Sequence (maxLength)

mutual
/-- No text and no list in the value is longer than native functions build them. -/
def Value.Fits : Value → Prop
  | .text s => s.utf8ByteSize ≤ maxLength
  | .list items => items.length ≤ maxLength ∧ allFit items
  | _ => True

/-- The values fit. -/
def allFit : List Value → Prop
  | [] => True
  | v :: vs => v.Fits ∧ allFit vs
end

theorem allFit_iff {vs : List Value} : allFit vs ↔ ∀ v ∈ vs, v.Fits := by
  induction vs with
  | nil => simp [allFit]
  | cons v vs ih => simp [allFit, ih]

theorem Value.fits_list {items : List Value} :
    (Value.list items).Fits ↔ items.length ≤ maxLength ∧ ∀ v ∈ items, v.Fits := by
  rw [Value.Fits, allFit_iff]

theorem Value.fits_text {s : String} : (Value.text s).Fits ↔ s.utf8ByteSize ≤ maxLength := by
  rw [Value.Fits]

/-- The value is neither a text nor a list. -/
def Value.isAtom : Value → Bool
  | .text _ | .list _ => false
  | _ => true

theorem Value.fits_atom {v : Value} (h : v.isAtom = true) : v.Fits := by
  cases v
  case text => cases h
  case list => cases h
  all_goals simp [Value.Fits]

namespace Native

/-- The value that is computed, if there is one, fits. -/
def Bounded (r : Except Cause Value) : Prop := ∀ v, r = .ok v → v.Fits

theorem bounded_ok {v : Value} (h : v.Fits) : Bounded (.ok v) := by
  intro w hw
  cases hw
  exact h

theorem bounded_atom {v : Value} (h : v.isAtom = true) : Bounded (.ok v) :=
  bounded_ok (Value.fits_atom h)

theorem bounded_error (c : Cause) : Bounded (.error c) := nofun

theorem bounded_bind {α : Type} {x : Except Cause α} {f : α → Except Cause Value}
    (h : ∀ a, x = .ok a → Bounded (f a)) : Bounded (x >>= f) := by
  cases x with
  | error c => exact bounded_error c
  | ok a => exact h a rfl

theorem bounded_ite {p : Prop} [Decidable p] {x y : Except Cause Value} (hx : Bounded x)
    (hy : Bounded y) : Bounded (if p then x else y) := by
  split
  · exact hx
  · exact hy

theorem bounded_integerResult (r : Except Integer.Fault Int64) : Bounded (integerResult r) := by
  cases r with
  | error f => exact bounded_error _
  | ok n => exact bounded_atom rfl

theorem bounded_integerOfWhole (n : Int) : Bounded (integerOfWhole n) :=
  bounded_ite (bounded_atom rfl) (bounded_error _)

/-! ## Sequences that are checked -/

theorem add_le_of_joined {a b n : Nat} (h : Sequence.joinedLength a b = .ok n) :
    a + b ≤ maxLength := by
  unfold Sequence.joinedLength at h
  split at h
  · next hle => exact hle
  · cases h

theorem mul_le_of_repeated {length : Nat} {count : Int64} {times total : Nat}
    (h : Sequence.repeatedLength length count = .ok (times, total)) :
    length * times ≤ maxLength := by
  unfold Sequence.repeatedLength at h
  dsimp only at h
  split at h
  · next hle =>
    cases h
    exact hle
  · cases h

theorem utf8ByteSize_copyText (s : String) (n : Nat) (before : String) :
    (Sequence.copyText s n before).utf8ByteSize = before.utf8ByteSize + s.utf8ByteSize * n := by
  induction n generalizing before with
  | zero => simp [Sequence.copyText]
  | succ n ih =>
    rw [Sequence.copyText, ih, String.utf8ByteSize_append, Nat.mul_succ]
    omega

theorem utf8ByteSize_repeatText (s : String) (n : Nat) :
    (Sequence.repeatText s n).utf8ByteSize = s.utf8ByteSize * n := by
  unfold Sequence.repeatText
  split
  · next h => simp [String.isEmpty_iff.mp h]
  · simp [utf8ByteSize_copyText]

theorem length_repeatList {α : Type} (items : List α) (n : Nat) :
    (Sequence.repeatList items n).length = items.length * n := by
  unfold Sequence.repeatList
  split
  · next h => simp [List.isEmpty_iff.mp h]
  · simp [List.length_flatten, Nat.mul_comm]

theorem mem_repeatList {α : Type} {items : List α} {n : Nat} {x : α}
    (h : x ∈ Sequence.repeatList items n) : x ∈ items := by
  unfold Sequence.repeatList at h
  split at h
  · simp at h
  · obtain ⟨l, hl, hx⟩ := List.mem_flatten.mp h
    exact List.eq_of_mem_replicate hl ▸ hx

theorem length_progression (start step : Int) (n : Nat) (after : List Int64) :
    (Sequence.progression start step n after).length = n + after.length := by
  induction n generalizing after with
  | zero => simp [Sequence.progression]
  | succ n ih =>
    rw [Sequence.progression, ih, List.length_cons]
    omega

theorem length_rangeItems {start stop step : Int64} {items : List Int64}
    (h : Sequence.rangeItems start stop step = .ok items) : items.length ≤ maxLength := by
  unfold Sequence.rangeItems at h
  dsimp only at h
  split at h
  · cases h
  · split at h
    · cases h
    · next hle =>
      cases h
      rw [length_progression]
      simpa using hle

theorem bounded_join {x y : List Value} (hx : ∀ v ∈ x, v.Fits) (hy : ∀ v ∈ y, v.Fits) :
    Bounded (do
      let _ ← Sequence.joinedLength x.length y.length
      return .list (x ++ y)) := by
  refine bounded_bind fun n hn => bounded_ok (Value.fits_list.mpr ⟨?_, fun v hv => ?_⟩)
  · rw [List.length_append]
    exact add_le_of_joined hn
  · rcases List.mem_append.mp hv with hv | hv
    · exact hx v hv
    · exact hy v hv

theorem bounded_repeatedText (s : String) (n : Int64) : Bounded (repeatedText s n) := by
  refine bounded_bind fun p hp => bounded_ok (Value.fits_text.mpr ?_)
  rw [utf8ByteSize_repeatText]
  exact mul_le_of_repeated hp

theorem bounded_repeatedList {items : List Value} (h : ∀ v ∈ items, v.Fits) (n : Int64) :
    Bounded (repeatedList items n) := by
  refine bounded_bind fun p hp => bounded_ok (Value.fits_list.mpr ⟨?_, fun v hv => ?_⟩)
  · rw [length_repeatList]
    exact mul_le_of_repeated hp
  · exact h v (mem_repeatList hv)

theorem bounded_rangeList (args : List Value) : Bounded (rangeList args) := by
  have items (r : Except Cause (List Int64)) (hr : ∀ ns, r = .ok ns → ns.length ≤ maxLength) :
      Bounded (do return .list ((← r).map .integer)) := by
    refine bounded_bind fun ns hns => bounded_ok (Value.fits_list.mpr ⟨?_, fun v hv => ?_⟩)
    · rw [List.length_map]
      exact hr ns hns
    · obtain ⟨n, -, rfl⟩ := List.mem_map.mp hv
      exact Value.fits_atom rfl
  refine bounded_bind fun bounds _ => ?_
  split
  · exact items _ fun ns => length_rangeItems
  · exact items _ fun ns => length_rangeItems
  · exact items _ fun ns => length_rangeItems
  · exact items _ nofun

theorem bounded_appendItems {args : List Value} (hargs : ∀ v ∈ args, v.Fits) :
    Bounded (appendItems args) := by
  unfold appendItems
  split
  · exact bounded_error _
  · next items rest =>
    refine bounded_join (Value.fits_list.mp (hargs (.list items) (by simp))).2 fun v hv => ?_
    exact hargs v (List.mem_cons_of_mem _ hv)
  · exact bounded_error _

/-! ## Numbers and parts -/

theorem bounded_operands (operator : String) (a b : Value) {f : Float × Float → Except Cause Value}
    (hf : ∀ p, Bounded (f p)) : Bounded (operands operator a b >>= f) :=
  bounded_bind fun p _ => hf p

theorem bounded_addValues {a b : Value} (ha : a.Fits) (hb : b.Fits) : Bounded (addValues a b) := by
  unfold addValues
  split
  · exact bounded_integerResult _
  · refine bounded_bind fun n hn => bounded_ok (Value.fits_text.mpr ?_)
    rw [String.utf8ByteSize_append]
    exact add_le_of_joined hn
  · exact bounded_join (Value.fits_list.mp ha).2 (Value.fits_list.mp hb).2
  · exact bounded_operands _ _ _ fun _ => bounded_atom rfl

theorem bounded_subValues (a b : Value) : Bounded (subValues a b) := by
  unfold subValues
  split
  · exact bounded_integerResult _
  · exact bounded_operands _ _ _ fun _ => bounded_atom rfl

theorem bounded_negValue (v : Value) : Bounded (negValue v) := by
  unfold negValue
  split
  · exact bounded_integerResult _
  · exact bounded_atom rfl
  · exact bounded_error _

theorem bounded_mulValues {a b : Value} (ha : a.Fits) (hb : b.Fits) : Bounded (mulValues a b) := by
  unfold mulValues
  split
  · exact bounded_integerResult _
  · exact bounded_repeatedText _ _
  · exact bounded_repeatedText _ _
  · exact bounded_repeatedList (Value.fits_list.mp ha).2 _
  · exact bounded_repeatedList (Value.fits_list.mp hb).2 _
  · exact bounded_operands _ _ _ fun _ => bounded_atom rfl

theorem bounded_divValues (a b : Value) : Bounded (divValues a b) :=
  bounded_operands _ _ _ fun _ => bounded_ite (bounded_error _) (bounded_atom rfl)

theorem bounded_floorDivValues (a b : Value) : Bounded (floorDivValues a b) := by
  unfold floorDivValues
  split
  · exact bounded_integerResult _
  · exact bounded_operands _ _ _ fun _ => bounded_ite (bounded_error _) (bounded_atom rfl)

theorem bounded_moduloValues (a b : Value) : Bounded (moduloValues a b) := by
  unfold moduloValues
  split
  · exact bounded_integerResult _
  · exact bounded_operands _ _ _ fun _ => bounded_ite (bounded_error _) (bounded_atom rfl)

/-- What a step bounds, a fold bounds. -/
theorem bounded_foldlM {step : Value → Value → Except Cause Value}
    (hs : ∀ a b, a.Fits → b.Fits → Bounded (step a b)) {vs : List Value}
    (hvs : ∀ v ∈ vs, v.Fits) {v : Value} (hv : v.Fits) : Bounded (vs.foldlM step v) := by
  induction vs generalizing v with
  | nil => exact bounded_ok hv
  | cons w ws ih =>
    rw [List.foldlM_cons]
    refine bounded_bind fun u hu => ih (fun x hx => hvs x (List.mem_cons_of_mem _ hx)) ?_
    exact hs v w hv (hvs w (by simp)) u hu

theorem bounded_combine {empty : Value} {step : Value → Value → Except Cause Value}
    (he : empty.Fits) (hs : ∀ a b, a.Fits → b.Fits → Bounded (step a b)) {args : List Value}
    (hargs : ∀ v ∈ args, v.Fits) : Bounded (combine empty step args) := by
  cases args with
  | nil => exact bounded_ok he
  | cons v vs =>
    exact bounded_foldlM hs (fun x hx => hargs x (List.mem_cons_of_mem _ hx)) (hargs v (by simp))

theorem bounded_extremum (function : String) (wanted : Ordering) {args : List Value}
    (hargs : ∀ v ∈ args, v.Fits) : Bounded (extremum function wanted args) := by
  cases args with
  | nil => exact bounded_error _
  | cons v vs =>
    refine bounded_foldlM (fun a b ha hb => bounded_bind fun o _ => bounded_ok ?_)
      (fun x hx => hargs x (List.mem_cons_of_mem _ hx)) (hargs v (by simp))
    split
    · exact hb
    · exact ha

theorem fits_spread {args : List Value} (hargs : ∀ v ∈ args, v.Fits) :
    ∀ v ∈ spread args, v.Fits := by
  unfold spread
  split
  · next items => exact (Value.fits_list.mp (hargs (.list items) (by simp))).2
  · exact hargs

theorem bounded_toInteger (v : Value) : Bounded (toInteger v) := by
  unfold toInteger
  split
  · exact bounded_atom rfl
  · exact bounded_atom rfl
  · split
    · exact bounded_integerOfWhole _
    · exact bounded_error _
  · split
    · exact bounded_atom rfl
    · exact bounded_error _
  · exact bounded_error _

theorem bounded_toFloat (v : Value) : Bounded (toFloat v) := by
  unfold toFloat
  split
  · exact bounded_atom rfl
  · exact bounded_atom rfl
  · exact bounded_atom rfl
  · split
    · exact bounded_atom rfl
    · exact bounded_error _
  · exact bounded_error _

theorem bounded_lengthOf (v : Value) : Bounded (lengthOf v) := by
  unfold lengthOf
  split
  · exact bounded_atom rfl
  · exact bounded_atom rfl
  · exact bounded_error _

theorem bounded_magnitude (v : Value) : Bounded (magnitude v) := by
  unfold magnitude
  split
  · exact bounded_integerResult _
  · exact bounded_atom rfl
  · exact bounded_error _

theorem bounded_itemAt {sequence : Value} (hs : sequence.Fits) (index : Value) :
    Bounded (itemAt sequence index) := by
  unfold itemAt
  split
  · split
    · split
      · next v hv =>
        obtain ⟨i, -, hi⟩ := Option.bind_eq_some_iff.mp hv
        exact bounded_ok ((Value.fits_list.mp hs).2 v (List.mem_of_getElem? hi))
      · exact bounded_error _
    · split
      · next c _ =>
        refine bounded_ok (Value.fits_text.mpr ?_)
        rw [String.utf8ByteSize_singleton]
        exact Nat.le_trans (Char.utf8Size_le_four c) (by decide)
      · exact bounded_error _
    · exact bounded_error _
  · exact bounded_error _

theorem fits_kind (v : Value) : (Value.text v.kind.name).Fits := by
  rw [Value.fits_text]
  cases v.kind <;> decide

/-! ## Calls -/

/-- A function of one argument. -/
theorem bounded_oneArgument {function : String} {args : List Value} {f : Value → Except Cause Value}
    (hf : ∀ v, Bounded (f v)) : Bounded (oneArgument function args >>= f) :=
  bounded_bind fun v _ => hf v

/-- A function of two arguments. -/
theorem bounded_twoArguments {function : String} {args : List Value}
    {f : Value × Value → Except Cause Value} (hargs : ∀ v ∈ args, v.Fits)
    (hf : ∀ a b, a.Fits → Bounded (f (a, b))) : Bounded (twoArguments function args >>= f) := by
  refine bounded_bind fun p hp => ?_
  unfold twoArguments at hp
  split at hp
  · next a b =>
    cases hp
    exact hf a b (hargs a (by simp))
  · cases hp

theorem bounded_ordered (operator : String) (accept : Ordering → Bool) (args : List Value) :
    Bounded (ordered operator accept args) :=
  bounded_bind fun _ _ => bounded_bind fun _ _ => bounded_atom rfl

/-- The call makes a quoted text: `str` gives a text as it is, and quotes everything else. -/
def Quotes (n : Native) (args : List Value) : Prop :=
  n = .repr ∨ n = .str ∧ ∃ v ∈ args, ∀ s, v ≠ .text s

theorem bounded_display {args : List Value} (hargs : ∀ v ∈ args, v.Fits)
    (hquotes : ¬ Quotes .str args) :
    Bounded (do return .text (← oneArgument "str" args).display) := by
  refine bounded_bind fun v hv => ?_
  unfold oneArgument at hv
  split at hv
  · next w =>
    cases hv
    by_cases htext : ∃ s, v = .text s
    · obtain ⟨s, rfl⟩ := htext
      exact bounded_ok (hargs (.text s) (by simp))
    · exact absurd (.inr ⟨rfl, v, by simp, fun s hs => htext ⟨s, hs⟩⟩) hquotes
  · cases hv

/-- What a builtin without effects computes fits, unless it quotes values. -/
theorem bounded_compute? {n : Native} (hn : n ∈ Native.builtins) {args : List Value}
    (hquotes : ¬ Quotes n args) (hlength : args.length ≤ maxLength) (hargs : ∀ v ∈ args, v.Fits)
    {r : Except Cause Value} (h : n.compute? args = some r) : Bounded r := by
  cases n <;> simp only [compute?, Option.some.injEq, reduceCtorEq] at h <;> subst h
  case str => exact bounded_display hargs hquotes
  case repr => exact absurd (.inl rfl) hquotes
  case sqrt | floor | ceil | pow => exact absurd hn (by decide)
  case int => exact bounded_oneArgument bounded_toInteger
  case float => exact bounded_oneArgument bounded_toFloat
  case len => exact bounded_oneArgument bounded_lengthOf
  case list => exact bounded_ok (Value.fits_list.mpr ⟨hlength, hargs⟩)
  case nth => exact bounded_twoArguments hargs fun a b ha => bounded_itemAt ha b
  case append => exact bounded_appendItems hargs
  case range => exact bounded_rangeList args
  case type => exact bounded_oneArgument fun v => bounded_ok (fits_kind v)
  case abs => exact bounded_oneArgument bounded_magnitude
  case min | max => exact bounded_extremum _ _ (fits_spread hargs)
  case not => exact bounded_oneArgument fun v => bounded_atom rfl
  case add =>
    exact bounded_combine (Value.fits_atom rfl) (fun a b ha hb => bounded_addValues ha hb) hargs
  case sub =>
    split
    · exact bounded_negValue _
    · refine bounded_bind fun _ _ => ?_
      exact bounded_combine (Value.fits_atom rfl) (fun a b _ _ => bounded_subValues a b) hargs
  case mul =>
    exact bounded_combine (Value.fits_atom rfl) (fun a b ha hb => bounded_mulValues ha hb) hargs
  case div =>
    refine bounded_bind fun _ _ => ?_
    exact bounded_combine (Value.fits_atom rfl) (fun a b _ _ => bounded_divValues a b) hargs
  case floorDiv => exact bounded_twoArguments hargs fun a b _ => bounded_floorDivValues a b
  case modulo => exact bounded_twoArguments hargs fun a b _ => bounded_moduloValues a b
  case eq => exact bounded_bind fun _ _ => bounded_atom rfl
  case ne => exact bounded_twoArguments hargs fun a b _ => bounded_atom rfl
  case lt | gt | le | ge => exact bounded_ordered _ _ _

/-- The builtins that talk to the host. -/
theorem asks_of_compute? {n : Native} (hn : n ∈ Native.builtins) {args : List Value}
    (h : n.compute? args = none) : n = .print ∨ n = .input ∨ n = .sleep ∨ n = .readFile := by
  cases n <;> simp_all [compute?, Native.builtins]

/-- How a call of a builtin ends that makes nothing too large: with a value that fits, with an
exception, or, if it reports something to the host, with a signal in place of the answer. -/
inductive Settled (n : Native) : Except Abort (Except Exit Value) → Prop where
  | returned {v : Value} (h : v.Fits) : Settled n (.ok (.ok v))
  | raised (c : Cause) : Settled n (.ok (.error (.raise (.ofCause c))))
  | stopped (h : n = .print ∨ n = .sleep) (s : Signal) : Settled n (.ok (.error (.stop s)))

section

variable {σ : Type} (h : Host σ) (m : Machine) (t : σ)

theorem settled_ofCause (n : Native) {r : Except Cause Value} (hr : Bounded r) :
    Settled n ((Script.ofCause r m).run h t).1 := by
  cases r with
  | error c => exact .raised c
  | ok v => exact .returned (hr v rfl)

/-- A question to the host with nothing to return behind it. -/
theorem settled_ask {n : Native} (hn : n = .print ∨ n = .sleep) (q : Query) :
    Settled n (((Script.ask q >>= fun _ => pure Value.nil : Script Value) m).run h t).1 := by
  change Settled n (Dialogue.run h (Dialogue.bind (.done (Script.heed (h.reply t q).1) m) _) _).1
  cases (h.reply t q).1 with
  | ok a => exact .returned (Value.fits_atom rfl)
  | error s => exact .stopped hn s

theorem settled_sleep (args : List Value) :
    Settled .sleep (((Native.sleep).call args m).run h t).1 := by
  change Settled .sleep (((Script.ofCause (sleepSeconds args) >>= fun seconds =>
    Script.ask (.sleep (milliseconds seconds)) >>= fun _ => pure Value.nil : Script Value) m).run
      h t).1
  cases sleepSeconds args with
  | error c => exact .raised c
  | ok seconds => exact settled_ask h m t (.inr rfl) _

/-- Builtins return nothing larger than the limit if their arguments are not, apart from calls that
quote values, and from builtins that return what the host gave. Where they return nothing, they
raise. -/
theorem call_fits {n : Native} (hn : n ∈ Native.builtins) (hinput : n ≠ .input)
    (hfile : n ≠ .readFile) {args : List Value} (hquotes : ¬ Quotes n args)
    (hlength : args.length ≤ maxLength) (hargs : ∀ v ∈ args, v.Fits) :
    Settled n ((n.call args m).run h t).1 := by
  cases hr : n.compute? args with
  | some r =>
    rw [call_of_compute hr]
    exact settled_ofCause h m t n (bounded_compute? hn hquotes hlength hargs hr)
  | none =>
    rcases asks_of_compute? hn hr with rfl | rfl | rfl | rfl
    · exact settled_ask h m t (.inl rfl) _
    · exact absurd rfl hinput
    · exact settled_sleep h m t args
    · exact absurd rfl hfile

end

/-- A text of the greatest length that builtins make. -/
def longest : String := String.ofList (List.replicate maxLength 'a')

theorem utf8ByteSize_replicate (n : Nat) :
    (String.ofList (List.replicate n 'a')).utf8ByteSize = n := by
  induction n with
  | zero => rfl
  | succ n ih =>
    rw [List.replicate_succ, String.ofList_cons, String.utf8ByteSize_append, ih,
      String.utf8ByteSize_singleton]
    exact Nat.add_comm 1 n

theorem fits_longest : (Value.text longest).Fits :=
  Value.fits_text.mpr (Nat.le_of_eq (utf8ByteSize_replicate maxLength))

/-- A list that gets a text as long as texts can be. -/
theorem call_fits_append :
    Settled .append ((Native.append.call [.list [], .text longest] (Machine.start ⟨"", "", []⟩)).run
      Host.obliging ()).1 := by
  refine call_fits Host.obliging _ () (by decide) (by decide) (by decide) (by simp [Quotes])
    (by decide : 2 ≤ maxLength) fun v hv => ?_
  rcases List.mem_cons.mp hv with rfl | hv
  · exact Value.fits_list.mpr ⟨Nat.zero_le _, fun v hv => nomatch hv⟩
  · exact List.mem_singleton.mp hv ▸ fits_longest

/-! ## Quoted texts -/

theorem utf8ByteSize_quoteChar (c : Char) :
    c.utf8Size ≤ (String.ofList (quoteChar c)).utf8ByteSize := by
  unfold quoteChar
  split
  · next h => subst h; decide
  · split
    · next h => subst h; decide
    · split
      · next h => subst h; decide
      · split
        · next h => subst h; decide
        · exact Nat.le_of_eq String.utf8ByteSize_singleton.symm

theorem utf8ByteSize_quoteChars (cs : List Char) :
    (String.ofList cs).utf8ByteSize ≤ (String.ofList (cs.flatMap quoteChar)).utf8ByteSize := by
  induction cs with
  | nil => exact Nat.le_refl _
  | cons c cs ih =>
    rw [List.flatMap_cons, String.ofList_append, String.ofList_cons, String.utf8ByteSize_append,
      String.utf8ByteSize_append, String.utf8ByteSize_singleton]
    exact Nat.add_le_add (utf8ByteSize_quoteChar c) ih

/-- Quotes make a text longer, whatever is in it. -/
theorem utf8ByteSize_quoteText (s : String) :
    s.utf8ByteSize + 2 ≤ (quoteText s).utf8ByteSize := by
  have h := utf8ByteSize_quoteChars s.toList
  rw [String.ofList_toList] at h
  have hquote : "\"".utf8ByteSize = 1 := by decide
  unfold quoteText
  rw [String.utf8ByteSize_append, String.utf8ByteSize_append, hquote]
  omega

/-- The quoted text of a text that is nearly as long as texts can be does not fit. -/
theorem not_settled_repr {σ : Type} (h : Host σ) (m : Machine) (t : σ) {s : String}
    (hs : maxLength < s.utf8ByteSize + 2) :
    ¬ Settled .repr ((Native.repr.call [.text s] m).run h t).1 := by
  have hcall : ((Native.repr.call [.text s] m).run h t).1 = .ok (.ok (.text (quoteText s))) := by
    rw [call_of_compute (r := .ok (.text (quoteText s))) (by rw [compute?]; rfl)]
    rfl
  intro hsettled
  rw [hcall] at hsettled
  cases hsettled with
  | returned hfits =>
    have hquoted := utf8ByteSize_quoteText s
    rw [Value.fits_text] at hfits
    omega

/-- `repr` makes a text that does not fit of one that does. -/
theorem repr_exceeds :
    (Value.text longest).Fits ∧
      ¬ Settled .repr ((Native.repr.call [.text longest] (Machine.start ⟨"", "", []⟩)).run
        Host.obliging ()).1 := by
  refine ⟨fits_longest, not_settled_repr Host.obliging _ () ?_⟩
  rw [longest, utf8ByteSize_replicate]
  decide

end Native
end Lispbox
