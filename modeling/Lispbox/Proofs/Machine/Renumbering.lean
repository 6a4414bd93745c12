import Lispbox.Proofs.Machine.Stored
import Lispbox.Run.Interpreter
import Lispbox.Value.Display

/-!
# Other serial numbers

Module objects and deferred bodies are told from one another by their serial numbers, which mean
nothing else. A `Numbering` replaces the numbers from `base` on by others: different ones stay
different, and numbers that come one after another still do. It can be applied to values
(`Value.renumber`) and to states (`Machine.renumber`). No script can tell the difference: the texts
of values are the same, and so is what they are equal to. Every change of a state is the same
change with the other numbers.

* `Value.repr_renumber`, `Value.same_renumber`: what scripts see of values.
* `Value.renumber_eq_self`: values of objects with numbers below `base`.
* `Machine.lookup?_renumber`, `Machine.traceback_renumber`: what is read from a state.
* `Machine.advance_renumber`: a number is given away.
-/
namespace Lispbox

/-- Other numbers from `base` on. -/
structure Numbering where
  number : Nat → Nat
  base : Nat
  injective : ∀ m n, number m = number n → m = n
  old : ∀ n, n < base → number n = n
  next : ∀ n, base ≤ n → number (n + 1) = number n + 1

/-- From the base on the numbers are higher by some number. -/
def Numbering.shift (base d : Nat) : Numbering where
  number n := if n < base then n else n + d
  base := base
  injective m n h := by
    split at h <;> split at h <;> omega
  old n h := if_pos h
  next n h := by
    have hnext : ¬n + 1 < base := by omega
    rw [if_neg hnext, if_neg (Nat.not_lt.mpr h)]
    omega

variable {c : Numbering}

/-! ## Values -/

mutual
/-- The value with other serial numbers. -/
def Value.renumber (c : Numbering) : Value → Value
  | .nil => .nil
  | .bool b => .bool b
  | .integer n => .integer n
  | .float x => .float x
  | .text s => .text s
  | .list items => .list (renumberItems c items)
  | .function d home scope => .function d home scope
  | .native n => .native n
  | .module serial name members => .module (c.number serial) name (renumberBindings c members)
  | .deferred serial body locals file scope =>
    .deferred (c.number serial) body (renumberBindings c locals) file scope

/-- Values with other serial numbers. -/
def renumberItems (c : Numbering) : List Value → List Value
  | [] => []
  | v :: vs => v.renumber c :: renumberItems c vs

/-- Values that are bound, with other serial numbers. -/
def renumberBindings (c : Numbering) : List (String × Value) → List (String × Value)
  | [] => []
  | (name, v) :: bs => (name, v.renumber c) :: renumberBindings c bs
end

/-- Bindings with other serial numbers. -/
def Bindings.renumber (c : Numbering) (bs : Bindings) : Bindings :=
  bs.map fun b => (b.1, b.2.renumber c)

theorem renumberItems_eq (vs : List Value) : renumberItems c vs = vs.map (Value.renumber c) := by
  induction vs with
  | nil => rfl
  | cons v vs ih => rw [renumberItems, ih, List.map_cons]

theorem renumberBindings_eq (bs : Bindings) : renumberBindings c bs = bs.renumber c := by
  induction bs with
  | nil => rfl
  | cons b bs ih => rw [renumberBindings, ih]; rfl

namespace Value

/-- A fact about all values, by induction on their parts. -/
theorem byParts {motive : Value → Prop}
    (step : ∀ v : Value, (∀ w ∈ v.parts, motive w) → motive v) (v : Value) : motive v :=
  step v fun w _ => byParts step w
termination_by sizeOf v
decreasing_by exact sizeOf_part ‹_›

@[simp] theorem renumber_list (items : List Value) :
    (list items).renumber c = .list (items.map (renumber c)) := by
  rw [renumber, renumberItems_eq]

@[simp] theorem renumber_module (serial : Nat) (name : String) (members : Bindings) :
    (module serial name members).renumber c =
      .module (c.number serial) name (members.renumber c) := by
  rw [renumber, renumberBindings_eq]

@[simp] theorem renumber_deferred (serial : Nat) (body : Block) (locals : Bindings)
    (file : String) (scope : Nat) :
    (deferred serial body locals file scope).renumber c =
      .deferred (c.number serial) body (locals.renumber c) file scope := by
  rw [renumber, renumberBindings_eq]

variable (v w : Value)

@[simp] theorem kind_renumber : (v.renumber c).kind = v.kind := by
  cases v <;> rfl

@[simp] theorem isTrue_renumber : (v.renumber c).isTrue = v.isTrue := by
  cases v with
  | list items => cases items <;> rfl
  | _ => rfl

@[simp] theorem toFloat?_renumber : (v.renumber c).toFloat? = v.toFloat? := by
  cases v <;> rfl

theorem reprItems_eq (items : List Value) : reprItems items = items.map Value.repr := by
  induction items with
  | nil => rfl
  | cons v vs ih => rw [reprItems, ih, List.map_cons]

@[simp] theorem repr_renumber : (v.renumber c).repr = v.repr := by
  induction v using Value.byParts with
  | step v ih =>
    cases v with
    | list items =>
      rw [renumber_list, repr, repr, reprItems_eq, reprItems_eq, List.map_map]
      exact congrArg (fun texts => "[" ++ ", ".intercalate texts ++ "]")
        (List.map_congr_left ih)
    | _ => rfl

@[simp] theorem display_renumber : (v.renumber c).display = v.display := by
  cases v with
  | text s => rfl
  | list items =>
    have hrepr := repr_renumber (c := c) (.list items)
    rw [renumber_list] at hrepr ⊢
    exact hrepr
  | _ => rfl

/-- Lists of values that are told from others as before are so too. -/
theorem sameItems_renumber {vs : List Value} (ws : List Value)
    (h : ∀ v ∈ vs, ∀ w, (renumber c v).same (w.renumber c) = v.same w) :
    sameItems (vs.map (renumber c)) (ws.map (renumber c)) = sameItems vs ws := by
  induction vs generalizing ws with
  | nil => cases ws <;> rfl
  | cons v vs ih =>
    obtain ⟨hv, hvs⟩ := List.forall_mem_cons.mp h
    cases ws with
    | nil => rfl
    | cons w ws => rw [List.map_cons, List.map_cons, sameItems, sameItems, hv w, ih ws hvs]

/-- Objects are told from one another as before. -/
@[simp] theorem same_renumber : (v.renumber c).same (w.renumber c) = v.same w := by
  induction v using Value.byParts generalizing w with
  | step v ih =>
    have object (s t : Nat) : (c.number s == c.number t) = (s == t) := by
      rw [Bool.eq_iff_iff, beq_iff_eq, beq_iff_eq]
      exact ⟨c.injective s t, congrArg c.number⟩
    cases v with
    | list items =>
      cases w with
      | list items' =>
        rw [renumber_list, renumber_list, same, same]
        exact sameItems_renumber items' ih
      | _ => rfl
    | module serial name members =>
      cases w with
      | module serial' name' members' => exact object serial serial'
      | _ => rfl
    | deferred serial body locals file scope =>
      cases w with
      | deferred serial' body' locals' file' scope' => exact object serial serial'
      | _ => rfl
    | _ => cases w <;> rfl

end Value

/-! ## Objects with old numbers -/

theorem le_serialBoundItems {v : Value} {vs : List Value} (h : v ∈ vs) :
    v.serialBound ≤ serialBoundItems vs := by
  induction vs with
  | nil => cases h
  | cons w ws ih =>
    rcases List.mem_cons.mp h with rfl | h
    · exact Nat.le_max_left _ _
    · exact Nat.le_trans (ih h) (Nat.le_max_right _ _)

theorem le_serialBoundBindings {v : Value} {bs : Bindings} (h : v ∈ bs.values) :
    v.serialBound ≤ serialBoundBindings bs := by
  induction bs with
  | nil => cases h
  | cons b bs ih =>
    rcases List.mem_cons.mp h with rfl | h
    · exact Nat.le_max_left _ _
    · exact Nat.le_trans (ih h) (Nat.le_max_right _ _)

/-- Bindings of values that keep their numbers. -/
theorem Bindings.renumber_eq_self {bs : Bindings} (h : ∀ v ∈ bs.values, v.renumber c = v) :
    bs.renumber c = bs := by
  have hb : ∀ b ∈ bs, (b.1, b.2.renumber c) = b := fun b hb => by
    rw [h b.2 (List.mem_map_of_mem hb)]
  rw [renumber, List.map_congr_left hb, List.map_id']

/-- Objects with old numbers keep them. -/
theorem Value.renumber_eq_self {v : Value} (h : v.serialBound ≤ c.base) : v.renumber c = v := by
  induction v using Value.byParts with
  | step v ih =>
    cases v with
    | list items =>
      have hitems : ∀ w ∈ items, w.renumber c = w := fun w hw =>
        ih w hw (Nat.le_trans (le_serialBoundItems hw) h)
      rw [renumber_list, List.map_congr_left hitems, List.map_id']
    | module serial name members =>
      obtain ⟨hserial, hmembers⟩ := Nat.max_le.mp h
      have hvalues : ∀ w ∈ Bindings.values members, w.renumber c = w := fun w hw =>
        ih w hw (Nat.le_trans (le_serialBoundBindings hw) hmembers)
      rw [renumber_module, c.old serial hserial, Bindings.renumber_eq_self hvalues]
    | deferred serial body locals file scope =>
      obtain ⟨hserial, hlocals⟩ := Nat.max_le.mp h
      have hvalues : ∀ w ∈ Bindings.values locals, w.renumber c = w := fun w hw =>
        ih w hw (Nat.le_trans (le_serialBoundBindings hw) hlocals)
      rw [renumber_deferred, c.old serial hserial, Bindings.renumber_eq_self hvalues]
    | _ => rfl

theorem Registry.le_serialBound {r : Registry} {m : Module} (h : m ∈ r.modules) :
    m.serialBound ≤ r.serialBound := by
  obtain ⟨modules⟩ := r
  induction modules with
  | nil => cases h
  | cons m' ms ih =>
    rcases List.mem_cons.mp h with rfl | h
    · exact Nat.le_max_left _ _
    · exact Nat.le_trans (ih h) (Nat.le_max_right _ _)

/-- The members of modules have old numbers. -/
theorem Registry.renumber_members {r : Registry} (hr : r.serialBound ≤ c.base) {name s : String}
    {members : Bindings} (h : r.get? name = some ⟨s, .native members⟩) :
    members.renumber c = members := by
  have hmembers : serialBoundBindings members ≤ c.base :=
    Nat.le_trans (Registry.le_serialBound (List.mem_of_find?_eq_some h)) hr
  exact Bindings.renumber_eq_self fun v hv =>
    Value.renumber_eq_self (Nat.le_trans (le_serialBoundBindings hv) hmembers)

/-! ## Bindings -/

namespace Bindings

variable (bs : Bindings) (name : String) (v : Value)

@[simp] theorem get?_renumber :
    (bs.renumber c).get? name = (bs.get? name).map (Value.renumber c) := by
  induction bs with
  | nil => rfl
  | cons b bs ih =>
    obtain ⟨n, w⟩ := b
    simp only [get?, renumber, List.map_cons, List.lookup_cons] at ih ⊢
    cases name == n with
    | true => rfl
    | false => exact ih

@[simp] theorem set_renumber :
    (bs.renumber c).set name (v.renumber c) = (bs.set name v).renumber c := by
  induction bs with
  | nil => rfl
  | cons b bs ih =>
    obtain ⟨n, w⟩ := b
    simp only [renumber, List.map_cons, set] at ih ⊢
    split
    · rfl
    · rw [ih, List.map_cons]

theorem zip_renumber (names : List String) (vs : List Value) :
    names.zip (vs.map (Value.renumber c)) = renumber c (names.zip vs) := by
  rw [List.zip_map_right]
  rfl

end Bindings

/-! ## States -/

/-- The frame with other serial numbers. -/
def Frame.renumber (c : Numbering) (f : Frame) : Frame :=
  { f with locals := f.locals.map (Bindings.renumber c) }

/-- The namespace with other serial numbers. -/
def Namespace.renumber (c : Numbering) (n : Namespace) : Namespace :=
  { n with bindings := n.bindings.renumber c }

/-- The state with other serial numbers. -/
def Machine.renumber (c : Numbering) (m : Machine) : Machine :=
  { m with
    namespaces := m.namespaces.map (Namespace.renumber c)
    frames := m.frames.map (Frame.renumber c)
    loaded := m.loaded.renumber c
    serial := c.number m.serial }

namespace Machine

variable (m : Machine) (name : String) (v : Value)

/-! ### What is read -/

theorem frames_renumber : (m.renumber c).frames = m.frames.map (Frame.renumber c) := rfl

theorem namespace_renumber (i : Nat) :
    (m.renumber c).namespaces[i]? = m.namespaces[i]?.map (Namespace.renumber c) :=
  List.getElem?_map

theorem globals_renumber : (m.renumber c).globals = m.globals.renumber c := by
  obtain ⟨namespaces, -⟩ := m
  cases namespaces <;> rfl

theorem globalsOf_renumber (f : Frame) :
    (m.renumber c).globalsOf (f.renumber c) = (m.globalsOf f).renumber c := by
  have hscope : (f.renumber c).scope = f.scope := rfl
  unfold globalsOf
  rw [hscope, namespace_renumber]
  cases m.namespaces[f.scope]? <;> rfl

theorem locals_renumber (f : Frame) :
    (f.renumber c).locals.getD [] = Bindings.renumber c (f.locals.getD []) := by
  rw [Frame.renumber]
  cases f.locals <;> rfl

theorem lookup?_renumber :
    (m.renumber c).lookup? name = (m.lookup? name).map (Value.renumber c) := by
  unfold lookup?
  rw [frames_renumber, List.head?_map]
  cases m.frames.head? with
  | none => cases Native.builtin? name <;> rfl
  | some f =>
    simp only [Option.map_some, Option.bind_some, locals_renumber, globalsOf_renumber,
      Bindings.get?_renumber]
    cases (f.locals.getD []).get? name with
    | some v => rfl
    | none =>
      simp only [Option.map_none]
      cases (m.globalsOf f).get? name with
      | some v => rfl
      | none => cases Native.builtin? name <;> rfl

theorem traceback_renumber : (m.renumber c).traceback = m.traceback := by
  unfold traceback
  rw [frames_renumber, ← List.map_reverse, List.map_map]
  rfl

/-- Whose code is executed. -/
theorem code_renumber : (m.renumber c).file = m.file ∧ (m.renumber c).scope = m.scope ∧
    (m.renumber c).home = m.home := by
  have hscope : (m.renumber c).scope = m.scope := by
    unfold scope
    rw [frames_renumber]
    cases m.frames <;> rfl
  refine ⟨?_, hscope, ?_⟩
  · unfold file
    rw [frames_renumber]
    cases m.frames <;> rfl
  · unfold home
    rw [hscope, namespace_renumber]
    cases m.namespaces[m.scope]? <;> rfl

theorem ownLocals_renumber : (m.renumber c).locals = m.locals.renumber c := by
  unfold locals
  rw [frames_renumber]
  cases m.frames with
  | nil => rfl
  | cons f fs => exact locals_renumber f

/-! ### What is changed -/

/-- An item is changed before or after all of them are. -/
theorem modify_map {α β : Type} {f : α → β} {g : α → α} {k : β → β}
    (h : ∀ a, k (f a) = f (g a)) (as : List α) (i : Nat) :
    (as.map f).modify i k = (as.modify i g).map f := by
  induction as generalizing i with
  | nil => cases i <;> rfl
  | cons a as ih =>
    cases i with
    | zero => simp [h]
    | succ i => simp [ih]

theorem setGlobal_renumber (scope : Nat) :
    (m.renumber c).setGlobal scope name (v.renumber c) = (m.setGlobal scope name v).renumber c := by
  have hset (n : Namespace) : (⟨n.home, n.file, (n.bindings.renumber c).set name (v.renumber c)⟩ :
      Namespace) = Namespace.renumber c ⟨n.home, n.file, n.bindings.set name v⟩ := by
    rw [Bindings.set_renumber]
    rfl
  have hspaces := modify_map (f := Namespace.renumber c)
    (g := fun n => { n with bindings := n.bindings.set name v })
    (k := fun n => { n with bindings := n.bindings.set name (v.renumber c) }) hset
    m.namespaces scope
  exact congrArg (fun ns => { m.renumber c with namespaces := ns }) hspaces

theorem withTop_renumber (f : Frame) :
    (m.renumber c).withTop (f.renumber c) = (m.withTop f).renumber c := by
  unfold withTop
  rw [frames_renumber, ← List.map_drop]
  rfl

theorem setLine_renumber (line : Nat) :
    (m.renumber c).setLine line = (m.setLine line).renumber c := by
  unfold setLine
  rw [frames_renumber]
  cases m.frames with
  | nil => rfl
  | cons f fs => exact withTop_renumber m { f with line := line }

theorem reportFrom_renumber (line : Nat) :
    (m.renumber c).reportFrom line = (m.reportFrom line).renumber c := by
  unfold reportFrom
  rw [frames_renumber]
  cases m.frames with
  | nil => rfl
  | cons f fs => exact withTop_renumber m { f with line := line, reported := some line }

/-- The innermost frame gets a local. -/
theorem withLocal_renumber (f : Frame) (locals : Bindings) :
    (m.renumber c).withTop { f with
      locals := some (Bindings.set name (v.renumber c) (locals.renumber c)) } =
      (m.withTop { f with locals := some (locals.set name v) }).renumber c := by
  rw [Bindings.set_renumber]
  exact withTop_renumber m { f with locals := some (locals.set name v) }

theorem bind_renumber : (m.renumber c).bind name (v.renumber c) = (m.bind name v).renumber c := by
  unfold bind
  rw [frames_renumber]
  cases m.frames with
  | nil => rfl
  | cons f fs =>
    obtain ⟨function, file, line, reported, locals, scope⟩ := f
    cases locals with
    | none => exact setGlobal_renumber m name v scope
    | some locals =>
      exact withLocal_renumber m name v ⟨function, file, line, reported, none, scope⟩ locals

theorem assign?_renumber : (m.renumber c).assign? name (v.renumber c) =
    (m.assign? name v).map (renumber c) := by
  have bound (bs : Bindings) : ((bs.renumber c).get? name).isSome = (bs.get? name).isSome := by
    rw [Bindings.get?_renumber, Option.isSome_map]
  unfold assign?
  rw [frames_renumber]
  cases m.frames with
  | nil => rfl
  | cons f fs =>
    obtain ⟨function, file, line, reported, locals, scope⟩ := f
    simp only [List.map_cons, globalsOf_renumber, bound]
    cases locals with
    | none =>
      dsimp only [Frame.renumber, Option.map_none]
      split
      · exact congrArg some (setGlobal_renumber m name v scope)
      · rfl
    | some locals =>
      dsimp only [Frame.renumber, Option.map_some]
      rw [bound]
      split
      · exact congrArg some
          (withLocal_renumber m name v ⟨function, file, line, reported, none, scope⟩ locals)
      · split
        · exact congrArg some (setGlobal_renumber m name v scope)
        · rfl

theorem pop_renumber : (m.renumber c).pop = m.pop.renumber c := by
  unfold pop
  rw [frames_renumber, ← List.map_drop]
  rfl

theorem openModule_renumber (p : Program) :
    (m.renumber c).openModule name p = (m.openModule name p).renumber c := by
  simp [openModule, renumber, Namespace.renumber, Bindings.renumber]

theorem remember_renumber :
    (m.renumber c).remember name (v.renumber c) = (m.remember name v).renumber c := by
  simp [remember, renumber]

/-- A number that is given away is followed by the next one. -/
theorem advance_renumber (h : c.base ≤ m.serial) :
    (m.renumber c).advance = m.advance.renumber c := by
  simp [advance, renumber, c.next m.serial h]

end Machine
end Lispbox
