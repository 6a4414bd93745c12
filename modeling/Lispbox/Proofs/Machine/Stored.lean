import Lispbox.Proofs.Machine.Frames

/-!
# The values that a run holds

A value is made of parts: the items of a list, the members of a module, the locals that a deferred
body was created under. `Value.All P v` says that `P` holds of `v` and of all its parts, to any
depth.

`Machine.Stores m v` says that `v` is bound somewhere in the state: to a global, to a local of any
frame, or to a module that was imported. Every change of the state stores what was stored before and
at most the one value that it is about; what a name is looked up to be is stored, or is a builtin.
-/
namespace Lispbox

/-- The values that are bound. -/
def Bindings.values (bs : Bindings) : List Value := bs.map Prod.snd

/-- What a value is made of. -/
def Value.parts : Value → List Value
  | .list items => items
  | .module _ _ members => Bindings.values members
  | .deferred _ _ locals _ _ => Bindings.values locals
  | _ => []

/-- Values that can be executed. -/
def Value.isCode : Value → Bool
  | .function _ _ _ | .native _ | .deferred _ _ _ _ _ => true
  | _ => false

/-- The value and all its parts, to any depth, are as required. -/
inductive Value.All (P : Value → Prop) : Value → Prop where
  | of {v : Value} (self : P v) (parts : ∀ w ∈ v.parts, Value.All P w) : Value.All P v

namespace Value

variable {P Q : Value → Prop} {v : Value}

theorem All.self : v.All P → P v
  | .of h _ => h

theorem All.part : v.All P → ∀ w ∈ v.parts, w.All P
  | .of _ h => h

theorem All.mono (h : ∀ v, P v → Q v) (hv : v.All P) : v.All Q := by
  induction hv with
  | of self _ ih => exact .of (h _ self) ih

theorem sizeOf_values {bs : Bindings} {w : Value} (h : w ∈ bs.values) : sizeOf w < sizeOf bs := by
  obtain ⟨b, hb, rfl⟩ := List.mem_map.mp h
  have hlt := List.sizeOf_lt_of_mem hb
  cases b
  simp only [Prod.mk.sizeOf_spec] at hlt ⊢
  omega

/-- A value is larger than its parts. -/
theorem sizeOf_part {v w : Value} (h : w ∈ v.parts) : sizeOf w < sizeOf v := by
  cases v with
  | list items =>
    have hlt : sizeOf w < sizeOf items := List.sizeOf_lt_of_mem h
    simp only [list.sizeOf_spec]
    omega
  | module serial name members =>
    have hlt := sizeOf_values h
    simp only [module.sizeOf_spec]
    omega
  | deferred serial body locals file scope =>
    have hlt := sizeOf_values h
    simp only [deferred.sizeOf_spec]
    omega
  | _ => simp [parts] at h

/-- What every value satisfies, every value satisfies with all its parts. -/
theorem all_of_forall (h : ∀ v, P v) (v : Value) : v.All P :=
  .of (h v) fun w _ => all_of_forall h w
termination_by sizeOf v
decreasing_by exact sizeOf_part ‹_›

end Value

namespace Bindings

theorem mem_values_of_get? {bs : Bindings} {name : String} {v : Value}
    (h : bs.get? name = some v) : v ∈ bs.values := by
  induction bs with
  | nil => simp [get?] at h
  | cons b bs ih =>
    obtain ⟨n, w⟩ := b
    simp only [get?, List.lookup_cons] at h
    split at h
    · simp only [Option.some.injEq] at h
      simp [values, h]
    · exact List.mem_cons_of_mem _ (ih h)

theorem mem_values_set {bs : Bindings} {name : String} {v w : Value}
    (h : w ∈ (bs.set name v).values) : w = v ∨ w ∈ bs.values := by
  induction bs with
  | nil => left; simpa [set, values] using h
  | cons b bs ih =>
    obtain ⟨n, u⟩ := b
    simp only [set] at h
    split at h
    · rcases List.mem_cons.mp h with rfl | h
      · exact .inl rfl
      · exact .inr (List.mem_cons_of_mem _ h)
    · rcases List.mem_cons.mp h with rfl | h
      · exact .inr (by simp [values])
      · exact (ih h).imp_right (List.mem_cons_of_mem _)

theorem mem_zip_values {names : List String} {vs : List Value} {v : Value}
    (h : v ∈ values (names.zip vs)) : v ∈ vs := by
  obtain ⟨b, hb, rfl⟩ := List.mem_map.mp h
  exact (List.of_mem_zip hb).2

end Bindings

/-- The values of the locals. -/
def Frame.values (f : Frame) : List Value := Bindings.values (f.locals.getD [])

namespace Machine

/-- The value is bound somewhere. -/
def Stores (m : Machine) (v : Value) : Prop :=
  (∃ n ∈ m.namespaces, v ∈ n.bindings.values) ∨ (∃ f ∈ m.frames, v ∈ f.values) ∨
    v ∈ m.loaded.values

variable {m m' : Machine} {v w : Value} {name : String}

theorem stores_locals (h : w ∈ m.locals.values) : m.Stores w := by
  unfold locals at h
  split at h
  · next f fs hf => exact .inr (.inl ⟨f, by simp [hf], h⟩)
  · simp [Bindings.values] at h

theorem stores_of_namespace {i : Nat} {n : Namespace} (hn : m.namespaces[i]? = some n)
    (h : w ∈ n.bindings.values) : m.Stores w :=
  .inl ⟨n, List.mem_of_getElem? hn, h⟩

theorem stores_loaded (h : m.loaded.get? name = some w) : m.Stores w :=
  .inr (.inr (Bindings.mem_values_of_get? h))

/-- A global that the frame sees. -/
theorem stores_global {f : Frame} (h : (m.globalsOf f).get? name = some w) : m.Stores w := by
  unfold globalsOf at h
  split at h
  · next n hn => exact stores_of_namespace hn (Bindings.mem_values_of_get? h)
  · simp [Bindings.get?] at h

theorem stores_of_lookup (h : m.lookup? name = some w) :
    m.Stores w ∨ ∃ n ∈ Native.builtins, w = .native n := by
  simp only [lookup?] at h
  split at h
  · next u hb =>
    cases h
    left
    obtain ⟨f, hf, hv⟩ := Option.bind_eq_some_iff.mp hb
    split at hv
    · next u hu =>
      cases hv
      obtain ⟨fs, hfs⟩ := List.head?_eq_some_iff.mp hf
      exact .inr (.inl ⟨f, by simp [hfs], Bindings.mem_values_of_get? hu⟩)
    · exact stores_global hv
  · obtain ⟨n, hn, rfl⟩ := Option.map_eq_some_iff.mp h
    exact .inr ⟨n, List.mem_of_find?_eq_some hn, rfl⟩

/-! ## The changes of the state -/

theorem stores_push {f : Frame} (h : (m.push f).Stores w) : w ∈ f.values ∨ m.Stores w := by
  rcases h with h | ⟨g, hg, hw⟩ | h
  · exact .inr (.inl h)
  · rcases List.mem_cons.mp hg with rfl | hg
    · exact .inl hw
    · exact .inr (.inr (.inl ⟨g, hg, hw⟩))
  · exact .inr (.inr (.inr h))

theorem stores_pop (h : m.pop.Stores w) : m.Stores w := by
  rcases h with h | ⟨g, hg, hw⟩ | h
  · exact .inl h
  · exact .inr (.inl ⟨g, List.mem_of_mem_drop hg, hw⟩)
  · exact .inr (.inr h)

theorem stores_withTop {f f' : Frame} {fs : List Frame} (hf : m.frames = f :: fs)
    (hs : ∀ w ∈ f'.values, w = v ∨ w ∈ f.values) (h : (m.withTop f').Stores w) :
    w = v ∨ m.Stores w := by
  rcases h with h | ⟨g, hg, hw⟩ | h
  · exact .inr (.inl h)
  · simp only [withTop, hf, List.drop_one, List.tail_cons] at hg
    rcases List.mem_cons.mp hg with rfl | hg
    · exact (hs w hw).imp_right fun hw => .inr (.inl ⟨f, by simp [hf], hw⟩)
    · exact .inr (.inr (.inl ⟨g, by simp [hf, hg], hw⟩))
  · exact .inr (.inr (.inr h))

/-- A frame that differs in its lines only stores what was stored. -/
theorem stores_moved {f f' : Frame} {fs : List Frame} (hf : m.frames = f :: fs)
    (h : (m.withTop f').Stores w) (hs : f'.locals = f.locals) : m.Stores w := by
  rcases h with h | ⟨g, hg, hw⟩ | h
  · exact .inl h
  · simp only [withTop, hf, List.drop_one, List.tail_cons] at hg
    rcases List.mem_cons.mp hg with rfl | hg
    · exact .inr (.inl ⟨f, by simp [hf], by simpa [Frame.values, hs] using hw⟩)
    · exact .inr (.inl ⟨g, by simp [hf, hg], hw⟩)
  · exact .inr (.inr h)

theorem stores_setLine {line : Nat} (h : (m.setLine line).Stores w) : m.Stores w := by
  unfold setLine at h
  split at h
  · exact h
  · next f fs hf => exact stores_moved hf h rfl

theorem stores_reportFrom {line : Nat} (h : (m.reportFrom line).Stores w) : m.Stores w := by
  unfold reportFrom at h
  split at h
  · exact h
  · next f fs hf => exact stores_moved hf h rfl

theorem stores_setGlobal {scope : Nat} (h : (m.setGlobal scope name v).Stores w) :
    w = v ∨ m.Stores w := by
  rcases h with ⟨n, hn, hw⟩ | h
  · obtain ⟨i, hi, rfl⟩ := List.mem_iff_getElem.mp hn
    simp only [setGlobal, List.getElem_modify] at hw
    have hi' : i < m.namespaces.length := by simpa [setGlobal] using hi
    split at hw
    · exact (Bindings.mem_values_set hw).imp_right
        fun hw => .inl ⟨_, List.getElem_mem hi', hw⟩
    · exact .inr (.inl ⟨_, List.getElem_mem hi', hw⟩)
  · exact .inr (.inr h)

theorem stores_local {f : Frame} {fs : List Frame} {locals : Bindings} (hf : m.frames = f :: fs)
    (hl : f.locals = some locals)
    (h : (m.withTop { f with locals := some (locals.set name v) }).Stores w) :
    w = v ∨ m.Stores w :=
  stores_withTop hf (fun u hu => by
    simpa [Frame.values, hl] using Bindings.mem_values_set (by simpa [Frame.values] using hu)) h

theorem Binds.stores (hb : m.Binds name v m') (h : m'.Stores w) : w = v ∨ m.Stores w := by
  cases hb with
  | nowhere => exact .inr h
  | inLocals hf hl => exact stores_local hf hl h
  | inGlobals scope => exact stores_setGlobal h

theorem stores_openModule {p : Program} (h : (m.openModule name p).Stores w) : m.Stores w := by
  rcases h with ⟨n, hn, hw⟩ | h
  · rcases List.mem_append.mp hn with hn | hn
    · exact .inl ⟨n, hn, hw⟩
    · rw [List.mem_singleton] at hn
      subst hn
      simp [Bindings.values] at hw
  · exact .inr h

theorem stores_remember (h : (m.remember name v).Stores w) : w = v ∨ m.Stores w := by
  rcases h with h | h | h
  · exact .inr (.inl h)
  · exact .inr (.inr (.inl h))
  · exact (Bindings.mem_values_set h).imp_right fun h => .inr (.inr h)

end Machine
end Lispbox
