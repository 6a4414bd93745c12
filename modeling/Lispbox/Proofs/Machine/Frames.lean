import Lispbox.Run.Machine

/-!
# What evaluation keeps of the frames

Code is executed in the innermost frame. It may move that frame from line to line and bind names in
it, and it may open namespaces, but it leaves alone

* the frames below the innermost one, in all their fields;
* whose code the innermost frame executes, where its globals are, and whether it has locals
  (`Frame.shape`);
* to whom the namespaces that are there belong (`Machine.owners`).

`Machine.Kept` says so of two states. A body in a frame of its own leaves its caller's frame alone
altogether: `Kept.pop` gives `Machine.Untouched` for the state after such a body.
`Machine.Unwound` is for signals: some frames were left since, and nothing else has changed.
-/
namespace Lispbox

/-- What no evaluation changes in a frame. -/
def Frame.shape (f : Frame) : String × String × Nat × Bool :=
  (f.function, f.file, f.scope, f.locals.isSome)

theorem Frame.file_eq {f f' : Frame} (h : f'.shape = f.shape) : f'.file = f.file :=
  congrArg (fun shape => shape.2.1) h

theorem Frame.scope_eq {f f' : Frame} (h : f'.shape = f.shape) : f'.scope = f.scope :=
  congrArg (fun shape => shape.2.2.1) h

namespace Machine

/-- To whom the namespaces belong. -/
def owners (m : Machine) : List (Home × String) := m.namespaces.map fun n => (n.home, n.file)

/-- The frames after an evaluation. -/
structure Kept (m m' : Machine) : Prop where
  below : m'.frames.tail = m.frames.tail
  top : m'.frames.head?.map Frame.shape = m.frames.head?.map Frame.shape
  owners : m.owners <+: m'.owners

/-- The frames after a body that had a frame of its own. -/
structure Untouched (m m' : Machine) : Prop where
  frames : m'.frames = m.frames
  owners : m.owners <+: m'.owners

/-- Some frames were left, and nothing else has changed. -/
structure Unwound (m m' : Machine) : Prop where
  store : m' = { m with frames := m'.frames }
  frames : m'.frames <:+ m.frames

variable {m m' m'' : Machine}

theorem Kept.refl (m : Machine) : m.Kept m := ⟨rfl, rfl, List.prefix_refl _⟩

theorem Kept.trans (h : m.Kept m') (h' : m'.Kept m'') : m.Kept m'' :=
  ⟨h'.below.trans h.below, h'.top.trans h.top, h.owners.trans h'.owners⟩

theorem Untouched.refl (m : Machine) : m.Untouched m := ⟨rfl, List.prefix_refl _⟩

theorem Untouched.kept (h : m.Untouched m') : m.Kept m' :=
  ⟨by rw [h.frames], by rw [h.frames], h.owners⟩

theorem Untouched.trans (h : m.Untouched m') (h' : m'.Untouched m'') : m.Untouched m'' :=
  ⟨h'.frames.trans h.frames, h.owners.trans h'.owners⟩

/-- There is no frame before and after, or an innermost one of the same shape on the same others. -/
theorem Kept.stack (h : m.Kept m') : (m.frames = [] ∧ m'.frames = []) ∨
    ∃ f f' fs, m.frames = f :: fs ∧ m'.frames = f' :: fs ∧ f'.shape = f.shape := by
  obtain ⟨hb, ht, -⟩ := h
  cases hf : m.frames with
  | nil =>
    cases hf' : m'.frames with
    | nil => exact .inl ⟨rfl, rfl⟩
    | cons f' fs' => rw [hf, hf'] at ht; simp at ht
  | cons f fs =>
    cases hf' : m'.frames with
    | nil => rw [hf, hf'] at ht; simp at ht
    | cons f' fs' =>
      rw [hf, hf', List.tail_cons, List.tail_cons] at hb
      rw [hf, hf', List.head?_cons, List.head?_cons, Option.map_some, Option.map_some,
        Option.some.injEq] at ht
      exact .inr ⟨f, f', fs, rfl, by rw [hb], ht⟩

/-- The stack has as many frames as before. -/
theorem Kept.length (h : m.Kept m') : m'.frames.length = m.frames.length := by
  rcases h.stack with ⟨hf, hf'⟩ | ⟨f, f', fs, hf, hf', -⟩
  · rw [hf, hf']
  · rw [hf, hf', List.length_cons, List.length_cons]

theorem Kept.namespaces_le (h : m.Kept m') : m.namespaces.length ≤ m'.namespaces.length := by
  simpa [Machine.owners] using h.owners.length_le

/-- The innermost frame executes code of the same file, in the same namespace. -/
theorem Kept.code (h : m.Kept m') : m'.file = m.file ∧ m'.scope = m.scope := by
  unfold file scope
  rcases h.stack with ⟨hf, hf'⟩ | ⟨f, f', fs, hf, hf', hs⟩
  · rw [hf, hf']
    exact ⟨rfl, rfl⟩
  · rw [hf, hf']
    exact ⟨Frame.file_eq hs, Frame.scope_eq hs⟩

/-- After a body in a frame of its own the caller finds its frames as they were. -/
theorem Kept.pop {f : Frame} (h : (m.push f).Kept m') : m.Untouched m'.pop :=
  ⟨by simpa [Machine.pop, push] using h.below, h.owners⟩

theorem Unwound.refl (m : Machine) : m.Unwound m := ⟨rfl, List.suffix_refl _⟩

theorem Unwound.pop (h : m.Unwound m') : m.Unwound m'.pop :=
  ⟨by rw [h.store]; rfl, (List.drop_suffix 1 m'.frames).trans h.frames⟩

/-! ## The changes of the state -/

/-- Another innermost frame of the same shape. -/
theorem kept_withTop {f f' : Frame} {fs : List Frame} (hf : m.frames = f :: fs)
    (hs : f'.shape = f.shape) : m.Kept (m.withTop f') :=
  ⟨by simp [withTop, hf], by simp [withTop, hf, hs], List.prefix_refl _⟩

theorem kept_setLine (m : Machine) (line : Nat) : m.Kept (m.setLine line) := by
  unfold setLine
  split
  · exact .refl m
  · next f fs hf => exact kept_withTop hf rfl

theorem kept_reportFrom (m : Machine) (line : Nat) : m.Kept (m.reportFrom line) := by
  unfold reportFrom
  split
  · exact .refl m
  · next f fs hf => exact kept_withTop hf rfl

theorem owners_setGlobal (m : Machine) (scope : Nat) (name : String) (v : Value) :
    (m.setGlobal scope name v).owners = m.owners := by
  refine List.ext_getElem? fun i => ?_
  simp only [owners, setGlobal, List.getElem?_map, List.getElem?_modify]
  by_cases h : scope = i <;> cases m.namespaces[i]? <;> simp [h]

theorem kept_setGlobal (m : Machine) (scope : Nat) (name : String) (v : Value) :
    m.Kept (m.setGlobal scope name v) :=
  ⟨rfl, rfl, (owners_setGlobal m scope name v).symm ▸ List.prefix_refl _⟩

/-- A name has been bound to a value: in the locals of the innermost frame or among the globals of
a namespace, or nowhere if there is no frame. -/
inductive Binds (m : Machine) (name : String) (v : Value) : Machine → Prop where
  | nowhere : m.Binds name v m
  | inLocals {f : Frame} {fs : List Frame} {locals : Bindings} (hf : m.frames = f :: fs)
    (hl : f.locals = some locals) :
    m.Binds name v (m.withTop { f with locals := some (locals.set name v) })
  | inGlobals (scope : Nat) : m.Binds name v (m.setGlobal scope name v)

theorem binds_bind (m : Machine) (name : String) (v : Value) :
    m.Binds name v (m.bind name v) := by
  unfold bind
  split
  · exact .nowhere
  · next f fs hf =>
    split
    · next locals hl => exact .inLocals hf hl
    · exact .inGlobals _

theorem binds_assign {name : String} {v : Value} (h : m.assign? name v = some m') :
    m.Binds name v m' := by
  unfold assign? at h
  split at h
  · cases h
  · next f fs hf =>
    split at h
    · next locals hl =>
      split at h
      · cases h
        exact .inLocals hf hl
      · split at h
        · cases h
          exact .inGlobals _
        · cases h
    · split at h
      · cases h
        exact .inGlobals _
      · cases h

theorem Binds.kept {name : String} {v : Value} (h : m.Binds name v m') : m.Kept m' := by
  cases h with
  | nowhere => exact .refl m
  | inLocals hf hl => exact kept_withTop hf (by simp [Frame.shape, hl])
  | inGlobals scope => exact kept_setGlobal m scope name v

theorem untouched_refuse (m : Machine) : m.Untouched m.refuse := ⟨rfl, List.prefix_refl _⟩

theorem untouched_advance (m : Machine) : m.Untouched m.advance := ⟨rfl, List.prefix_refl _⟩

theorem untouched_remember (m : Machine) (name : String) (v : Value) :
    m.Untouched (m.remember name v) := ⟨rfl, List.prefix_refl _⟩

theorem untouched_openModule (m : Machine) (name : String) (p : Program) :
    m.Untouched (m.openModule name p) :=
  ⟨rfl, by simp [Machine.owners, openModule]⟩

end Machine
end Lispbox
