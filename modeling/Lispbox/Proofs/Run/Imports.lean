import Lispbox.Proofs.Run.Steps

/-!
# How often modules are imported

A run remembers a module when its body is over, and looks for it only before the body begins. So a
module that was imported stays the same object for the rest of the run, and its body is not begun
again, if the body was not being executed at the time (`imported_once`). A body that imports its own
module, directly or through others, is begun again for each of these imports while there is room for
frames. If it handles the exception that ends this, each of these imports succeeds, with an object
of its own, and replaces what was remembered (`Importing.imports_differ`).

What a step does is counted by `Machine.Tally`: how often the body of a module was begun, and how
often it is being executed. Nothing but the end of the body makes the second number fall behind the
first, and nothing else changes what is remembered.

* `tally`: the counts along any number of steps.
* `import_succeeds`, `import_fails`: the state after an import.
* `imported_once`: the imports of a run.
-/
namespace Lispbox
open Script

namespace Machine

/-- The frame executes the body of the module. -/
def executes (m : Machine) (name : String) (f : Frame) : Bool :=
  f.locals.isNone && m.homeAt? f.scope == some (.module name)

/-- How often the body of the module is being executed; more than once if it was begun again before
it was over. -/
def running (m : Machine) (name : String) : Nat := m.frames.countP (m.executes name)

/-- How often the body of the module was begun, if only to be refused a frame. -/
def starts (m : Machine) (name : String) : Nat := m.owners.countP (·.1 == .module name)

/-- The globals of a program or module that is being executed are in one of the namespaces. -/
def Placed (m : Machine) : Prop :=
  ∀ f ∈ m.frames, f.locals = none → f.scope < m.owners.length

/-- The module was imported, and its body is not being executed. -/
structure Imported (m : Machine) (name : String) (v : Value) : Prop where
  loaded : m.loaded.get? name = some v
  idle : m.running name = 0

/-- What some steps have to do with a module. -/
structure Tally (env : Environment) (name : String) (m m' : Machine) : Prop where
  placed : m'.Placed
  starts : m.starts name ≤ m'.starts name
  /-- Bodies that are being executed were begun. -/
  running : m'.running name + m.starts name ≤ m.running name + m'.starts name
  /-- If none of the bodies is over, a script module is what it was. -/
  same : m'.running name + m.starts name = m.running name + m'.starts name →
    m'.loaded.get? name = m.loaded.get? name ∨
      m.loaded.get? name = none ∧ ∃ s members, env.registry.get? name = some ⟨s, .native members⟩
  /-- A module that was imported stays so, and is not begun again. -/
  stays : (m.loaded.get? name).isSome →
    (m'.loaded.get? name).isSome ∧ m'.starts name = m.starts name

variable {env : Environment} {name : String} {m m' m'' : Machine} {v : Value}

theorem Tally.refl (h : m.Placed) : m.Tally env name m :=
  ⟨h, Nat.le_refl _, Nat.le_refl _, fun _ => .inl rfl, fun h => ⟨h, rfl⟩⟩

theorem Tally.trans (h : m.Tally env name m') (h' : m'.Tally env name m'') :
    m.Tally env name m'' where
  placed := h'.placed
  starts := Nat.le_trans h.starts h'.starts
  running := by
    have := h.running
    have := h'.running
    omega
  same heq := by
    have h₁ := h.running
    have h₂ := h'.running
    rcases h.same (by omega) with hsame | hnative
    · rcases h'.same (by omega) with hsame' | ⟨hnone, hnative⟩
      · exact .inl (hsame'.trans hsame)
      · exact .inr ⟨hsame ▸ hnone, hnative⟩
    · exact .inr hnative
  stays hsome := by
    obtain ⟨hsome', hstarts⟩ := h.stays hsome
    obtain ⟨hsome'', hstarts'⟩ := h'.stays hsome'
    exact ⟨hsome'', hstarts'.trans hstarts⟩

/-! ## Frames and namespaces -/

/-- Namespaces that are there stay whose they are. -/
theorem Kept.home_eq (h : m.Kept m') {scope : Nat} (hs : scope < m.owners.length) :
    m'.homeAt? scope = m.homeAt? scope := by
  have hhome : m.homeAt? scope = some m.owners[scope].1 := by
    rw [homeAt?, List.getElem?_eq_getElem hs, Option.map_some]
  rw [hhome]
  exact h.home hhome

theorem executes_of_shape {f f' : Frame} (hs : f'.shape = f.shape) :
    m.executes name f' = m.executes name f := by
  have hlocals : f'.locals.isSome = f.locals.isSome := congrArg (fun shape => shape.2.2.2) hs
  simp only [executes, ← Option.not_isSome, hlocals, Frame.scope_eq hs]

theorem executes_of_home {f : Frame} {executed : String} (hlocals : f.locals = none)
    (hhome : m.homeAt? f.scope = some (.module executed)) :
    m.executes name f = decide (executed = name) := by
  rw [executes, hlocals, hhome, Bool.eq_iff_iff]
  simp

/-- What evaluates code in the innermost frame begins no body that it does not end. -/
theorem Kept.running (h : m.Kept m') (hp : m.Placed) : m'.running name = m.running name := by
  have executes : ∀ f ∈ m.frames, m'.executes name f = m.executes name f := fun f hf => by
    unfold Machine.executes
    cases hl : f.locals with
    | some locals => rfl
    | none => rw [h.home_eq (hp f hf hl)]
  have counted : m.frames.countP (m'.executes name) = m.running name :=
    List.countP_congr fun f hf => by rw [executes f hf]
  rw [← counted]
  unfold Machine.running
  rcases h.stack with ⟨hf, hf'⟩ | ⟨f, f', fs, hf, hf', hs⟩
  · rw [hf, hf']
  · rw [hf, hf', List.countP_cons, List.countP_cons, executes_of_shape hs]

theorem Kept.placed (h : m.Kept m') (hp : m.Placed) : m'.Placed := by
  intro f hf hl
  refine Nat.lt_of_lt_of_le ?_ h.owners.length_le
  rcases h.stack with ⟨-, hf'⟩ | ⟨g, f', fs, hg, hf', hs⟩
  · rw [hf'] at hf
    cases hf
  · rw [hf'] at hf
    rcases List.mem_cons.mp hf with rfl | hf
    · have hlocals : f.locals.isSome = g.locals.isSome := congrArg (fun shape => shape.2.2.2) hs
      rw [Frame.scope_eq hs]
      refine hp g (by simp [hg]) ?_
      rwa [hl, Option.isSome_none, eq_comm, Option.isSome_eq_false_iff, Option.isNone_iff_eq_none]
        at hlocals
    · exact hp f (by simp [hg, hf]) hl

/-! ## Steps -/

/-- A step that opens no namespace, remembers nothing and keeps the frames. -/
theorem tally_of_kept (hk : m.Kept m') (ho : m'.owners = m.owners) (hl : m'.loaded = m.loaded)
    (hp : m.Placed) : m.Tally env name m' := by
  have hstarts : m'.starts name = m.starts name := by rw [starts, starts, ho]
  have hrunning : m'.running name = m.running name := hk.running hp
  refine ⟨hk.placed hp, ?_, ?_, ?_, ?_⟩
  · omega
  · omega
  · exact fun _ => .inl (by rw [hl])
  · exact fun h => ⟨by rwa [hl], hstarts⟩

theorem tally_binds {bound : String} (h : m.Binds bound v m') (hp : m.Placed) :
    m.Tally env name m' := by
  refine tally_of_kept h.kept ?_ ?_ hp
  · cases h with
    | nowhere => rfl
    | inLocals hf hl => rfl
    | inGlobals scope => exact owners_setGlobal m scope bound v
  · cases h <;> rfl

theorem tally_setLine (line : Nat) (hp : m.Placed) : m.Tally env name (m.setLine line) := by
  refine tally_of_kept (kept_setLine m line) ?_ ?_ hp
  · unfold setLine
    split <;> rfl
  · unfold setLine
    split <;> rfl

theorem tally_reportFrom (line : Nat) (hp : m.Placed) : m.Tally env name (m.reportFrom line) := by
  refine tally_of_kept (kept_reportFrom m line) ?_ ?_ hp
  · unfold reportFrom
    split <;> rfl
  · unfold reportFrom
    split <;> rfl

theorem running_push (m : Machine) (f : Frame) :
    (m.push f).running name = m.running name + if m.executes name f then 1 else 0 :=
  List.countP_cons

/-- What begins here is not the body of a module. -/
theorem tally_push {f : Frame} (hhome : f.locals = none → m.homeAt? f.scope = some .program)
    (hp : m.Placed) : m.Tally env name (m.push f) := by
  have hidle : m.executes name f = false := by
    unfold executes
    cases hl : f.locals with
    | some locals => rfl
    | none => rw [hhome hl]; rfl
  have hrunning : (m.push f).running name = m.running name := by
    rw [running_push, hidle]
    rfl
  refine ⟨fun g hg hl => ?_, Nat.le_refl _, ?_, fun _ => .inl rfl, fun h => ⟨h, rfl⟩⟩
  · rcases List.mem_cons.mp hg with rfl | hg
    · obtain ⟨owner, howner, -⟩ := Option.map_eq_some_iff.mp (hhome hl)
      exact (List.getElem?_eq_some_iff.mp howner).1
    · exact hp g hg hl
  · rw [hrunning]
    exact Nat.le_refl _

theorem placed_pop (hp : m.Placed) : m.pop.Placed :=
  fun f hf hl => hp f (List.mem_of_mem_drop hf) hl

theorem tally_pop (hp : m.Placed) : m.Tally env name m.pop := by
  have hle : m.pop.running name ≤ m.running name :=
    (List.drop_sublist 1 m.frames).countP_le
  refine ⟨placed_pop hp, Nat.le_refl _, ?_, fun _ => .inl rfl, fun h => ⟨h, rfl⟩⟩
  exact Nat.add_le_add_right hle _

theorem loaded_remember (m : Machine) (remembered : String) (v : Value) (h : remembered ≠ name) :
    (m.remember remembered v).loaded.get? name = m.loaded.get? name :=
  Bindings.get?_set_of_ne v m.loaded h.symm

theorem isSome_remember (remembered : String) (v : Value)
    (h : (m.loaded.get? name).isSome) : ((m.remember remembered v).loaded.get? name).isSome := by
  by_cases hname : remembered = name
  · subst hname
    rw [remember, Bindings.get?_set_self]
    rfl
  · rwa [loaded_remember m remembered v hname]

theorem tally_native {native s : String} {members : Bindings}
    (hnew : m.loaded.get? native = none)
    (hr : env.registry.get? native = some ⟨s, .native members⟩) (hp : m.Placed) :
    m.Tally env name (m.advance.remember native (.module m.serial native members)) := by
  refine ⟨hp, Nat.le_refl _, Nat.le_refl _, fun _ => ?_, fun h => ⟨isSome_remember _ _ h, rfl⟩⟩
  by_cases hname : native = name
  · subst hname
    exact .inr ⟨hnew, s, members, hr⟩
  · exact .inl (loaded_remember _ _ _ hname)

theorem starts_openModule (name : String) (m : Machine) (opened : String) (p : Program) :
    (m.openModule opened p).starts name = m.starts name + if opened = name then 1 else 0 := by
  simp [starts, owners, openModule, List.countP_append, List.countP_cons]

/-- A namespace for a module that was not imported before. -/
theorem tally_openModule {opened : String} (p : Program) (hnew : m.loaded.get? opened = none)
    (hp : m.Placed) : m.Tally env name (m.openModule opened p) := by
  have hkept := (untouched_openModule m opened p).kept
  have hstarts := starts_openModule name m opened p
  have hrunning : (m.openModule opened p).running name = m.running name := hkept.running hp
  refine ⟨hkept.placed hp, ?_, ?_, fun _ => .inl rfl, fun h => ⟨h, ?_⟩⟩
  · omega
  · omega
  · have hne : opened ≠ name := by
      rintro rfl
      rw [hnew] at h
      cases h
    rw [hstarts, if_neg hne]
    rfl

theorem tally_enterModule {entered : String} (p : Program)
    (hnew : m.loaded.get? entered = none) (hp : m.Placed) :
    m.Tally env name (m.enterModule entered p) := by
  have hopened : m.Tally env name (m.openModule entered p) := tally_openModule p hnew hp
  have hstarts := starts_openModule name m entered p
  have hrunning : (m.enterModule entered p).running name =
      m.running name + if entered = name then 1 else 0 := by
    have hexecutes : (m.openModule entered p).executes name
        ⟨"<module>", p.file, 1, none, none, m.namespaces.length⟩ = decide (entered = name) :=
      executes_of_home rfl (homeAt?_enterModule m entered p)
    rw [enterModule, running_push, (untouched_openModule m entered p).kept.running hp, hexecutes]
    simp only [decide_eq_true_eq]
  refine ⟨fun f hf hl => ?_, hopened.starts, ?_, fun _ => .inl rfl, hopened.stays⟩
  · rcases List.mem_cons.mp hf with rfl | hf
    · simp [owners, enterModule, openModule, push]
    · exact hopened.placed f hf hl
  · have : (m.enterModule entered p).starts name = (m.openModule entered p).starts name := rfl
    omega

/-- The end of a body: it is one less of those that are being executed. -/
theorem tally_finishModule {finished : String} {f : Frame} {fs : List Frame}
    (hf : m.frames = f :: fs) (hlocals : f.locals = none)
    (hhome : m.homeAt? f.scope = some (.module finished)) (hp : m.Placed) :
    m.Tally env name (m.finishModule finished f.scope) := by
  have hrunning : m.running name =
      (m.finishModule finished f.scope).running name + if finished = name then 1 else 0 := by
    rw [running, hf, List.countP_cons, executes_of_home hlocals hhome]
    simp only [decide_eq_true_eq]
    change _ = List.countP (m.executes name) (m.frames.drop 1) + _
    rw [hf, List.drop_one, List.tail_cons]
  have hstarts : (m.finishModule finished f.scope).starts name = m.starts name := rfl
  refine ⟨placed_pop hp, Nat.le_refl _, ?_, fun heq => ?_, fun h => ⟨isSome_remember _ _ h, rfl⟩⟩
  · omega
  · -- the end of a body of this module would have changed the counts
    have hne : finished ≠ name := by
      rintro rfl
      rw [if_pos rfl] at hrunning
      omega
    exact .inl (loaded_remember _ _ _ hne)

theorem step_tally (h : m.Step env m') (hp : m.Placed) : m.Tally env name m' := by
  cases h with
  | setLine line => exact tally_setLine line hp
  | reportFrom line => exact tally_reportFrom line hp
  | bind h => exact tally_binds h hp
  | advance => exact tally_of_kept (untouched_advance m).kept rfl rfl hp
  | refuse hfull => exact tally_of_kept (untouched_refuse m).kept rfl rfl hp
  | push hroom hhome => exact tally_push hhome hp
  | pop => exact tally_pop hp
  | native hnew hr => exact tally_native hnew hr hp
  | @refuseModule _ _ p hnew hr hfull =>
    have hopened : m.Tally env name (m.openModule _ p) := tally_openModule p hnew hp
    exact hopened.trans (tally_of_kept (untouched_refuse _).kept rfl rfl hopened.placed)
  | enterModule hnew hr hroom => exact tally_enterModule _ hnew hp
  | finishModule hr hf hlocals hhome => exact tally_finishModule hf hlocals hhome hp

/-- The counts along any number of steps. -/
theorem tally (name : String) (h : m.Steps env m') (hp : m.Placed) : m.Tally env name m' := by
  induction h with
  | refl => exact .refl hp
  | tail _ hstep ih => exact ih.trans (step_tally hstep ih.placed)

/-- The module stays the same object, and its body is not begun again. -/
theorem Imported.steps (hi : m.Imported name v) (hp : m.Placed) (h : m.Steps env m') :
    m'.Imported name v ∧ m'.starts name = m.starts name := by
  have htally := tally name h hp
  obtain ⟨-, hstarts⟩ := htally.stays (by rw [hi.loaded]; rfl)
  have hrunning := htally.running
  have hidle := hi.idle
  refine ⟨⟨?_, by omega⟩, hstarts⟩
  rcases htally.same (by omega) with hsame | ⟨hnone, -⟩
  · rw [hsame, hi.loaded]
  · rw [hi.loaded] at hnone
    cases hnone

end Machine

open Machine

/-! ## Imports -/

section

variable {σ : Type} {env : Environment} {ev : Evaluator} {name : String} {m m' : Machine}
  {h : Host σ} {t t' : σ}

/-- An import leaves the frames as they were, whatever its result is. -/
theorem untouched_load (hev : Evaluator.Walks env ev) {r : Except Exit Value}
    (hrun : (load env ev name m).run h t = (.ok r, m', t')) : m.Untouched m' :=
  (Discipline.runs_load (Discipline.free_lawful env) hev.keeps (Discipline.free_sound m) 0
    trivial).state hrun

/-- The state after an import that succeeds. -/
theorem import_succeeds {v : Value}
    (hrun : (load env ev name m).run h t = (.ok (.ok v), m', t')) :
    m'.loaded.get? name = some v ∧ ∀ w, m.loaded.get? name = some w → v = w ∧ m' = m := by
  have hcases := load_cases env ev name m
  generalize load env ev name m = d at hcases hrun
  cases hcases with
  | known hv =>
    cases hrun
    exact ⟨hv, fun w hw => ⟨Option.some.inj (hv.symm.trans hw), rfl⟩⟩
  | missing => cases hrun
  | native hnew hr =>
    cases hrun
    exact ⟨Bindings.get?_set_self name _ _, fun w hw => nomatch hnew.symm.trans hw⟩
  | refused => cases hrun
  | script hnew hr hroom =>
    refine ⟨?_, fun w hw => nomatch hnew.symm.trans hw⟩
    rw [Dialogue.run_bind] at hrun
    split at hrun
    · next r m₁ t₁ _ =>
      cases r with
      | ok u =>
        cases hrun
        exact Bindings.get?_set_self name _ _
      | error e => cases hrun
    · cases hrun

/-- A module is not remembered while its body is executed, unless the body is begun again. -/
theorem loaded_of_body (hev : Evaluator.Walks env ev) (hp : m.Placed) {s : String} {p : Program}
    (hnew : m.loaded.get? name = none) (hr : env.registry.get? name = some ⟨s, .script p⟩)
    {r : Except Exit Value}
    (hbody : (untilLeft (runBlock ev .nil p.body) (m.enterModule name p)).run h t = (.ok r, m', t'))
    (hstarts : m'.starts name ≤ m.starts name + 1) : m'.loaded.get? name = none := by
  have hentered : m.Tally env name (m.enterModule name p) := tally_enterModule p hnew hp
  have hsteps : (m.enterModule name p).Steps env m' := by
    simpa only [hbody] using
      ((walks_body (m := m.enterModule name p) hev p.body).steps h t).2
  have htally := tally name hsteps hentered.placed
  have hrunning : m'.running name = (m.enterModule name p).running name :=
    ((keeps_body hev p.body _).state hbody).running hentered.placed
  have hopened := starts_openModule name m name p
  rw [if_pos rfl] at hopened
  have hbegun : (m.enterModule name p).starts name = m.starts name + 1 := hopened
  have hmore := htally.starts
  -- as many bodies are being executed as were begun, so none of them is over
  rcases htally.same (by omega) with hsame | ⟨-, s, members, hnative⟩
  · exact hsame.trans hnew
  · exact nomatch hr.symm.trans hnative

/-- The state after an import that fails: the module is not remembered, unless its body was begun
again in the meantime. -/
theorem import_fails (hev : Evaluator.Walks env ev) (hp : m.Placed) {e : Exit}
    (hrun : (load env ev name m).run h t = (.ok (.error e), m', t'))
    (hstarts : m'.starts name ≤ m.starts name + 1) : m'.loaded.get? name = none := by
  have hcases := load_cases env ev name m
  generalize load env ev name m = d at hcases hrun
  cases hcases with
  | known => cases hrun
  | missing hnew =>
    cases hrun
    exact hnew
  | native => cases hrun
  | refused hnew =>
    cases hrun
    exact hnew
  | script hnew hr hroom =>
    rw [Dialogue.run_bind] at hrun
    split at hrun
    · next r m₁ t₁ hbody =>
      cases r with
      | ok u => cases hrun
      | error e' =>
        cases hrun
        have hforgotten := loaded_of_body hev hp hnew hr hbody hstarts
        exact hforgotten
    · cases hrun

/-- Nothing is bound if the import fails. -/
theorem evalNode_load_error {rounds line : Nat} {e : Exit}
    (hrun : (evalNode env ev rounds (.load line name) m).run h t = (.ok (.error e), m', t')) :
    (load env ev name m).run h t = (.ok (.error e), m', t') := by
  change ((load env ev name m).bind _).run h t = _ at hrun
  rw [Dialogue.run_bind] at hrun
  split at hrun
  · next r m₁ t₁ hload =>
    cases r with
    | ok v => cases hrun
    | error e' =>
      cases hrun
      exact hload
  · cases hrun

end

/-- In a run the globals of what is being executed are always somewhere. -/
theorem dialogue_placed {σ : Type} (h : Host σ) (env : Environment) (fuel : Nat) (p : Program)
    (t : σ) : ∀ x ∈ (p.dialogue env fuel).exchanges h t, x.machine.Placed := fun x hx =>
  (tally "" (((dialogue_walks env fuel p).steps h t).1 x hx) nofun).placed

/-- Imports of a module by its name, where `Machine.Imported` says that the module was imported and
that its body is not being executed:

* in a run, a module that is imported at one question is so at all later ones, and in the end, as
  the same object; its body is not begun again, and an import does nothing but give the object;
* an import that succeeds gives the object that is remembered, and leaves the frames as they were;
* an import that fails binds nothing, and leaves the frames as they were; the module is not
  remembered, unless its body was begun again in the meantime;
* if the module is not remembered, an import executes its body from the beginning, in a new and
  empty namespace. -/
theorem imported_once {σ : Type} (h : Host σ) (env : Environment) (fuel rounds : Nat)
    (name : String) :
    (∀ (p : Program) (t : σ) (before after : List Exchange) (x : Exchange) (v : Value),
      (p.dialogue env fuel).exchanges h t = before ++ x :: after → x.machine.Imported name v →
      ∀ m ∈ after.map Exchange.machine ++ [(p.run h env fuel t).2.1],
        m.Imported name v ∧ m.starts name = x.machine.starts name ∧
          load env (eval env fuel) name m = .done (.ok v) m) ∧
    (∀ (m m' : Machine) (t t' : σ) (v : Value), m.Placed →
      (load env (eval env fuel) name m).run h t = (.ok (.ok v), m', t') →
      m'.loaded.get? name = some v ∧ m'.frames = m.frames ∧ m'.running name = m.running name) ∧
    (∀ (m m' : Machine) (t t' : σ) (e : Exit) (line : Nat), m.Placed →
      (evalNode env (eval env fuel) rounds (.load line name) m).run h t =
        (.ok (.error e), m', t') →
      (load env (eval env fuel) name m).run h t = (.ok (.error e), m', t') ∧
        m'.frames = m.frames ∧
        (m'.starts name ≤ m.starts name + 1 → m'.loaded.get? name = none)) ∧
    ∀ (m : Machine) (s : String) (p : Program), m.loaded.get? name = none →
      env.registry.get? name = some ⟨s, .script p⟩ → m.frames.length < env.depth →
      (∃ k, load env (eval env fuel) name m =
        (untilLeft (runBlock (eval env fuel) .nil p.body) (m.enterModule name p)).bind k) ∧
        (m.enterModule name p).scope = m.namespaces.length ∧
        (m.enterModule name p).namespaces = m.namespaces ++ [⟨.module name, p.file, []⟩] := by
  have hev := eval_walks env fuel
  refine ⟨?_, ?_, ?_, ?_⟩
  · intro p t before after x v hx himported m hm
    obtain ⟨-, hafter, hend⟩ := (dialogue_walks env fuel p).later h t hx
    have hplaced := dialogue_placed h env fuel p t x (by simp [hx])
    have hsteps : x.machine.Steps env m := by
      rcases List.mem_append.mp hm with hm | hm
      · obtain ⟨y, hy, rfl⟩ := List.mem_map.mp hm
        exact hafter y hy
      · exact List.mem_singleton.mp hm ▸ hend
    obtain ⟨hstays, hstarts⟩ := himported.steps hplaced hsteps
    exact ⟨hstays, hstarts, load_loaded hstays.loaded⟩
  · intro m m' t t' v hp hrun
    have huntouched := untouched_load hev hrun
    exact ⟨(import_succeeds hrun).1, huntouched.frames, huntouched.kept.running hp⟩
  · intro m m' t t' e line hp hrun
    have hload := evalNode_load_error hrun
    exact ⟨hload, (untouched_load hev hload).frames, import_fails hev hp hload⟩
  · intro m s p hnew hr hroom
    exact ⟨⟨_, load_script hnew hr hroom⟩, rfl, rfl⟩

namespace Importing

def one : Program := ⟨"one.scm", "", [.bind 1 "x" (.literal 1 .nil)]⟩

/-- A module with a global, a module that fails, and one that imports itself and goes on when there
is no room for more frames. -/
def registry : Registry := ⟨[
  ⟨"one", .script one⟩,
  ⟨"failing", .script ⟨"failing.scm", "", [.raise 1 "Error" none]⟩⟩,
  ⟨"a", .script ⟨"a.scm", "", [.attempt 1 [.load 1 "a"]
    [⟨some "RecursionError", none, [.literal 1 .nil]⟩]]⟩⟩]⟩

def env : Environment := ⟨registry, 3⟩

/-- Imports a module, twice. -/
def twice : Program := ⟨"main.scm", "", [.load 1 "one", .load 2 "one"]⟩

def asked : List Exchange := (twice.dialogue env 9).exchanges Host.obliging ()

theorem length_asked : asked.length = 7 := by decide +kernel

/-- The question before the second import. -/
def between : Exchange := asked.get ⟨5, by rw [length_asked]; decide⟩

theorem asked_split : asked = asked.take 5 ++ between :: asked.drop 6 := by
  unfold between
  rw [List.get_eq_getElem, ← List.drop_eq_getElem_cons, List.take_append_drop]

def object : Value := .module 0 "one" [("x", .nil)]

theorem imported_between : between.machine.Imported "one" object :=
  ⟨rfl, by decide +kernel⟩

/-- The main program is being executed. -/
def inMain : Machine :=
  { Machine.start twice with frames := [⟨"<module>", "main.scm", 1, none, none, 0⟩] }

theorem placed_inMain : inMain.Placed := fun f hf _ => by
  cases List.mem_singleton.mp hf
  decide

/-- A module is imported twice, one fails, and one is executed from the beginning. -/
theorem imported_once_twice :
    (∀ m ∈ (asked.drop 6).map Exchange.machine ++ [(twice.run Host.obliging env 9 ()).2.1],
      m.Imported "one" object) ∧
      (∃ m', (load env (eval env 9) "one" inMain).run Host.obliging () =
        (.ok (.ok object), m', ()) ∧ m'.loaded.get? "one" = some object) ∧
      (∃ m' e, (evalNode env (eval env 9) 9 (.load 1 "failing") inMain).run Host.obliging () =
        (.ok (.error e), m', ()) ∧ m'.loaded.get? "failing" = none) ∧
      ∃ k, load env (eval env 9) "one" inMain =
        (untilLeft (runBlock (eval env 9) .nil one.body)
          (inMain.enterModule "one" one)).bind k := by
  obtain ⟨hrun, hsucceeds, -, hnew⟩ := imported_once Host.obliging env 9 9 "one"
  obtain ⟨-, -, hfails, -⟩ := imported_once Host.obliging env 9 9 "failing"
  refine ⟨fun m hm => ?_, ⟨_, rfl, ?_⟩, ⟨_, _, rfl, ?_⟩, ?_⟩
  · exact (hrun twice () _ _ between object asked_split imported_between m hm).1
  · exact (hsucceeds inMain _ () () object placed_inMain rfl).1
  · exact (hfails inMain _ () () _ 1 placed_inMain rfl).2.2 (by decide +kernel)
  · exact (hnew inMain "one" one rfl rfl (by decide)).1

/-- Imports a module that imports itself, and compares the two objects. -/
def compares : Program :=
  ⟨"main.scm", "", [.load 1 "a",
    .call 2 (.variable 2 "=") [.variable 2 "a", .member 2 "a" "a"]]⟩

/-- Both imports of the module succeed, each with an object of its own. -/
theorem imports_differ :
    (compares.run Host.obliging env 30 ()).1 = .ended (.returned (.bool false)) ∧
      (compares.run Host.obliging env 30 ()).2.1.loaded.get? "a" =
        some (.module 1 "a" [("a", .module 0 "a" [])]) :=
  ⟨rfl, rfl⟩

end Importing
end Lispbox
