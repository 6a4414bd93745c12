import Lispbox.Proofs.Native.Renumbering
import Lispbox.Proofs.Run.Agreement

/-!
# Runs with other serial numbers

A script that is executed in two states which differ in serial numbers asks its host the same, and
ends with the same result but for these numbers (`Script.Renumbers`). Objects that are made get the
numbers from the base on, where one follows another; so the relation also says that no script goes
back to a number below it. What is computed differs here, so this is no `Congruence`: those relate
scripts with the same values.

* `Dialogue.Renumbered.run`: the two conversations with a host.
* `renumbers_eval`: every evaluation, by induction on the fuel; one case for each kind of node.
* `renumbers_runProgram`: every program.
-/
namespace Lispbox
open Script

variable {σ ρ τ α β : Type} {c : Numbering}

/-- The exit with other serial numbers. -/
def Exit.renumber (c : Numbering) : Exit → Exit
  | .raise e => .raise e
  | .leave v => .leave (v.renumber c)
  | .stop s => .stop s

/-- The outcome of a script with other serial numbers, where results are changed by `change`. -/
def Numbering.outcome (c : Numbering) (change : α → α) : Except Exit α → Except Exit α
  | .ok a => .ok (change a)
  | .error e => .error (e.renumber c)

/-! ## Dialogues -/

namespace Dialogue

/-- In the second dialogue the same is asked as in the first, in the same states with other serial
numbers, and the result of the first is changed by `change`. -/
inductive Renumbered (c : Numbering) (change : ρ → ρ) : Dialogue ρ → Dialogue ρ → Prop where
  | done {r : ρ} {m : Machine} (h : c.base ≤ m.serial) :
    Renumbered c change (.done r m) (.done (change r) (m.renumber c))
  | abort {a : Abort} {m : Machine} (h : c.base ≤ m.serial) :
    Renumbered c change (.abort a m) (.abort a (m.renumber c))
  | ask {m : Machine} {q : Query} {resume resume' : Except Signal q.Answer → Dialogue ρ}
    (h : ∀ a, Renumbered c change (resume a) (resume' a)) :
    Renumbered c change (.ask m q resume) (.ask (m.renumber c) q resume')

/-- One dialogue after another. -/
theorem Renumbered.bind {d d' : Dialogue ρ} {change : ρ → ρ} {after : τ → τ}
    {f f' : ρ → Machine → Dialogue τ} (hd : d.Renumbered c change d')
    (hf : ∀ r m, c.base ≤ m.serial →
      (f r m).Renumbered c after (f' (change r) (m.renumber c))) :
    (d.bind f).Renumbered c after (d'.bind f') := by
  induction hd with
  | done h => exact hf _ _ h
  | abort h => exact .abort h
  | ask _ ih => exact .ask ih

/-- The same is said in the two conversations with a host, they leave the host in the same state,
and they end with the same result, in the same states with other serial numbers. -/
theorem Renumbered.run {d d' : Dialogue ρ} {change : ρ → ρ} (hd : d.Renumbered c change d')
    (h : Host σ) (t : σ) :
    (d'.exchanges h t).map Exchange.said = (d.exchanges h t).map Exchange.said ∧
      d'.run h t = ((d.run h t).1.map change, (d.run h t).2.1.renumber c, (d.run h t).2.2) ∧
      c.base ≤ (d.run h t).2.1.serial := by
  induction hd generalizing t with
  | done h => exact ⟨rfl, rfl, h⟩
  | abort h => exact ⟨rfl, rfl, h⟩
  | ask _ ih =>
    obtain ⟨hsaid, hrun, hserial⟩ := ih _ _
    refine ⟨?_, hrun, hserial⟩
    rw [exchanges_ask, exchanges_ask, List.map_cons, List.map_cons, hsaid]
    rfl

end Dialogue

/-! ## Scripts -/

namespace Script

/-- From a state with other serial numbers the second script does what the first one does, and the
result of the first is changed by `change`. -/
def Renumbers (c : Numbering) (change : α → α) (s s' : Script α) : Prop :=
  ∀ m : Machine, c.base ≤ m.serial →
    (s m).Renumbered c (c.outcome change) (s' (m.renumber c))

variable {s s' : Script α} {change : α → α} {after : β → β}

theorem renumbers_pure {a a' : α} (h : a' = change a) :
    Renumbers c change (pure a) (pure a') := by
  subst h
  exact fun _ hm => .done hm

theorem renumbers_exit {e e' : Exit} (h : e' = e.renumber c) :
    Renumbers c change (exit e) (exit e') := by
  subst h
  exact fun _ hm => .done hm

theorem renumbers_raise (cause : Cause) :
    Renumbers c change (raise cause) (raise cause) := renumbers_exit rfl

theorem renumbers_crash (reason : String) :
    Renumbers c change (crash reason) (crash reason) := fun _ hm => .abort hm

theorem renumbers_exhausted : Renumbers c change exhausted exhausted := fun _ hm => .abort hm

theorem renumbers_ask (q : Query) : Renumbers c id (ask q) (ask q) := by
  refine fun m hm => .ask fun a => ?_
  cases a <;> exact .done hm

theorem renumbers_bind {f f' : α → Script β} (hs : Renumbers c change s s')
    (hf : ∀ a, Renumbers c after (f a) (f' (change a))) :
    Renumbers c after (s >>= f) (s' >>= f') := by
  refine fun m hm => (hs m hm).bind fun r m hm => ?_
  cases r with
  | ok a => exact hf a m hm
  | error e => exact .done hm

/-- What a script does after it has asked. -/
theorem renumbers_asked (q : Query) {f f' : q.Answer → Script β}
    (hf : ∀ a, Renumbers c after (f a) (f' a)) :
    Renumbers c after (ask q >>= f) (ask q >>= f') :=
  renumbers_bind (renumbers_ask q) hf

/-- A script that goes on after another one whatever its outcome is. -/
theorem renumbers_handle {f f' : Except Exit α → Script β} (hs : Renumbers c change s s')
    (hf : ∀ r, Renumbers c after (f r) (f' (c.outcome change r))) :
    Renumbers c after (outcome s >>= f) (outcome s' >>= f') := by
  intro m hm
  change Dialogue.Renumbered _ _ (Dialogue.bind ((s m).bind _) _)
    (Dialogue.bind ((s' (m.renumber c)).bind _) _)
  rw [Dialogue.bind_assoc, Dialogue.bind_assoc]
  exact (hs m hm).bind fun r m hm => hf r m hm

/-- What is read from the state. -/
theorem renumbers_get {f f' : Machine → Script α}
    (hf : ∀ m : Machine, c.base ≤ m.serial →
      (f m m).Renumbered c (c.outcome change) (f' (m.renumber c) (m.renumber c))) :
    Renumbers c change (get >>= f) (get >>= f') := hf

/-- A change of the state that gives no number away, or one. -/
theorem renumbers_set {m m' m₀ m₀' : Machine} {f f' : Unit → Script α}
    (h : m' = m.renumber c) (hm : c.base ≤ m.serial) (hf : Renumbers c change (f ()) (f' ())) :
    ((set m >>= f) m₀).Renumbered c (c.outcome change) ((set m' >>= f') m₀') := by
  subst h
  exact hf m hm

theorem renumbers_modify {g g' : Machine → Machine}
    (h : ∀ m : Machine, g' (m.renumber c) = (g m).renumber c)
    (hserial : ∀ m : Machine, (g m).serial = m.serial) :
    Renumbers c id (modify g) (modify g') := by
  intro m hm
  change Dialogue.Renumbered c _ _ (Dialogue.done (Except.ok ()) (g' (m.renumber c)))
  rw [h]
  exact .done (hserial m ▸ hm)

theorem renumbers_ofCause (r : Except Cause α) :
    Renumbers c change (ofCause r) (ofCause (r.map change)) := by
  cases r with
  | ok a => exact renumbers_pure rfl
  | error cause => exact renumbers_raise cause

theorem renumbers_untilLeft {s s' : Script Value} (hs : Renumbers c (Value.renumber c) s s') :
    Renumbers c (Value.renumber c) (untilLeft s) (untilLeft s') := by
  refine renumbers_handle hs fun r => ?_
  match r with
  | .ok v => exact renumbers_pure rfl
  | .error (.raise e) => exact renumbers_exit rfl
  | .error (.leave v) => exact renumbers_pure rfl
  | .error (.stop sig) => exact renumbers_exit rfl

theorem renumbers_withFrames (hs : Renumbers c change s s') :
    Renumbers c change (withFrames s) (withFrames s') := by
  refine renumbers_handle hs fun r => ?_
  match r with
  | .ok a => exact renumbers_pure rfl
  | .error (.leave v) => exact renumbers_exit rfl
  | .error (.stop sig) => exact renumbers_exit rfl
  | .error (.raise e) =>
    change Renumbers c change (if e.frames.isEmpty then _ else _)
      (if e.frames.isEmpty then _ else _)
    split
    · refine renumbers_get fun m hm => ?_
      rw [m.traceback_renumber]
      exact .done hm
    · exact renumbers_exit rfl

/-- A body in a frame of its own. -/
theorem renumbers_enter {env : Environment} {s s' : Script Value} (f : Frame)
    (hs : Renumbers c (Value.renumber c) s s') :
    Renumbers c (Value.renumber c) (enter env f s) (enter env (f.renumber c) s') := by
  intro m hm
  have hlength : (m.renumber c).frames.length = m.frames.length := List.length_map _
  rcases Nat.lt_or_ge m.frames.length env.depth with hroom | hfull
  · rw [enter_room hroom, enter_room (hlength ▸ hroom)]
    refine (hs (m.push f) hm).bind fun r m hm => ?_
    rw [m.pop_renumber]
    exact .done hm
  · rw [enter_full hfull, enter_full (hlength ▸ hfull)]
    exact .done (m := m.refuse) hm

end Script

/-! ## Operations -/

theorem setLine_serial (m : Machine) (line : Nat) : (m.setLine line).serial = m.serial := by
  unfold Machine.setLine
  split <;> rfl

theorem reportFrom_serial (m : Machine) (line : Nat) : (m.reportFrom line).serial = m.serial := by
  unfold Machine.reportFrom
  split <;> rfl

theorem bind_serial (m : Machine) (name : String) (v : Value) :
    (m.bind name v).serial = m.serial := by
  unfold Machine.bind
  split
  · rfl
  · split <;> rfl

theorem assign?_serial {m n : Machine} {name : String} {v : Value}
    (h : m.assign? name v = some n) : n.serial = m.serial := by
  cases Machine.binds_assign h <;> rfl

theorem renumbers_setLine (line : Nat) :
    Renumbers c id (modify fun m => m.setLine line) (modify fun m => m.setLine line) :=
  renumbers_modify (fun m => m.setLine_renumber line) fun m => setLine_serial m line

theorem renumbers_name (name : String) (v : Value) :
    Renumbers c id (modify fun m => m.bind name v)
      (modify fun m => m.bind name (v.renumber c)) :=
  renumbers_modify (fun m => m.bind_renumber name v) fun m => bind_serial m name v

theorem renumbers_reportLine (always : Bool) (line : Nat) :
    Renumbers c id (reportLine always line) (reportLine always line) := by
  refine renumbers_get fun m hm => ?_
  rw [m.frames_renumber]
  cases m.frames with
  | nil => exact .done hm
  | cons f fs =>
    change Dialogue.Renumbered c _
      ((if !always && f.reported == some line then _ else _ : Script Unit) m)
      ((if !always && f.reported == some line then _ else _ : Script Unit) (m.renumber c))
    split
    · rw [m.setLine_renumber]
      exact .done (setLine_serial m line ▸ hm)
    · exact renumbers_set (m.reportFrom_renumber line) (reportFrom_serial m line ▸ hm)
        (renumbers_ask (.line f.file line))

theorem renumbers_lookupName (name : String) :
    Renumbers c (Value.renumber c) (lookupName name) (lookupName name) := by
  refine renumbers_get fun m hm => ?_
  rw [m.lookup?_renumber]
  cases m.lookup? name <;> exact .done hm

theorem renumbers_assignName (name : String) (v : Value) :
    Renumbers c id (assignName name v) (assignName name (v.renumber c)) := by
  refine renumbers_get fun m hm => ?_
  rw [m.assign?_renumber]
  cases hn : m.assign? name v with
  | none => exact .done hm
  | some n => exact .done (assign?_serial hn ▸ hm)

theorem renumbers_lookupMember (object member : String) :
    Renumbers c (Value.renumber c) (lookupMember object member) (lookupMember object member) := by
  refine renumbers_bind (renumbers_lookupName object) fun v => ?_
  cases v with
  | module serial name members =>
    rw [Value.renumber_module]
    dsimp only
    rw [Bindings.get?_renumber]
    cases Bindings.get? member members with
    | some v => exact renumbers_pure rfl
    | none => exact renumbers_raise _
  | _ => exact renumbers_raise _

theorem renumbers_define (name : String) (d : Definition) :
    Renumbers c (Value.renumber c)
      (do let m ← get; set (m.bind name (.function d m.home m.scope)); return Value.nil)
      (do let m ← get; set (m.bind name (.function d m.home m.scope)); return Value.nil) := by
  refine renumbers_get fun m hm => ?_
  obtain ⟨-, hscope, hhome⟩ := m.code_renumber (c := c)
  rw [hscope, hhome]
  refine renumbers_set (m.bind_renumber name (.function d m.home m.scope))
    (bind_serial m name _ ▸ hm) ?_
  exact renumbers_pure rfl

theorem renumbers_deferBody (body : Block) :
    Renumbers c (Value.renumber c) (deferBody body) (deferBody body) := by
  refine renumbers_get fun m hm => ?_
  obtain ⟨hfile, hscope, -⟩ := m.code_renumber (c := c)
  rw [hscope, hfile, m.ownLocals_renumber]
  refine renumbers_set (m.advance_renumber hm) (Nat.le_succ_of_le hm) ?_
  exact renumbers_pure (Value.renumber_deferred _ _ _ _ _).symm

theorem renumbers_addModule (name : String) (members : Bindings) :
    Renumbers c (Value.renumber c) (addModule name members)
      (addModule name (members.renumber c)) := by
  refine renumbers_get fun m hm => ?_
  have hvalue : Value.module (m.renumber c).serial name (members.renumber c) =
      (Value.module m.serial name members).renumber c := (Value.renumber_module _ _ _).symm
  refine renumbers_set ?_ (Nat.le_succ_of_le hm) (renumbers_pure hvalue)
  rw [hvalue, m.advance_renumber hm, Machine.remember_renumber]

/-! ## Native functions -/

theorem renumbers_printValues (args : List Value) :
    Renumbers c (Value.renumber c) (Native.printValues args)
      (Native.printValues (args.map (Value.renumber c))) := by
  have htexts : (args.map (Value.renumber c)).map Value.display = args.map Value.display := by
    rw [List.map_map]
    exact List.map_congr_left fun v _ => v.display_renumber
  unfold Native.printValues
  rw [htexts]
  exact renumbers_asked (.emit _) fun _ => renumbers_pure rfl

theorem renumbers_readLine (prompt : String) :
    Renumbers c (Value.renumber c) (Native.readLine prompt) (Native.readLine prompt) := by
  have asked : Renumbers c (Value.renumber c)
      (do
        let line ← ask (.input prompt)
        Native.emitText .input (line ++ "\n")
        return Value.text line)
      (do
        let line ← ask (.input prompt)
        Native.emitText .input (line ++ "\n")
        return Value.text line) :=
    renumbers_asked (.input prompt) fun _ => renumbers_asked (.emit _) fun _ => renumbers_pure rfl
  unfold Native.readLine
  split
  · exact renumbers_asked (.emit _) fun _ => asked
  · exact asked

/-- What goes on from a computation that sees nothing of serial numbers. -/
theorem renumbers_computed (r : Except Cause α) {f f' : α → Script β} {after : β → β}
    (hf : ∀ a, Renumbers c after (f a) (f' a)) :
    Renumbers c after (ofCause r >>= f) (ofCause r >>= f') := by
  cases r with
  | ok a => exact hf a
  | error cause => exact renumbers_raise cause

theorem renumbers_call (n : Native) (args : List Value) :
    Renumbers c (Value.renumber c) (n.call args) (n.call (args.map (Value.renumber c))) := by
  unfold Native.call
  rw [Native.compute?_renumber]
  cases n.compute? args with
  | some r => exact renumbers_ofCause r
  | none =>
    cases n with
    | print => exact renumbers_printValues args
    | input =>
      match args with
      | [] => exact renumbers_readLine ""
      | [prompt] =>
        change Renumbers c _ (Native.readLine prompt.display)
          (Native.readLine (prompt.renumber c).display)
        rw [Value.display_renumber]
        exact renumbers_readLine _
      | v :: w :: rest =>
        change Renumbers c _ (raise (.nativeCount "input" 1 (v :: w :: rest).length))
          (raise (.nativeCount "input" 1 ((v :: w :: rest).map _).length))
        rw [List.length_map]
        exact renumbers_raise _
    | sleep =>
      dsimp only [Option.map_none]
      rw [Native.sleepSeconds_renumber]
      exact renumbers_computed _ fun _ => renumbers_asked (.sleep _) fun _ => renumbers_pure rfl
    | readFile =>
      dsimp only [Option.map_none]
      rw [Native.fileName_renumber]
      refine renumbers_computed _ fun name => renumbers_asked (.readFile name) fun text => ?_
      cases text with
      | some text => exact renumbers_pure rfl
      | none => exact renumbers_raise _
    | showImage =>
      dsimp only [Option.map_none]
      rw [Native.imageParts_renumber]
      exact renumbers_computed _ fun _ => renumbers_asked (.emit _) fun _ => renumbers_pure rfl
    | supplied f =>
      dsimp only [Option.map_none]
      rw [script_probe, script_probe, Native.crashReason_renumber, Native.outputOf_renumber]
      split
      · exact renumbers_crash _
      · exact renumbers_asked (.emit _) fun _ => renumbers_pure rfl
    | _ => exact renumbers_pure rfl

/-! ## Blocks and calls -/

/-- What is evaluated is so with other serial numbers too. -/
def Numbering.Evaluates (c : Numbering) (ev : Evaluator) : Prop :=
  ∀ n, Renumbers c (Value.renumber c) (ev n) (ev n)

section

variable {env : Environment} {ev : Evaluator}

theorem renumbers_runBlock (hev : c.Evaluates ev) (last : Value) (ns : Block) :
    Renumbers c (Value.renumber c) (runBlock ev last ns)
      (runBlock ev (last.renumber c) ns) := by
  induction ns generalizing last with
  | nil => exact renumbers_pure rfl
  | cons n ns ih =>
    exact renumbers_bind (renumbers_reportLine false n.line) fun _ => renumbers_bind (hev n) ih

theorem renumbers_body (hev : c.Evaluates ev) (ns : Block) :
    Renumbers c (Value.renumber c) (untilLeft (runBlock ev .nil ns))
      (untilLeft (runBlock ev .nil ns)) :=
  renumbers_untilLeft (renumbers_runBlock hev .nil ns)

theorem renumbers_evalAll (hev : c.Evaluates ev) (ns : List Node) :
    Renumbers c (List.map (Value.renumber c)) (evalAll ev ns) (evalAll ev ns) := by
  induction ns with
  | nil => exact renumbers_pure rfl
  | cons n ns ih =>
    exact renumbers_bind (hev n) fun v => renumbers_bind ih fun vs => renumbers_pure rfl

theorem renumbers_evalUntil (hev : c.Evaluates ev) (stop : Bool) (last : Value) (ns : List Node) :
    Renumbers c (Value.renumber c) (evalUntil ev stop last ns)
      (evalUntil ev stop (last.renumber c) ns) := by
  induction ns generalizing last with
  | nil => exact renumbers_pure rfl
  | cons n ns ih =>
    refine renumbers_bind (hev n) fun v => ?_
    rw [Value.isTrue_renumber]
    split
    · exact renumbers_pure rfl
    · exact ih v

theorem renumbers_callValue (hev : c.Evaluates ev) (callee : Value) (args : List Value) :
    Renumbers c (Value.renumber c) (callValue env ev callee args)
      (callValue env ev (callee.renumber c) (args.map (Value.renumber c))) := by
  cases callee with
  | function d home scope =>
    change Renumbers c _ (callFunction env ev d scope args) (callFunction env ev d scope _)
    unfold callFunction
    rw [List.length_map, Bindings.zip_renumber]
    split
    · exact renumbers_raise _
    · exact renumbers_enter ⟨d.name, d.file, d.line, none, some (d.params.zip args), scope⟩
        (renumbers_body hev d.body)
  | native n => exact renumbers_call n args
  | _ => exact renumbers_raise _

theorem renumbers_settle (hev : c.Evaluates ev) (rounds : Nat) (v : Value) :
    Renumbers c (Value.renumber c) (settle env ev rounds v)
      (settle env ev rounds (v.renumber c)) := by
  induction rounds generalizing v with
  | zero =>
    cases v with
    | deferred serial body locals file scope => exact renumbers_exhausted
    | _ => exact renumbers_pure rfl
  | succ rounds ih =>
    cases v with
    | deferred serial body locals file scope =>
      rw [Value.renumber_deferred]
      refine renumbers_bind ?_ ih
      exact renumbers_enter ⟨"<async>", file, firstLine body, none, some locals, scope⟩
        (renumbers_body hev body)
    | _ => exact renumbers_pure rfl

/-! ## Modules -/

theorem renumbers_runModule (hev : c.Evaluates ev) (name : String) (p : Program) :
    Renumbers c (Bindings.renumber c) (runModule env ev name p) (runModule env ev name p) := by
  refine renumbers_get fun m hm => ?_
  have hscope : (m.renumber c).namespaces.length = m.namespaces.length := List.length_map _
  rw [hscope]
  refine renumbers_set (m.openModule_renumber name p) hm ?_
  refine renumbers_bind (renumbers_enter ⟨"<module>", p.file, 1, none, none, m.namespaces.length⟩
    (renumbers_body hev p.body)) fun _ => renumbers_get fun m' hm' => ?_
  rw [m'.namespace_renumber]
  cases m'.namespaces[m.namespaces.length]? <;> exact .done hm'

theorem renumbers_load (hev : c.Evaluates ev) (hr : env.registry.serialBound ≤ c.base)
    (name : String) :
    Renumbers c (Value.renumber c) (load env ev name) (load env ev name) := by
  refine renumbers_get fun m hm => ?_
  have hloaded : (m.renumber c).loaded.get? name = (m.loaded.get? name).map (Value.renumber c) :=
    m.loaded.get?_renumber name
  rw [hloaded]
  cases m.loaded.get? name with
  | some v => exact .done hm
  | none =>
    cases hget : env.registry.get? name with
    | none => exact .done hm
    | some module =>
      obtain ⟨s, source⟩ := module
      cases source with
      | native members =>
        have hadd := renumbers_addModule (c := c) name members
        rw [Registry.renumber_members hr hget] at hadd
        exact hadd m hm
      | script p =>
        exact renumbers_bind (renumbers_runModule hev name p) (renumbers_addModule name) m hm

/-! ## Nodes -/

theorem renumbers_runLoop (hev : c.Evaluates ev) (line : Nat) (condition : Node) (body : Block)
    (rounds : Nat) (isFirst : Bool) :
    Renumbers c (Value.renumber c) (runLoop ev line condition body rounds isFirst)
      (runLoop ev line condition body rounds isFirst) := by
  induction rounds generalizing isFirst with
  | zero => exact renumbers_exhausted
  | succ rounds ih =>
    have round : Renumbers c (Value.renumber c)
        (do
          let c ← ev condition
          if c.isTrue then
            let _ ← runBlock ev .nil body
            runLoop ev line condition body rounds false
          else return .nil)
        (do
          let c ← ev condition
          if c.isTrue then
            let _ ← runBlock ev .nil body
            runLoop ev line condition body rounds false
          else return .nil) := by
      refine renumbers_bind (hev condition) fun v => ?_
      rw [Value.isTrue_renumber]
      split
      · exact renumbers_bind (renumbers_runBlock hev .nil body) fun _ => ih false
      · exact renumbers_pure rfl
    unfold runLoop
    split
    · exact renumbers_bind (renumbers_reportLine true line) fun _ => round
    · exact round

theorem renumbers_runAttempt (hev : c.Evaluates ev) (body : Block) (handlers : List Handler) :
    Renumbers c (Value.renumber c) (runAttempt ev body handlers)
      (runAttempt ev body handlers) := by
  refine renumbers_handle (renumbers_runBlock hev .nil body) fun r => ?_
  match r with
  | .ok v => exact renumbers_pure rfl
  | .error (.leave v) => exact renumbers_exit rfl
  | .error (.stop sig) => exact renumbers_exit rfl
  | .error (.raise e) =>
    dsimp only [Numbering.outcome, Exit.renumber]
    cases handlers.find? (·.catches e.name) with
    | none => exact renumbers_exit rfl
    | some h =>
      obtain ⟨name, binding, body⟩ := h
      have hbody := renumbers_runBlock hev .nil body
      cases binding with
      | none => exact hbody
      | some x => exact renumbers_bind (renumbers_name x (.text e.message)) fun _ => hbody

theorem renumbers_evalMessage (hev : c.Evaluates ev) (message : Option Node) :
    Renumbers c id (evalMessage ev message) (evalMessage ev message) := by
  cases message with
  | none => exact renumbers_pure rfl
  | some n =>
    refine renumbers_bind (hev n) fun v => ?_
    rw [Value.display_renumber]
    exact renumbers_pure rfl

/-- The step of the induction: a node is evaluated with other serial numbers if its parts are. -/
theorem renumbers_evalNode (hev : c.Evaluates ev) (hr : env.registry.serialBound ≤ c.base)
    (rounds : Nat) (n : Node) :
    Renumbers c (Value.renumber c) (evalNode env ev rounds n) (evalNode env ev rounds n) := by
  have bound (name : String) (v : Value) : Renumbers c (Value.renumber c)
      (do
        modify fun m => m.bind name v
        return Value.nil)
      (do
        modify fun m => m.bind name (v.renumber c)
        return Value.nil) :=
    renumbers_bind (renumbers_name name v) fun _ => renumbers_pure rfl
  cases n with
  | literal line l => cases l <;> exact renumbers_pure rfl
  | «variable» line name => exact renumbers_lookupName name
  | member line object member => exact renumbers_lookupMember object member
  | bind line name value => exact renumbers_bind (hev value) fun v => bound name v
  | assign line name value =>
    refine renumbers_bind (hev value) fun v => ?_
    exact renumbers_bind (renumbers_assignName name v) fun _ => renumbers_pure rfl
  | define line name params body file column =>
    exact renumbers_define name ⟨name, params, body, file, line, column⟩
  | branch line condition taken other =>
    refine renumbers_bind (hev condition) fun v => ?_
    rw [Value.isTrue_renumber]
    exact renumbers_runBlock hev .nil _
  | loop line condition body => exact renumbers_runLoop hev line condition body rounds true
  | block line body => exact renumbers_runBlock hev .nil body
  | leave line value =>
    cases value with
    | none => exact renumbers_exit rfl
    | some value => exact renumbers_bind (hev value) fun v => renumbers_exit rfl
  | load line name => exact renumbers_bind (renumbers_load hev hr name) fun v => bound name v
  | defer line body => exact renumbers_deferBody body
  | await line value =>
    exact renumbers_bind (hev value) fun v => renumbers_settle hev rounds v
  | allOf line items => exact renumbers_evalUntil hev false (.bool true) items
  | anyOf line items => exact renumbers_evalUntil hev true (.bool false) items
  | raise line name message =>
    exact renumbers_bind (renumbers_evalMessage hev message) fun text => renumbers_exit rfl
  | attempt line body handlers => exact renumbers_runAttempt hev body handlers
  | call line callee args =>
    refine renumbers_bind (renumbers_setLine line) fun _ => ?_
    refine renumbers_bind (hev callee) fun f => ?_
    refine renumbers_bind (renumbers_evalAll hev args) fun vs => ?_
    exact renumbers_bind (renumbers_setLine line) fun _ => renumbers_callValue hev f vs

theorem renumbers_eval (hr : env.registry.serialBound ≤ c.base) (fuel : Nat) :
    c.Evaluates (eval env fuel) := by
  induction fuel with
  | zero => exact fun n => renumbers_exhausted
  | succ fuel ih =>
    intro n
    rw [eval_succ]
    exact renumbers_withFrames (renumbers_asked .poll fun _ => renumbers_evalNode ih hr fuel n)

theorem renumbers_runProgram (hr : env.registry.serialBound ≤ c.base) (fuel : Nat) (p : Program) :
    Renumbers c (Value.renumber c) (runProgram env fuel p) (runProgram env fuel p) := by
  have hev := renumbers_eval hr fuel
  exact renumbers_enter ⟨"<module>", p.file, 1, none, none, 0⟩
    (renumbers_bind (renumbers_body hev p.body) fun v => renumbers_settle hev fuel v)

end
end Lispbox
