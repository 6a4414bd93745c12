import Lispbox.Proofs.Run.Fuel

/-!
# What the operations of the evaluator respect

An evaluation is put together from few operations: the rules of scripts, the changes of the
innermost frame, what is read from the state, and bodies in frames of their own. A `Congruence` is a
relation between scripts that each of these operations respects. Then every evaluation is related to
itself (`Congruence.eval`), although the two sides may be evaluated in two environments with the
same modules.

The relation is indexed by the number of frames that a script works with, which are the innermost
ones: a node is evaluated in a frame, so the index is positive there, and for a body that begins it
is one higher. Of the exceptions that are raised the relation knows that they are `allowed`.

* `enter_block`: a body in a frame of its own. It reports its first line before anything else, or it
  is empty and does nothing.
* `Congruence.eval`: every evaluation, by induction on the fuel; one case for each kind of node.
-/
namespace Lispbox
open Script

/-- An exception that leaves is of some sort. -/
def Exit.Raises (allowed : Exception → Prop) : Exit → Prop
  | .raise e => allowed e
  | _ => True

/-- A relation that the operations of the evaluator respect (see the module doc). -/
structure Congruence [Supply] (env env' : Environment) where
  rel : Nat → {α : Type} → Script α → Script α → Prop
  allowed : Exception → Prop
  registry : env'.registry = env.registry
  -- the rules of scripts
  of_pure : ∀ {k : Nat} {α : Type} (a : α), rel k (pure a) (pure a)
  of_exit : ∀ {k : Nat} {α : Type} {e : Exit}, e.Raises allowed →
    rel k (exit e : Script α) (exit e)
  of_crash : ∀ {k : Nat} {α : Type} (reason : String),
    rel k (crash reason : Script α) (crash reason)
  of_exhausted : ∀ {k : Nat} {α : Type}, rel k (exhausted : Script α) exhausted
  of_ask : ∀ {k : Nat} {q : Query}, q.EmitsOutput → rel k (ask q) (ask q)
  of_bind : ∀ {k : Nat} {α β : Type} {s s' : Script α} {f f' : α → Script β}, rel k s s' →
    (∀ a, rel k (f a) (f' a)) → rel k (s >>= f) (s' >>= f')
  of_handle : ∀ {k : Nat} {α β : Type} {s s' : Script α} {f f' : Except Exit α → Script β},
    rel k s s' → (∀ r, (∀ e, r = .error e → e.Raises allowed) → rel k (f r) (f' r)) →
    rel k (outcome s >>= f) (outcome s' >>= f')
  of_supplied : ∀ {k : Nat} (f : Supplied) (args : List Value),
    rel k (Supply.act f args).script (Supply.act f args).script
  -- the innermost frame
  of_report : ∀ {k : Nat} (always : Bool) (line : Nat),
    rel (k + 1) (reportLine always line) (reportLine always line)
  of_setLine : ∀ {k : Nat} (line : Nat),
    rel (k + 1) (modify fun m => m.setLine line) (modify fun m => m.setLine line)
  of_name : ∀ {k : Nat} (name : String) (v : Value),
    rel (k + 1) (modify fun m => m.bind name v) (modify fun m => m.bind name v)
  of_assign : ∀ {k : Nat} (name : String) (v : Value),
    rel (k + 1) (assignName name v) (assignName name v)
  of_lookup : ∀ {k : Nat} (name : String), rel (k + 1) (lookupName name) (lookupName name)
  of_define : ∀ {k : Nat} (name : String) (d : Definition),
    rel (k + 1) (do let m ← get; set (m.bind name (.function d m.home m.scope)); return Value.nil)
      (do let m ← get; set (m.bind name (.function d m.home m.scope)); return Value.nil)
  of_defer : ∀ {k : Nat} (body : Block), rel (k + 1) (deferBody body) (deferBody body)
  of_trace : ∀ {k : Nat} {α : Type} {e : Exception}, allowed e → e.frames = [] →
    rel k (do let m ← get; exit (.raise { e with frames := m.traceback }) : Script α)
      (do let m ← get; exit (.raise { e with frames := m.traceback }))
  -- modules
  of_known : ∀ {k : Nat} (name : String) {s s' : Script Value}, rel k s s' →
    rel k (do let m ← get; match m.loaded.get? name with | some v => return v | none => s)
      (do let m ← get; match m.loaded.get? name with | some v => return v | none => s')
  of_open : ∀ {k : Nat} {α : Type} (name : String) (p : Program) {f f' : Nat → Script α},
    (∀ scope, rel k (f scope) (f' scope)) →
    rel k (do let m ← get; set (m.openModule name p); f m.namespaces.length)
      (do let m ← get; set (m.openModule name p); f' m.namespaces.length)
  of_members : ∀ {k : Nat} (scope : Nat),
    rel k (do
      let m ← get
      match m.namespaces[scope]? with
      | some n => return n.bindings
      | none => return []) (do
      let m ← get
      match m.namespaces[scope]? with
      | some n => return n.bindings
      | none => return [])
  of_add : ∀ {k : Nat} (name : String) (members : Bindings),
    rel k (addModule name members) (addModule name members)
  -- bodies in frames of their own
  of_empty : ∀ {k : Nat} (f : Frame) (v : Value),
    rel k (enter env f (pure v)) (enter env' f (pure v))
  of_body : ∀ {k : Nat} {f : Frame} (line : Nat) {s s' : Script Value}, f.reported = none →
    rel (k + 1) s s' →
    rel k (enter env f (do reportLine false line; s)) (enter env' f (do reportLine false line; s'))
  -- the exceptions that are raised
  allowed_cause : ∀ c, allowed (.ofCause c)
  allowed_raised : ∀ name message, allowed (.raised name message)

/-- A line is reported by a question, or not at all. -/
theorem reportLine_cases (always : Bool) (line : Nat) (m : Machine) :
    reportLine always line m = .done (.ok ()) (m.setLine line) ∨
      ∃ file, reportLine always line m = Script.ask (.line file line) (m.reportFrom line) := by
  have hget (f : Machine → Script Unit) : (Script.get >>= f) m = f m m := rfl
  unfold reportLine
  rw [hget]
  cases hf : m.frames with
  | nil =>
    refine .inl ?_
    rw [Machine.setLine, hf]
    rfl
  | cons f fs =>
    dsimp only
    split
    · exact .inl rfl
    · exact .inr ⟨f.file, rfl⟩

/-- Nothing leaves a body while a line is reported. -/
theorem untilLeft_reportLine (always : Bool) (line : Nat) (s : Script Value) :
    untilLeft (do reportLine always line; s) = (do reportLine always line; untilLeft s) := by
  funext m
  change Dialogue.bind (Dialogue.bind (Dialogue.bind (reportLine always line m) _) _) _ =
    Dialogue.bind (reportLine always line m) _
  rcases reportLine_cases always line m with h | ⟨file, h⟩ <;> rw [h]
  · rfl
  · refine congrArg (Dialogue.ask (m.reportFrom line) _) (funext fun a => ?_)
    cases a <;> rfl

namespace Congruence

variable [Supply] {env env' : Environment} (C : Congruence env env') {k : Nat}

/-! ## Scripts -/

theorem of_ofExcept {α : Type} {r : Except Exit α} (hr : ∀ e, r = .error e → e.Raises C.allowed) :
    C.rel k (ofExcept r) (ofExcept r) := by
  cases r with
  | ok a => exact C.of_pure a
  | error e => exact C.of_exit (hr e rfl)

theorem of_raise {α : Type} (c : Cause) : C.rel k (raise c : Script α) (raise c) :=
  C.of_exit (C.allowed_cause c)

/-- What a script does after it has asked. -/
theorem of_asked {α : Type} {q : Query} (hq : q.EmitsOutput) {f f' : q.Answer → Script α}
    (hf : ∀ a, C.rel k (f a) (f' a)) : C.rel k (ask q >>= f) (ask q >>= f') :=
  C.of_bind (C.of_ask hq) hf

theorem of_untilLeft {s s' : Script Value} (hs : C.rel k s s') :
    C.rel k (untilLeft s) (untilLeft s') := by
  refine C.of_handle hs fun r hr => ?_
  split
  · exact C.of_pure _
  · exact C.of_ofExcept hr

theorem of_withFrames {α : Type} {s s' : Script α} (hs : C.rel k s s') :
    C.rel k (withFrames s) (withFrames s') := by
  refine C.of_handle hs fun r hr => ?_
  split
  · next e =>
    split
    · next hempty => exact C.of_trace (hr _ rfl) (List.isEmpty_iff.mp hempty)
    · exact C.of_exit (hr _ rfl)
  · exact C.of_ofExcept hr

/-! ## Native functions -/

theorem of_talk {α : Type} {n : Native} {s : Script α} (h : s.Talks n.Puts) : C.rel k s s := by
  induction h with
  | pure a => exact C.of_pure a
  | raise c => exact C.of_raise c
  | crash reason => exact C.of_crash reason
  | ask hq _ ih => exact C.of_asked hq.emitsOutput ih

theorem of_native (n : Native) (args : List Value) : C.rel k (n.call args) (n.call args) := by
  rcases n.supplied_or_shipped with ⟨f, rfl⟩ | hn
  · exact C.of_supplied f args
  · exact C.of_talk (Native.talks_shipped hn args)

/-! ## Blocks and calls -/

/-- Nodes are evaluated in the innermost frame. -/
def Evaluates (ev ev' : Evaluator) : Prop := ∀ (k : Nat) (n : Node), C.rel (k + 1) (ev n) (ev' n)

variable {ev ev' : Evaluator}

theorem of_runBlock (hev : C.Evaluates ev ev') (last : Value) (ns : Block) :
    C.rel (k + 1) (runBlock ev last ns) (runBlock ev' last ns) := by
  induction ns generalizing last with
  | nil => exact C.of_pure last
  | cons n ns ih =>
    exact C.of_bind (C.of_report false n.line) fun _ => C.of_bind (hev k n) fun v => ih v

theorem of_evalAll (hev : C.Evaluates ev ev') (ns : List Node) :
    C.rel (k + 1) (evalAll ev ns) (evalAll ev' ns) := by
  induction ns with
  | nil => exact C.of_pure []
  | cons n ns ih => exact C.of_bind (hev k n) fun v => C.of_bind ih fun vs => C.of_pure (v :: vs)

theorem of_evalUntil (hev : C.Evaluates ev ev') (stop : Bool) (last : Value) (ns : List Node) :
    C.rel (k + 1) (evalUntil ev stop last ns) (evalUntil ev' stop last ns) := by
  induction ns generalizing last with
  | nil => exact C.of_pure last
  | cons n ns ih =>
    refine C.of_bind (hev k n) fun v => ?_
    split
    · exact C.of_pure v
    · exact ih v

/-- A body in a frame of its own. -/
theorem enter_block (hev : C.Evaluates ev ev') {f : Frame} (hf : f.reported = none) (ns : Block) :
    C.rel k (enter env f (untilLeft (runBlock ev .nil ns)))
      (enter env' f (untilLeft (runBlock ev' .nil ns))) := by
  cases ns with
  | nil => exact C.of_empty f .nil
  | cons n ns =>
    have block (ev : Evaluator) : untilLeft (runBlock ev .nil (n :: ns)) = (do
        reportLine false n.line
        untilLeft (ev n >>= fun v => runBlock ev v ns)) := untilLeft_reportLine false n.line _
    rw [block ev, block ev']
    refine C.of_body n.line hf (C.of_untilLeft ?_)
    exact C.of_bind (hev k n) fun v => C.of_runBlock hev v ns

theorem of_callValue (hev : C.Evaluates ev ev') (callee : Value) (args : List Value) :
    C.rel k (callValue env ev callee args) (callValue env' ev' callee args) := by
  unfold callValue
  split
  · unfold callFunction
    split
    · exact C.of_raise _
    · exact C.enter_block hev rfl _
  · exact C.of_native _ args
  · exact C.of_raise _

theorem of_settle (hev : C.Evaluates ev ev') (rounds : Nat) (v : Value) :
    C.rel k (settle env ev rounds v) (settle env' ev' rounds v) := by
  by_cases hd : v.IsDeferred
  · induction rounds generalizing v with
    | zero =>
      cases v <;> cases hd
      exact C.of_exhausted
    | succ rounds ih =>
      cases v <;> cases hd
      refine C.of_bind (C.enter_block hev rfl _) fun w => ?_
      by_cases hw : w.IsDeferred
      · exact ih w hw
      · rw [settle_of_not_deferred hw, settle_of_not_deferred hw]
        exact C.of_pure w
  · rw [settle_of_not_deferred hd, settle_of_not_deferred hd]
    exact C.of_pure v

/-! ## Modules -/

theorem of_runModule (hev : C.Evaluates ev ev') (name : String) (p : Program) :
    C.rel k (runModule env ev name p) (runModule env' ev' name p) := by
  have body (scope : Nat) :=
    C.of_bind (C.enter_block (k := k) hev (f := ⟨"<module>", p.file, 1, none, none, scope⟩) rfl
      p.body) fun _ => C.of_members scope
  exact C.of_open name p body

theorem of_load (hev : C.Evaluates ev ev') (name : String) :
    C.rel k (load env ev name) (load env' ev' name) := by
  unfold load
  rw [C.registry]
  refine C.of_known name ?_
  split
  · exact C.of_raise _
  · exact C.of_add name _
  · exact C.of_bind (C.of_runModule hev name _) fun members => C.of_add name members

/-! ## Nodes -/

theorem of_lookupMember (object member : String) :
    C.rel (k + 1) (lookupMember object member) (lookupMember object member) := by
  refine C.of_bind (C.of_lookup object) fun v => ?_
  split
  · split
    · exact C.of_pure _
    · exact C.of_raise _
  · exact C.of_raise _

theorem of_runLoop (hev : C.Evaluates ev ev') (line : Nat) (condition : Node) (body : Block)
    (rounds : Nat) (isFirst : Bool) :
    C.rel (k + 1) (runLoop ev line condition body rounds isFirst)
      (runLoop ev' line condition body rounds isFirst) := by
  induction rounds generalizing isFirst with
  | zero => exact C.of_exhausted
  | succ rounds ih =>
    have round : C.rel (k + 1)
        (do
          let c ← ev condition
          if c.isTrue then
            let _ ← runBlock ev .nil body
            runLoop ev line condition body rounds false
          else return .nil)
        (do
          let c ← ev' condition
          if c.isTrue then
            let _ ← runBlock ev' .nil body
            runLoop ev' line condition body rounds false
          else return .nil) := by
      refine C.of_bind (hev k condition) fun c => ?_
      split
      · exact C.of_bind (C.of_runBlock hev .nil body) fun _ => ih false
      · exact C.of_pure Value.nil
    unfold runLoop
    split
    · exact C.of_bind (C.of_report true line) fun _ => round
    · exact round

theorem of_runAttempt (hev : C.Evaluates ev ev') (body : Block) (handlers : List Handler) :
    C.rel (k + 1) (runAttempt ev body handlers) (runAttempt ev' body handlers) := by
  refine C.of_handle (C.of_runBlock hev .nil body) fun r hr => ?_
  split
  · split
    · exact C.of_exit (hr _ rfl)
    · next h _ =>
      split
      · exact C.of_bind (C.of_name _ _) fun _ => C.of_runBlock hev .nil h.body
      · exact C.of_bind (C.of_pure ()) fun _ => C.of_runBlock hev .nil h.body
  · exact C.of_ofExcept hr

theorem of_evalMessage (hev : C.Evaluates ev ev') (message : Option Node) :
    C.rel (k + 1) (evalMessage ev message) (evalMessage ev' message) := by
  cases message with
  | none => exact C.of_pure ""
  | some n => exact C.of_bind (hev k n) fun v => C.of_pure v.display

/-- The step of the induction: a node is related to itself if its parts are. -/
theorem of_evalNode (hev : C.Evaluates ev ev') (rounds : Nat) (n : Node) :
    C.rel (k + 1) (evalNode env ev rounds n) (evalNode env' ev' rounds n) := by
  have bound (name : String) (v : Value) : C.rel (k + 1)
      (do
        modify fun m => m.bind name v
        return Value.nil)
      (do
        modify fun m => m.bind name v
        return Value.nil) :=
    C.of_bind (C.of_name name v) fun _ => C.of_pure Value.nil
  cases n with
  | literal line l => exact C.of_pure l.value
  | «variable» line name => exact C.of_lookup name
  | member line object member => exact C.of_lookupMember object member
  | bind line name value => exact C.of_bind (hev k value) fun v => bound name v
  | assign line name value =>
    refine C.of_bind (hev k value) fun v => ?_
    exact C.of_bind (C.of_assign name v) fun _ => C.of_pure Value.nil
  | define line name params body file column =>
    exact C.of_define name ⟨name, params, body, file, line, column⟩
  | branch line condition taken other =>
    exact C.of_bind (hev k condition) fun c => C.of_runBlock hev .nil _
  | loop line condition body => exact C.of_runLoop hev line condition body rounds true
  | block line body => exact C.of_runBlock hev .nil body
  | leave line value =>
    cases value with
    | none => exact C.of_exit trivial
    | some value => exact C.of_bind (hev k value) fun v => C.of_exit trivial
  | load line name => exact C.of_bind (C.of_load hev name) fun v => bound name v
  | defer line body => exact C.of_defer body
  | await line value => exact C.of_bind (hev k value) fun v => C.of_settle hev rounds v
  | allOf line items => exact C.of_evalUntil hev false (.bool true) items
  | anyOf line items => exact C.of_evalUntil hev true (.bool false) items
  | raise line name message =>
    exact C.of_bind (C.of_evalMessage hev message) fun text =>
      C.of_exit (C.allowed_raised name text)
  | attempt line body handlers => exact C.of_runAttempt hev body handlers
  | call line callee args =>
    refine C.of_bind (C.of_setLine line) fun _ => C.of_bind (hev k callee) fun f => ?_
    refine C.of_bind (C.of_evalAll hev args) fun vs => C.of_bind (C.of_setLine line) fun _ => ?_
    exact C.of_callValue hev f vs

/-- Every evaluation is related to itself. -/
theorem eval (fuel : Nat) : C.Evaluates (eval env fuel) (eval env' fuel) := by
  induction fuel with
  | zero => exact fun k n => C.of_exhausted
  | succ fuel ih =>
    intro k n
    rw [eval_succ, eval_succ]
    exact C.of_withFrames (C.of_asked (q := .poll) nofun fun _ => C.of_evalNode ih fuel n)

/-- What the main program does in its frame. -/
theorem of_main (fuel : Nat) (p : Program) :
    C.rel (k + 1) (do
      let v ← untilLeft (runBlock (Lispbox.eval env fuel) .nil p.body)
      settle env (Lispbox.eval env fuel) fuel v) (do
      let v ← untilLeft (runBlock (Lispbox.eval env' fuel) .nil p.body)
      settle env' (Lispbox.eval env' fuel) fuel v) :=
  C.of_bind (C.of_untilLeft (C.of_runBlock (C.eval fuel) .nil p.body)) fun v =>
    C.of_settle (C.eval fuel) fuel v

end Congruence
end Lispbox
