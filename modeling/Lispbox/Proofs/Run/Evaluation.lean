import Lispbox.Proofs.Run.Discipline
import Lispbox.Run.Eval

/-!
# Evaluation keeps a lawful discipline

One lemma for each change of the state (`Sound.step` and what follows from it), one for each part of
the evaluator, and `eval_evaluates` by induction on the fuel: an evaluator `ev` that is used for the
parts of a node is only known to be as required (`Discipline.Evaluates`), and `runs_evalNode` has
one case for each kind of node.

Calls, deferred bodies and modules leave the frames of their caller untouched; everything else keeps
them in the sense of `Machine.Kept`.
-/
namespace Lispbox
namespace Discipline

variable [Supply] {D : Discipline} {env : Environment} {m m' : Machine} {v : Value} {name : String}

/-! ## Changes of the state -/

theorem Valid.mono (hD : D.Lawful env) (ho : m.owners <+: m'.owners) (hv : D.Valid m v) :
    D.Valid m' v :=
  Value.All.mono (fun _ => hD.value_mono ho) hv

theorem valid_data (hD : D.Lawful env) (hc : v.isCode = false) (hp : v.parts = []) : D.Valid m v :=
  .of (hD.value_data hc) (by simp [hp])

omit [Supply] in
theorem Sound.valid (h : D.Sound m) (hv : m.Stores v) : D.Valid m v := h.stored v hv

/-- A change that keeps the frames and stores nothing that is not valid keeps the state sound. -/
theorem Sound.step (hD : D.Lawful env) (h : D.Sound m) (hk : m.Kept m')
    (hst : ∀ w, m'.Stores w → D.Valid m w ∨ m.Stores w) : D.Sound m' where
  stored w hw := by
    rcases hst w hw with hv | hv
    · exact hv.mono hD hk.owners
    · exact (h.valid hv).mono hD hk.owners
  places g hg := by
    refine hD.place_mono hk.owners ?_
    rcases hk.stack with ⟨-, hf'⟩ | ⟨f, f', fs, hf, hf', hs⟩
    · rw [hf'] at hg
      cases hg
    · rw [hf'] at hg
      rcases List.mem_cons.mp hg with rfl | hg
      · rw [Frame.file_eq hs, Frame.scope_eq hs]
        exact h.places f (by simp [hf])
      · exact h.places g (by simp [hf, hg])
  here := by
    rw [hk.code.1, hk.code.2]
    exact hD.place_mono hk.owners h.here

theorem Sound.setLine (hD : D.Lawful env) (h : D.Sound m) (line : Nat) : D.Sound (m.setLine line) :=
  h.step hD (Machine.kept_setLine m line) fun _ hw => .inr (Machine.stores_setLine hw)

theorem Sound.reportFrom (hD : D.Lawful env) (h : D.Sound m) (line : Nat) :
    D.Sound (m.reportFrom line) :=
  h.step hD (Machine.kept_reportFrom m line) fun _ hw => .inr (Machine.stores_reportFrom hw)

theorem Sound.binds (hD : D.Lawful env) (h : D.Sound m) (hv : D.Valid m v)
    (hb : m.Binds name v m') : D.Sound m' := by
  refine h.step hD hb.kept fun w hw => ?_
  rcases hb.stores hw with rfl | hw
  · exact .inl hv
  · exact .inr hw

theorem Sound.bind (hD : D.Lawful env) (h : D.Sound m) (hv : D.Valid m v) :
    D.Sound (m.bind name v) :=
  h.binds hD hv (Machine.binds_bind m name v)

theorem Sound.refuse (hD : D.Lawful env) (h : D.Sound m) : D.Sound m.refuse :=
  h.step hD (Machine.untouched_refuse m).kept fun _ hw => .inr hw

theorem Sound.advance (hD : D.Lawful env) (h : D.Sound m) : D.Sound m.advance :=
  h.step hD (Machine.untouched_advance m).kept fun _ hw => .inr hw

theorem Sound.openModule (hD : D.Lawful env) (h : D.Sound m) (name : String) (p : Program) :
    D.Sound (m.openModule name p) :=
  h.step hD (Machine.untouched_openModule m name p).kept fun _ hw =>
    .inr (Machine.stores_openModule hw)

theorem Sound.remember (hD : D.Lawful env) (h : D.Sound m) (hv : D.Valid m v) :
    D.Sound (m.remember name v) :=
  h.step hD (Machine.untouched_remember m name v).kept fun _ hw =>
    (Machine.stores_remember hw).imp_left (by rintro rfl; exact hv)

omit [Supply] in
theorem Sound.push {f : Frame} (h : D.Sound m) (hp : D.place m.owners f.file f.scope)
    (hv : ∀ w ∈ f.values, D.Valid m w) : D.Sound (m.push f) where
  stored w hw := by
    rcases Machine.stores_push hw with hw | hw
    · exact hv w hw
    · exact h.stored w hw
  places g hg := by
    rcases List.mem_cons.mp hg with rfl | hg
    · exact hp
    · exact h.places g hg
  here := hp

/-- The state after a body that had a frame of its own. -/
theorem Sound.pop {f : Frame} (hD : D.Lawful env) (h : D.Sound m) (hk : (m.push f).Kept m')
    (h' : D.Sound m') : D.Sound m'.pop where
  stored w hw := h'.stored w (Machine.stores_pop hw)
  places g hg := by
    rw [hk.pop.frames] at hg
    exact hD.place_mono hk.owners (h.places g hg)
  here := by
    rw [hk.pop.kept.code.1, hk.pop.kept.code.2]
    exact hD.place_mono hk.owners h.here

/-! ## Frames and lines -/

theorem runs_reportLine (hD : D.Lawful env) (h : D.Sound m) (always : Bool) {n : Node}
    (hn : D.node m.file n) :
    D.Runs (reportLine always n.line) m.Kept (fun _ _ => True) m := by
  unfold reportLine
  apply runs_get
  split
  · exact runs_pure (.refl m) h trivial
  · next f fs hf =>
    split
    · exact ⟨Machine.kept_setLine m n.line, h.setLine hD n.line, trivial⟩
    · apply runs_set
      refine runs_ask (Machine.kept_reportFrom m n.line) (h.reportFrom hD n.line) ?_
        fun _ => trivial
      have hm : (m.reportFrom n.line).frames =
          { f with line := n.line, reported := some n.line } :: fs := by
        simp [Machine.reportFrom, hf, Machine.withTop]
      rw [Machine.file, hf] at hn
      exact hD.asks_line (f := { f with line := n.line, reported := some n.line })
        (h.reportFrom hD n.line) hm rfl hn

/-- A body in a frame of its own. -/
theorem runs_enter (hD : D.Lawful env) (h : D.Sound m) {f : Frame} {body : Script Value}
    (hp : D.place m.owners f.file f.scope) (hv : ∀ w ∈ f.values, D.Valid m w)
    (hbody : D.Sound (m.push f) → D.Runs body (m.push f).Kept D.Valid (m.push f)) :
    D.Runs (enter env f body) m.Untouched D.Valid m := by
  unfold enter
  apply runs_get
  split
  · apply runs_set
    exact runs_raise (Machine.untouched_refuse m) (h.refuse hD)
      (hD.exception_cause fun name hc => by cases hc)
  · apply runs_set
    refine runs_handle (hbody (h.push hp hv)) (fun m' v hk hs hv => ?_) (fun m' e hk hs he => ?_)
      (fun m' v hk hs hv => ?_) fun m' sig hk => ⟨m'.pop, rfl, hk.pop, fun _ => .pop⟩
    · exact ⟨hk.pop, h.pop hD hk hs, hv⟩
    · exact ⟨hk.pop, h.pop hD hk hs, he⟩
    · exact ⟨hk.pop, h.pop hD hk hs, hv⟩

omit [Supply] in
theorem runs_untilLeft {s : Script Value} {K : Machine → Prop} (h : D.Runs s K D.Valid m) :
    D.Runs (untilLeft s) K D.Valid m :=
  runs_handle h (fun _ _ hk hs hv => ⟨hk, hs, hv⟩) (fun _ _ hk hs he => ⟨hk, hs, he⟩)
    (fun _ _ hk hs hv => ⟨hk, hs, hv⟩) fun m' _ hk => ⟨m', rfl, hk, fun _ h => h⟩

theorem runs_withFrames (hD : D.Lawful env) {s : Script Value} {K : Machine → Prop}
    (h : D.Runs s K D.Valid m) : D.Runs (withFrames s) K D.Valid m := by
  refine runs_handle h (fun _ _ hk hs hv => ⟨hk, hs, hv⟩) (fun m' e hk hs he => ?_)
    (fun _ _ hk hs hv => ⟨hk, hs, hv⟩) fun m' _ hk => ⟨m', rfl, hk, fun _ h => h⟩
  dsimp only
  split
  · exact runs_get (runs_exit_raise hk hs (hD.exception_frames he))
  · exact runs_exit_raise hk hs he

/-! ## Native functions -/

theorem runs_ofCause (hD : D.Lawful env) (h : D.Sound m) {r : Except Cause Value}
    (hr : Native.Yields (D.value m.owners) r) :
    D.Runs (Script.ofCause r) m.Untouched D.Valid m := by
  cases r with
  | ok v => exact runs_pure (.refl m) h (hr.1 v rfl)
  | error c => exact runs_raise (.refl m) h (hD.exception_cause fun name e => hr.2 name (by rw [e]))

/-- A computation whose result a native function goes on with. -/
theorem runs_compute (hD : D.Lawful env) (h : D.Sound m) {α β : Type} {r : Except Cause α}
    (hr : Native.NoImport r) {f : α → Script β} {R : Machine → β → Prop}
    (hf : ∀ a, D.Runs (f a) m.Untouched R m) :
    D.Runs (Script.ofCause r >>= f) m.Untouched R m := by
  cases r with
  | ok a => exact hf a
  | error c => exact runs_raise (.refl m) h (hD.exception_cause fun name e => hr name (by rw [e]))

/-- What a native function reports or asks, with an answer that it goes on with. -/
theorem runs_put (hD : D.Lawful env) (h : D.Sound m) {n : Native}
    (hn : D.value m.owners (.native n)) {q : Query} (hq : n.Puts q) {β : Type}
    {f : q.Answer → Script β} {R : Machine → β → Prop}
    (hf : ∀ a, D.Runs (f a) m.Untouched R m) : D.Runs (Script.ask q >>= f) m.Untouched R m :=
  ⟨rfl, hD.asks_native h hn hq, fun a => hf a, fun _ => ⟨.refl m, rfl, .refl m⟩⟩

theorem runs_readLine (hD : D.Lawful env) (h : D.Sound m)
    (hn : D.value m.owners (.native .input)) (prompt : String) :
    D.Runs (Native.readLine prompt) m.Untouched D.Valid m := by
  have asked : D.Runs (do
      let line ← Script.ask (.input prompt)
      Native.emitText .input (line ++ "\n")
      return .text line) m.Untouched D.Valid m := by
    refine runs_put hD h hn (.input prompt) fun line => ?_
    refine runs_put hD h hn (.echo _) fun _ => ?_
    exact runs_pure (.refl m) h (valid_data hD rfl rfl)
  unfold Native.readLine
  split
  · exact runs_put hD h hn (.prompt prompt) fun _ => asked
  · exact asked

/-- A native function keeps its hands off the frames. -/
theorem runs_native (hD : D.Lawful env) (h : D.Sound m) {n : Native}
    (hn : D.value m.owners (.native n)) {args : List Value} (hargs : ∀ v ∈ args, D.Valid m v) :
    D.Runs (n.call args) m.Untouched D.Valid m := by
  have gives {v : Value} (hc : v.isCode = false) (hp : v.parts = []) :
      D.Runs (pure v) m.Untouched D.Valid m := runs_pure (.refl m) h (valid_data hD hc hp)
  unfold Native.call
  split
  · next r hr =>
    have hyields := Native.compute?_all (fun _ hc => hD.value_data hc) hargs hr
    exact runs_ofCause hD h hyields
  · split
    · exact runs_put hD h hn (.print _) fun _ => gives rfl rfl
    · split
      · exact runs_readLine hD h hn _
      · exact runs_readLine hD h hn _
      · exact runs_raise (.refl m) h (hD.exception_cause nofun)
    · exact runs_compute hD h (Native.noImport_sleepSeconds args) fun _ =>
        runs_put hD h hn (.sleep _) fun _ => gives rfl rfl
    · refine runs_compute hD h (Native.noImport_fileName args) fun name => ?_
      refine runs_put hD h hn (.readFile name) fun text => ?_
      cases text with
      | some text => exact gives rfl rfl
      | none => exact runs_raise (.refl m) h (hD.exception_cause nofun)
    · exact runs_compute hD h (Native.noImport_imageParts args) fun p =>
        runs_put hD h hn (.showImage p.1 p.2) fun _ => gives rfl rfl
    · exact hD.runs_supplied h hn hargs
    · exact gives rfl rfl

/-! ## Blocks and calls -/

/-- The evaluation of a node is as required wherever the node is. -/
def Evaluates (D : Discipline) (ev : Evaluator) : Prop :=
  ∀ (n : Node) (m : Machine), D.Sound m → D.node m.file n → D.Runs (ev n) m.Kept D.Valid m

variable {ev : Evaluator}

omit [Supply] in
/-- Code of the innermost frame stays so. -/
theorem nodes_kept (hk : m.Kept m') {ns : List Node} (h : ∀ n ∈ ns, D.node m.file n) :
    ∀ n ∈ ns, D.node m'.file n := by
  rw [hk.code.1]
  exact h

theorem runs_runBlock (hD : D.Lawful env) (hev : D.Evaluates ev) (h : D.Sound m)
    {last : Value} (hl : D.Valid m last) {ns : Block} (hns : ∀ n ∈ ns, D.node m.file n) :
    D.Runs (runBlock ev last ns) m.Kept D.Valid m := by
  induction ns generalizing m last with
  | nil => exact runs_pure (.refl m) h hl
  | cons n ns ih =>
    refine runs_bind (runs_reportLine hD h false (hns n (by simp))) fun m₁ _ hk₁ h₁ _ =>
      .from hk₁ ?_
    have hns₁ := nodes_kept hk₁ hns
    refine runs_bind (hev n m₁ h₁ (hns₁ n (by simp))) fun m₂ v hk₂ h₂ hv => .from hk₂ ?_
    exact ih h₂ hv fun c hc => nodes_kept hk₂ hns₁ c (List.mem_cons_of_mem n hc)

/-- A block whose value is nil if it is empty. -/
theorem runs_body (hD : D.Lawful env) (hev : D.Evaluates ev) (h : D.Sound m) {ns : Block}
    (hns : ∀ n ∈ ns, D.node m.file n) : D.Runs (runBlock ev .nil ns) m.Kept D.Valid m :=
  runs_runBlock hD hev h (valid_data hD rfl rfl) hns

theorem runs_evalAll (hD : D.Lawful env) (hev : D.Evaluates ev) (h : D.Sound m) {ns : List Node}
    (hns : ∀ n ∈ ns, D.node m.file n) :
    D.Runs (evalAll ev ns) m.Kept (fun m vs => ∀ v ∈ vs, D.Valid m v) m := by
  induction ns generalizing m with
  | nil => exact runs_pure (.refl m) h (by simp)
  | cons n ns ih =>
    refine runs_bind (hev n m h (hns n (by simp))) fun m₁ v hk₁ h₁ hv => .from hk₁ ?_
    have hns₁ : ∀ c ∈ ns, D.node m₁.file c := fun c hc =>
      nodes_kept hk₁ hns c (List.mem_cons_of_mem n hc)
    refine runs_bind (ih h₁ hns₁) fun m₂ vs hk₂ h₂ hvs => runs_pure hk₂ h₂ fun w hw => ?_
    rcases List.mem_cons.mp hw with rfl | hw
    · exact hv.mono hD hk₂.owners
    · exact hvs w hw

omit [Supply] in
theorem runs_evalUntil (hev : D.Evaluates ev) (h : D.Sound m) {stop : Bool} {last : Value}
    (hl : D.Valid m last) {ns : List Node} (hns : ∀ n ∈ ns, D.node m.file n) :
    D.Runs (evalUntil ev stop last ns) m.Kept D.Valid m := by
  induction ns generalizing m last with
  | nil => exact runs_pure (.refl m) h hl
  | cons n ns ih =>
    refine runs_bind (hev n m h (hns n (by simp))) fun m₁ v hk₁ h₁ hv => .from hk₁ ?_
    split
    · exact runs_pure (.refl m₁) h₁ hv
    · exact ih h₁ hv fun c hc => nodes_kept hk₁ hns c (List.mem_cons_of_mem n hc)

theorem runs_callFunction (hD : D.Lawful env) (hev : D.Evaluates ev) (h : D.Sound m)
    {d : Definition} {home : Home} {scope : Nat} (hd : D.value m.owners (.function d home scope))
    {args : List Value} (hargs : ∀ v ∈ args, D.Valid m v) :
    D.Runs (callFunction env ev d scope args) m.Untouched D.Valid m := by
  obtain ⟨hplace, hbody⟩ := hD.function_body hd
  unfold callFunction
  split
  · exact runs_raise (.refl m) h (hD.exception_cause nofun)
  · exact runs_enter hD h hplace (fun w hw => hargs w (Bindings.mem_zip_values hw))
      fun h' => runs_untilLeft (runs_body hD hev h' hbody)

/-- Whatever is called, the caller finds its frames as they were. -/
theorem runs_callValue (hD : D.Lawful env) (hev : D.Evaluates ev) (h : D.Sound m)
    {callee : Value} (hc : D.Valid m callee) {args : List Value}
    (hargs : ∀ v ∈ args, D.Valid m v) :
    D.Runs (callValue env ev callee args) m.Untouched D.Valid m := by
  unfold callValue
  split
  · exact runs_callFunction hD hev h hc.self hargs
  · exact runs_native hD h hc.self hargs
  · exact runs_raise (.refl m) h (hD.exception_cause nofun)

/-- Deferred bodies leave the frames of the one that awaits them as they were. -/
theorem runs_settle (hD : D.Lawful env) (hev : D.Evaluates ev) (h : D.Sound m)
    (hv : D.Valid m v) (rounds : Nat) :
    D.Runs (settle env ev rounds v) m.Untouched D.Valid m := by
  fun_induction settle env ev rounds v generalizing m with
  | case1 => exact ⟨rfl, hD.aborts_exhausted⟩
  | case2 fuel serial body locals file scope ih =>
    obtain ⟨hplace, hbody⟩ := hD.deferred_body hv.self
    refine runs_bind (runs_enter hD h hplace (fun w hw => hv.part w hw) fun h' =>
      runs_untilLeft (runs_body hD hev h' hbody)) fun m₁ w hk₁ h₁ hw => .after hk₁ ?_
    exact ih w h₁ hw
  | case3 => exact runs_pure (.refl m) h hv

/-! ## Modules -/

theorem runs_addModule (hD : D.Lawful env) (h : D.Sound m) {members : Bindings}
    (hm : ∀ v ∈ members.values, D.Valid m v) :
    D.Runs (addModule name members) m.Untouched D.Valid m := by
  have hv : D.Valid m (.module m.serial name members) := .of (hD.value_data rfl) hm
  exact ⟨⟨rfl, List.prefix_refl _⟩, (h.advance hD).remember hD hv, hv⟩

theorem runs_runModule (hD : D.Lawful env) (hev : D.Evaluates ev) (h : D.Sound m) {s : String}
    {p : Program} (hp : env.registry.get? name = some ⟨s, .script p⟩) :
    D.Runs (runModule env ev name p) m.Untouched
      (fun m members => ∀ v ∈ Bindings.values members, D.Valid m v) m := by
  obtain ⟨hplace, hbody⟩ := hD.script_body (o := m.owners) hp
  have hopen := Machine.untouched_openModule m name p
  have howners : (m.openModule name p).owners = m.owners ++ [(.module name, p.file)] := by
    simp [Machine.owners, Machine.openModule]
  have hscope : m.namespaces.length = m.owners.length := by simp [Machine.owners]
  unfold runModule
  apply runs_get
  apply runs_set
  rw [hscope]
  refine runs_bind (.after hopen (runs_enter hD (h.openModule hD name p) (howners ▸ hplace)
    (by simp [Frame.values, Bindings.values]) fun h' =>
      runs_untilLeft (runs_body hD hev h' hbody))) fun m₁ _ hk₁ h₁ _ => ?_
  apply runs_get
  split
  · next n hn => exact runs_pure hk₁ h₁ fun v hv => h₁.valid (Machine.stores_of_namespace hn hv)
  · exact runs_pure hk₁ h₁ (by simp [Bindings.values])

/-- The body of a module leaves the frames of the one that imports it as they were. -/
theorem runs_load (hD : D.Lawful env) (hev : D.Evaluates ev) (h : D.Sound m) (line : Nat)
    (hn : D.node m.file (.load line name)) :
    D.Runs (load env ev name) m.Untouched D.Valid m := by
  unfold load
  apply runs_get
  split
  · next v hv => exact runs_pure (.refl m) h (h.valid (Machine.stores_loaded hv))
  · split
    · next hr => exact runs_raise (.refl m) h (hD.exception_noModule hn hr)
    · next hr => exact runs_addModule hD h (hD.value_member hr)
    · next hr =>
      refine runs_bind (runs_runModule hD hev h hr) fun m₁ members hk₁ h₁ hm => .after hk₁ ?_
      exact runs_addModule hD h₁ hm

/-! ## Nodes -/

theorem runs_lookupName (hD : D.Lawful env) (h : D.Sound m) (name : String) :
    D.Runs (lookupName name) m.Untouched D.Valid m := by
  unfold lookupName
  apply runs_get
  split
  · next v hv =>
    rcases Machine.stores_of_lookup hv with hs | ⟨n, hn, rfl⟩
    · exact runs_pure (.refl m) h (h.valid hs)
    · exact runs_pure (.refl m) h (.of (hD.value_builtin hn) (by simp [Value.parts]))
  · exact runs_raise (.refl m) h (hD.exception_cause fun name h => by cases h)

theorem runs_lookupMember (hD : D.Lawful env) (h : D.Sound m) (object member : String) :
    D.Runs (lookupMember object member) m.Untouched D.Valid m := by
  unfold lookupMember
  refine runs_bind (runs_lookupName hD h object) fun m₁ v hk₁ h₁ hv => ?_
  split
  · split
    · next w hw => exact runs_pure hk₁ h₁ (hv.part w (Bindings.mem_values_of_get? hw))
    · exact runs_raise hk₁ h₁ (hD.exception_cause fun name h => by cases h)
  · exact runs_raise hk₁ h₁ (hD.exception_cause fun name h => by cases h)

theorem runs_assignName (hD : D.Lawful env) (h : D.Sound m) (hv : D.Valid m v) (name : String) :
    D.Runs (assignName name v) m.Kept (fun _ _ => True) m := by
  unfold assignName
  apply runs_get
  split
  · next m' ha =>
    have hb := Machine.binds_assign ha
    exact ⟨hb.kept, h.binds hD hv hb, trivial⟩
  · exact runs_raise (.refl m) h (hD.exception_cause fun name h => by cases h)

/-- A round of a loop, and what follows it. -/
theorem runs_round (hD : D.Lawful env) (hev : D.Evaluates ev) (h : D.Sound m) {condition : Node}
    (hc : D.node m.file condition) {body : Block} (hb : ∀ n ∈ body, D.node m.file n)
    {rest : Script Value}
    (hrest : ∀ m', m.Kept m' → D.Sound m' → D.Runs rest m'.Kept D.Valid m') :
    D.Runs (do
      let c ← ev condition
      if c.isTrue then
        let _ ← runBlock ev .nil body
        rest
      else return .nil) m.Kept D.Valid m := by
  refine runs_bind (hev condition m h hc) fun m₁ c hk₁ h₁ _ => .from hk₁ ?_
  split
  · refine runs_bind (runs_body hD hev h₁ (nodes_kept hk₁ hb)) fun m₂ _ hk₂ h₂ _ => .from hk₂ ?_
    exact hrest m₂ (hk₁.trans hk₂) h₂
  · exact runs_pure (.refl m₁) h₁ (valid_data hD rfl rfl)

/-- The code of a loop. -/
theorem loop_parts (hD : D.Lawful env) {file : String} {line : Nat} {condition : Node}
    {body : Block} (hn : D.node file (.loop line condition body)) :
    D.node file condition ∧ ∀ n ∈ body, D.node file n :=
  List.forall_mem_cons.mp (hD.node_parts hn)

theorem runs_runLoop (hD : D.Lawful env) (hev : D.Evaluates ev) (h : D.Sound m) {line : Nat}
    {condition : Node} {body : Block} (hn : D.node m.file (.loop line condition body))
    (rounds : Nat) (isFirst : Bool) :
    D.Runs (runLoop ev line condition body rounds isFirst) m.Kept D.Valid m := by
  induction rounds generalizing m isFirst with
  | zero => exact ⟨rfl, hD.aborts_exhausted⟩
  | succ rounds ih =>
    obtain ⟨hc, hb⟩ := loop_parts hD hn
    have again : ∀ m', m.Kept m' → D.Sound m' →
        D.Runs (runLoop ev line condition body rounds false) m'.Kept D.Valid m' :=
      fun m' hk h' => ih h' (hk.code.1 ▸ hn) false
    unfold runLoop
    split
    · refine runs_bind (runs_reportLine hD h true hn) fun m₁ _ hk₁ h₁ _ => .from hk₁ ?_
      exact runs_round hD hev h₁ (hk₁.code.1 ▸ hc) (nodes_kept hk₁ hb)
        fun m' hk h' => again m' (hk₁.trans hk) h'
    · exact runs_round hD hev h hc hb again

/-- A signal passes the clauses that handle exceptions. -/
theorem runs_runAttempt (hD : D.Lawful env) (hev : D.Evaluates ev) (h : D.Sound m) {body : Block}
    (hb : ∀ n ∈ body, D.node m.file n) {handlers : List Handler}
    (hh : ∀ c ∈ handlers, ∀ n ∈ c.body, D.node m.file n) :
    D.Runs (runAttempt ev body handlers) m.Kept D.Valid m := by
  refine runs_handle (runs_body hD hev h hb) (fun _ _ hk hs hv => ⟨hk, hs, hv⟩)
    (fun m₁ e hk₁ h₁ he => ?_) (fun _ _ hk hs hv => ⟨hk, hs, hv⟩)
    fun m₁ _ hk₁ => ⟨m₁, rfl, hk₁, fun _ h => h⟩
  dsimp only
  split
  · exact runs_exit_raise hk₁ h₁ he
  · next c hc =>
    have hc₁ := nodes_kept hk₁ (hh c (List.mem_of_find?_eq_some hc))
    split
    · next name _ =>
      have hk₂ := (Machine.binds_bind m₁ name (.text e.message)).kept
      apply runs_modify
      refine .from (hk₁.trans hk₂) ?_
      exact runs_body hD hev (h₁.bind hD (valid_data hD rfl rfl)) (nodes_kept hk₂ hc₁)
    · exact .from hk₁ (runs_body hD hev h₁ hc₁)

omit [Supply] in
theorem runs_evalMessage (hev : D.Evaluates ev) (h : D.Sound m) {message : Option Node}
    (hn : ∀ n, message = some n → D.node m.file n) :
    D.Runs (evalMessage ev message) m.Kept (fun _ _ => True) m := by
  cases message with
  | none => exact runs_pure (.refl m) h trivial
  | some n =>
    exact runs_bind (hev n m h (hn n rfl)) fun m₁ _ hk₁ h₁ _ => runs_pure hk₁ h₁ trivial

theorem runs_deferBody (hD : D.Lawful env) (h : D.Sound m) {line : Nat} {body : Block}
    (hn : D.node m.file (.defer line body)) :
    D.Runs (deferBody body) m.Untouched D.Valid m := by
  have hv : D.Valid m (.deferred m.serial body m.locals m.file m.scope) :=
    .of (hD.value_deferred h.here hn) fun w hw => h.valid (Machine.stores_locals hw)
  exact ⟨Machine.untouched_advance m, h.advance hD, hv⟩

/-- The step of the induction: a node is evaluated as required if its parts are. -/
theorem runs_evalNode (hD : D.Lawful env) (hev : D.Evaluates ev) (rounds : Nat) (h : D.Sound m)
    {n : Node} (hn : D.node m.file n) : D.Runs (evalNode env ev rounds n) m.Kept D.Valid m := by
  have part : ∀ c ∈ n.parts, D.node m.file c := hD.node_parts hn
  have gives {m₀ m : Machine} {v : Value} (hk : m₀.Kept m) (h : D.Sound m) (hc : v.isCode = false)
      (hp : v.parts = []) : D.Runs (pure v) m₀.Kept D.Valid m :=
    runs_pure hk h (valid_data hD hc hp)
  cases n with
  | literal line l =>
    cases l <;> exact gives (.refl m) h rfl rfl
  | «variable» line name => exact (runs_lookupName hD h name).kept
  | member line object member => exact (runs_lookupMember hD h object member).kept
  | bind line name value =>
    refine runs_bind (hev value m h (part _ (by simp [Node.parts]))) fun m₁ v hk₁ h₁ hv => ?_
    exact gives (hk₁.trans (Machine.binds_bind m₁ name v).kept) (h₁.bind hD hv) rfl rfl
  | assign line name value =>
    refine runs_bind (hev value m h (part _ (by simp [Node.parts]))) fun m₁ v hk₁ h₁ hv => ?_
    refine runs_bind (.from hk₁ (runs_assignName hD h₁ hv name)) fun m₂ _ hk₂ h₂ _ => ?_
    exact gives hk₂ h₂ rfl rfl
  | define line name params body file column =>
    have hv : D.Valid m (.function ⟨name, params, body, file, line, column⟩ m.home m.scope) :=
      .of (hD.value_function h.here hn) (by simp [Value.parts])
    exact gives (Machine.binds_bind m name _).kept (h.bind hD hv) rfl rfl
  | branch line condition taken other =>
    refine runs_bind (hev condition m h (part _ (by simp [Node.parts]))) fun m₁ c hk₁ h₁ _ => ?_
    refine .from hk₁ (runs_body hD hev h₁ (nodes_kept hk₁ fun c hc => part c ?_))
    split at hc
    · simp [Node.parts, hc]
    · simp [Node.parts, hc]
  | loop line condition body =>
    exact runs_runLoop hD hev h hn rounds true
  | block line body => exact runs_body hD hev h part
  | leave line value =>
    cases value with
    | none => exact runs_exit_leave (.refl m) h (valid_data hD rfl rfl)
    | some value =>
      refine runs_bind (hev value m h (part _ (by simp [Node.parts]))) fun m₁ v hk₁ h₁ hv => ?_
      exact runs_exit_leave hk₁ h₁ hv
  | load line name =>
    refine runs_bind (runs_load hD hev h line hn).kept fun m₁ v hk₁ h₁ hv => ?_
    exact gives (hk₁.trans (Machine.binds_bind m₁ name v).kept) (h₁.bind hD hv) rfl rfl
  | defer line body => exact (runs_deferBody hD h hn).kept
  | await line value =>
    refine runs_bind (hev value m h (part _ (by simp [Node.parts]))) fun m₁ v hk₁ h₁ hv => ?_
    exact .from hk₁ (runs_settle hD hev h₁ hv rounds).kept
  | allOf line items => exact runs_evalUntil hev h (valid_data hD rfl rfl) part
  | anyOf line items => exact runs_evalUntil hev h (valid_data hD rfl rfl) part
  | raise line name message =>
    refine runs_bind (runs_evalMessage hev h fun c hc => part c ?_) fun m₁ _ hk₁ h₁ _ =>
      runs_exit_raise hk₁ h₁ (hD.exception_raised hn)
    simp [hc, Node.parts]
  | attempt line body handlers =>
    refine runs_runAttempt hD hev h (fun c hc => part c (by simp [Node.parts, hc]))
      fun c hc d hd => part d ?_
    simp only [Node.parts, List.mem_append, List.mem_flatMap]
    exact .inr ⟨c, hc, hd⟩
  | call line callee args =>
    have hk := Machine.kept_setLine m line
    have hcode := nodes_kept hk part
    apply runs_modify
    refine .from hk ?_
    refine runs_bind (hev callee _ (h.setLine hD line) (hcode _ (by simp [Node.parts])))
      fun m₁ f hk₁ h₁ hf => .from hk₁ ?_
    refine runs_bind (runs_evalAll hD hev h₁ fun c hc =>
      nodes_kept hk₁ hcode c (by simp [Node.parts, hc])) fun m₂ vs hk₂ h₂ hvs => .from hk₂ ?_
    have hk₃ := Machine.kept_setLine m₂ line
    apply runs_modify
    refine .from hk₃ (runs_callValue hD hev (h₂.setLine hD line) ?_ fun v hv => ?_).kept
    · exact hf.mono hD (hk₂.trans hk₃).owners
    · exact (hvs v hv).mono hD hk₃.owners

/-- Every evaluation meets a lawful discipline. -/
theorem eval_evaluates (hD : D.Lawful env) (fuel : Nat) : D.Evaluates (eval env fuel) := by
  induction fuel with
  | zero => exact fun n m h hn => ⟨rfl, hD.aborts_exhausted⟩
  | succ fuel ih =>
    intro n m h hn
    rw [eval_succ]
    refine runs_withFrames hD (runs_bind (Q := fun _ _ => True)
      (runs_ask (.refl m) h (hD.asks_poll h) fun _ => trivial) fun m₁ _ hk₁ h₁ _ => .from hk₁ ?_)
    exact runs_evalNode hD ih fuel h₁ (hk₁.code.1 ▸ hn)

/-- A program meets a lawful discipline, and in the end there are no frames. -/
theorem runs_runProgram (hD : D.Lawful env) {p : Program} (h : D.Sound (.start p))
    (hp : D.place (Machine.start p).owners p.file 0) (hb : ∀ n ∈ p.body, D.node p.file n)
    (fuel : Nat) :
    D.Runs (runProgram env fuel p) (Machine.start p).Untouched D.Valid (.start p) := by
  have hev := eval_evaluates hD fuel
  refine runs_enter hD h hp (by simp [Frame.values, Bindings.values]) fun h' => ?_
  refine runs_bind (runs_untilLeft (runs_body hD hev h' hb)) fun m₁ v hk₁ h₁ hv => .from hk₁ ?_
  exact (runs_settle hD hev h₁ hv fuel).kept

omit [Supply] in
/-- Nothing is bound at the start, and no frame is active. -/
theorem Sound.start {p : Program} (hp : D.place (Machine.start p).owners "<unknown>" 0) :
    D.Sound (.start p) where
  stored v hv := by simp [Machine.Stores, Machine.start, Bindings.values] at hv
  places f hf := by simp [Machine.start] at hf
  here := hp

end Discipline
end Lispbox
