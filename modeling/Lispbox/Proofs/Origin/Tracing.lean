import Lispbox.Proofs.Origin.Telling
import Lispbox.Proofs.Run.Watch

/-!
# Keeping account of an evaluation

The evaluator that keeps account and `eval` go side by side, in every state that meets a lawful
discipline. One lemma for each part of the evaluator; an evaluator that is used for the parts of a
node is only known to be accounted for (`Discipline.Accounted`), and `tells_evalNode` has one case
for each kind of node.

* `accounted_eval`: every evaluation is accounted for, by induction on the fuel.
* `tells_main`: the main program. Of all exceptions only one may go without an origin in a node: a
  frame that is refused when the statements of the program are over.
-/
namespace Lispbox
open Script

namespace Discipline

variable {D : Discipline} {env : Environment} {α β : Type} {P : Nat → Prop}
  {bare : Origin → Prop} {m : Machine} {w : Site} {path outer : Trail}

theorem tells_reportLine (always : Bool) (line : Nat) :
    D.Tells (· = line) (fun _ => False) (Account.quiet (reportLine always line))
      (reportLine always line) m := by
  unfold Tells
  change ((reportLine always line m).bind _).Parallel _ _
  rcases reportLine_cases always line m with h | ⟨file, h⟩ <;> rw [h]
  · exact .done ⟨rfl, m.line?_setLine line⟩
  · refine .ask _ _ fun a => ?_
    cases a with
    | ok a => exact .done ⟨rfl, m.line?_reportFrom line⟩
    | error sig => exact .done rfl

/-! ## Blocks and bodies -/

/-- The evaluations of a node go side by side wherever the node is evaluated. -/
def Follows (D : Discipline) (tr : Tracer) (ev : Evaluator) : Prop :=
  ∀ (n : Node) (w : Site) (m : Machine), D.Sound m → D.node m.file n → D.Holds w m → w.Covers n →
    D.Tells (· ∈ w.lines ++ n.moves) (fun _ => False) (tr w n) (ev n) m

/-- An evaluator and the one that keeps account. -/
structure Accounted (D : Discipline) (tr : Tracer) (ev : Evaluator) : Prop where
  evaluates : D.Evaluates ev
  follows : D.Follows tr ev

variable {tr : Tracer} {ev : Evaluator}

theorem tells_block (hD : D.Lawful env) (hev : D.Accounted tr ev) (h : D.Sound m)
    (hst : D.Stands outer m) (hl : ∀ l ∈ m.line?, P l) {last : Value} {ns : Block}
    (hns : ∀ n ∈ ns, D.node m.file n) (hP : ∀ l ∈ movesOfBlock ns, P l) :
    D.Tells P (fun _ => False) (traceBlock tr outer last ns) (runBlock ev last ns) m := by
  induction ns generalizing m last with
  | nil => exact tells_pure hl
  | cons n ns ih =>
    have hmoves : ∀ l ∈ [n.line] ++ n.moves, P l := fun l hl => hP l (by
      simp only [movesOfBlock, List.mem_cons, List.mem_append] at hl ⊢
      tauto)
    refine tells_bind (tells_reportLine false n.line) (runs_reportLine hD h false (hns n (by simp)))
      (fun m₁ _ hk₁ h₁ _ hl₁ => ?_) (by rintro _ rfl; exact hP _ (by simp [movesOfBlock]))
      fun _ hb => hb
    have hns₁ := nodes_kept hk₁ hns
    have hsite : D.Holds ⟨n, [], outer⟩ m₁ :=
      ⟨hst.kept hk₁, fun l hl => List.mem_singleton.mpr (hl₁ l hl)⟩
    refine tells_bind (hev.follows n _ m₁ h₁ (hns₁ n (by simp)) hsite (.inr .self))
      (hev.evaluates n m₁ h₁ (hns₁ n (by simp))) (fun m₂ v hk₂ h₂ _ hl₂ => ?_) hmoves fun _ hb => hb
    exact ih h₂ (hsite.stands.kept hk₂) (fun l hl => hmoves l (hl₂ l hl))
      (fun c hc => nodes_kept hk₂ hns₁ c (List.mem_cons_of_mem n hc))
      fun l hl => hP l (by simp [movesOfBlock, hl])

theorem tells_body (hD : D.Lawful env) (hev : D.Accounted tr ev) (h : D.Sound m)
    (hst : D.Stands outer m) {ns : Block} (hns : ∀ n ∈ ns, D.node m.file n) :
    D.Tells (fun _ => True) (fun _ => False) (traceBody tr outer ns)
      (untilLeft (runBlock ev .nil ns)) m := by
  have hblock : D.Tells (fun _ => True) (fun _ => False) (traceBlock tr outer .nil ns)
      (runBlock ev .nil ns) m :=
    tells_block hD hev h hst (fun _ _ => trivial) hns fun _ _ => trivial
  unfold Tells
  change (((traceBlock tr outer .nil ns m).bind _).bind _).Parallel _
    (((runBlock ev .nil ns m).bind _).bind _)
  rw [Dialogue.bind_assoc, Dialogue.bind_assoc]
  refine .bind (Dialogue.Parallel.mono hblock fun r r' m' hr => ?_)
  match r, r', hr with
  | .ok a, .ok b, hr => exact .done hr
  | .error (.raise o), .error (.raise e), hr => exact .done hr
  | .error (.leave v), .error (.leave v'), hr => exact .done ⟨hr, fun _ _ => trivial⟩
  | .error (.stop sig), .error (.stop sig'), hr => exact .done hr

theorem traceEnter_full {f : Frame} {body : Account Value} (hfull : env.depth ≤ m.frames.length) :
    traceEnter env path f body m = Account.of path (raise .depthExceeded) m.refuse := by
  change (if env.depth ≤ m.frames.length then _ else _ : Account Value) m = _
  rw [if_pos hfull]
  rfl

theorem traceEnter_room {f : Frame} {body : Account Value} (hroom : m.frames.length < env.depth) :
    traceEnter env path f body m = (body (m.push f)).bind fun r m => .done r m.pop := by
  change (if env.depth ≤ m.frames.length then _ else _ : Account Value) m = _
  rw [if_neg (Nat.not_le_of_lt hroom)]
  exact Dialogue.bind_assoc (body (m.push f)) _ _

/-- A body in a frame of its own. -/
theorem tells_enter (hD : D.Lawful env) (h : D.Sound m) (hfit : D.Fit path m.frames)
    (hl : ∀ l ∈ m.line?, P l) {f : Frame} (hp : D.place m.owners f.file f.scope)
    (hv : ∀ v ∈ f.values, D.Valid m v) (hev : D.Accounted tr ev) {ns : Block}
    (hns : ∀ n ∈ ns, D.node f.file n) :
    D.Tells P (fun o => o.trail = path ∧ o.IsRefusal env)
      (traceEnter env path f (traceBody tr path ns))
      (enter env f (untilLeft (runBlock ev .nil ns))) m := by
  unfold Tells
  rcases Nat.lt_or_ge m.frames.length env.depth with hroom | hfull
  · have h' : D.Sound (m.push f) := h.push hp hv
    have hst : D.Stands path (m.push f) := ⟨f, m.frames, rfl, hfit⟩
    have hruns := runs_untilLeft (runs_body hD hev.evaluates h' hns)
    rw [enter_room hroom, traceEnter_room hroom]
    refine .bind ((Dialogue.Parallel.every (tells_body hD hev h' hst hns) hruns).mono
      fun r r' m' ⟨hr, g, hv⟩ => .done ?_)
    have hl' : ∀ l ∈ m'.pop.line?, P l := by
      rw [hv.state.pop.line?]
      exact hl
    match r, r', hr with
    | .ok a, .ok b, hr => exact ⟨hr.1, hl'⟩
    | .error (.leave v), .error (.leave v'), hr => exact hr
    | .error (.stop sig), .error (.stop sig'), hr => exact hr
    | .error (.raise o), .error (.raise e), ⟨⟨horigin, hu, he⟩, _⟩ =>
      rcases he with he | ⟨hno, -⟩
      · exact ⟨⟨horigin, hu.pop, .inl he⟩, hl'⟩
      · exact hno.elim
  · rw [enter_full hfull, traceEnter_full hfull]
    exact tells_raise rfl (h.refuse hD) hfit hl ⟨rfl, rfl, hfull⟩

/-! ## Calls and modules -/

theorem tells_callValue (hD : D.Lawful env) (hev : D.Accounted tr ev) (h : D.Sound m)
    (hfit : D.Fit path m.frames) (hl : ∀ l ∈ m.line?, P l) {callee : Value}
    (hc : D.Valid m callee) {args : List Value} (hargs : ∀ v ∈ args, D.Valid m v) :
    D.Tells P (fun o => o.trail = path) (traceCall env tr path callee args)
      (callValue env ev callee args) m := by
  cases callee with
  | function d home scope =>
    obtain ⟨hplace, hbody⟩ := hD.function_body hc.self
    unfold traceCall callValue
    dsimp only
    unfold traceFunction callFunction
    split
    · exact tells_raise rfl h hfit hl rfl
    · refine (tells_enter hD h hfit hl hplace ?_ hev hbody).mono (fun _ h => h) fun _ h => h.1
      exact fun v hv => hargs v (Bindings.mem_zip_values hv)
  | native n =>
    exact tells_of (bare_native n args) (runs_native hD h hc.self hargs) hfit hl fun _ h => h
  | _ => exact tells_raise rfl h hfit hl rfl

theorem traceSettle_of_not_deferred {v : Value} (h : ¬ v.IsDeferred) (rounds : Nat) :
    traceSettle env tr path rounds v = pure v := by
  unfold traceSettle
  split
  · exact absurd rfl h
  · exact absurd rfl h
  · rfl

theorem tells_settle (hD : D.Lawful env) (hev : D.Accounted tr ev) (h : D.Sound m)
    (hfit : D.Fit path m.frames) (hl : ∀ l ∈ m.line?, P l) {v : Value} (hv : D.Valid m v)
    (rounds : Nat) :
    D.Tells P (fun o => o.trail = path ∧ o.IsRefusal env) (traceSettle env tr path rounds v)
      (settle env ev rounds v) m := by
  by_cases hd : v.IsDeferred
  · induction rounds generalizing m v with
    | zero =>
      cases v <;> cases hd
      exact tells_exhausted
    | succ rounds ih =>
      cases v with
      | deferred serial body locals file scope =>
        obtain ⟨hplace, hbody⟩ := hD.deferred_body hv.self
        have hvalues : ∀ w ∈
            (⟨"<async>", file, firstLine body, none, some locals, scope⟩ : Frame).values,
            D.Valid m w := fun w hw => hv.part w hw
        refine tells_bind (tells_enter hD h hfit hl hplace hvalues hev hbody)
          (runs_enter hD h hplace hvalues fun h' =>
            runs_untilLeft (runs_body hD hev.evaluates h' hbody))
          (fun m₁ w hk₁ h₁ hw hl₁ => ?_) (fun _ h => h) fun _ h => h
        have hfit₁ : D.Fit path m₁.frames := hk₁.frames ▸ hfit
        by_cases hd' : w.IsDeferred
        · exact ih h₁ hfit₁ hl₁ hw hd'
        · rw [traceSettle_of_not_deferred hd', settle_of_not_deferred hd']
          exact tells_pure hl₁
      | _ => cases hd
  · rw [traceSettle_of_not_deferred hd, settle_of_not_deferred hd]
    exact tells_pure hl

theorem tells_module (hD : D.Lawful env) (hev : D.Accounted tr ev) (h : D.Sound m)
    (hfit : D.Fit path m.frames) (hl : ∀ l ∈ m.line?, P l) {name s : String} {p : Program}
    (hp : env.registry.get? name = some ⟨s, .script p⟩) :
    D.Tells P (fun o => o.trail = path) (traceModule env tr path name p)
      (runModule env ev name p) m := by
  obtain ⟨hplace, hbody⟩ := hD.script_body (o := m.owners) hp
  have howners : (m.openModule name p).owners = m.owners ++ [(.module name, p.file)] := by
    simp [Machine.owners, Machine.openModule]
  have hscope : m.namespaces.length = m.owners.length := by simp [Machine.owners]
  have h' := h.openModule hD name p
  have hvalues : ∀ v ∈ (⟨"<module>", p.file, 1, none, none, m.owners.length⟩ : Frame).values,
      D.Valid (m.openModule name p) v := by simp [Frame.values, Bindings.values]
  unfold traceModule runModule
  refine tells_get (tells_set ?_)
  rw [hscope]
  refine tells_bind (tells_enter hD h' hfit hl (howners ▸ hplace) hvalues hev hbody)
    (runs_enter hD h' (howners ▸ hplace) hvalues fun h' =>
      runs_untilLeft (runs_body hD hev.evaluates h' hbody))
    (fun m₁ _ hk₁ h₁ _ hl₁ => tells_get ?_) (fun _ h => h) fun _ h => h.1
  cases m₁.namespaces[m.owners.length]? with
  | some n => exact tells_pure hl₁
  | none => exact tells_pure hl₁

theorem tells_load (hD : D.Lawful env) (hev : D.Accounted tr ev) (h : D.Sound m)
    (hfit : D.Fit path m.frames) (hl : ∀ l ∈ m.line?, P l) (name : String) :
    D.Tells P (fun o => o.trail = path) (traceLoad env tr path name) (load env ev name) m := by
  have added {m : Machine} (members : Bindings) (hl : ∀ l ∈ m.line?, P l) :
      D.Tells P (fun o => o.trail = path) (Account.quiet (addModule name members))
        (addModule name members) m := .done ⟨rfl, hl⟩
  unfold traceLoad load
  refine tells_get ?_
  cases m.loaded.get? name with
  | some v => exact tells_pure hl
  | none =>
    cases hr : env.registry.get? name with
    | none => exact tells_raise rfl h hfit hl rfl
    | some module =>
      obtain ⟨_, members | p⟩ := module
      · exact added members hl
      · exact tells_bind (tells_module hD hev h hfit hl hr) (runs_runModule hD hev.evaluates h hr)
          (fun m₁ members _ _ _ hl₁ => added members hl₁) (fun _ h => h) fun _ h => h

/-! ## Nodes -/

/-- Nodes that are evaluated one after another, with what follows each. -/
theorem tells_all (hD : D.Lawful env) (hev : D.Accounted tr ev) (h : D.Sound m) (hw : D.Holds w m)
    {ns : List Node} (hns : ∀ n ∈ ns, D.node m.file n) (hc : ∀ n ∈ ns, w.Covers n)
    (hP : ∀ l ∈ w.lines ++ movesOfAll ns, P l) :
    D.Tells P (fun _ => False) (traceAll tr w ns) (evalAll ev ns) m := by
  induction ns generalizing w m with
  | nil => exact tells_pure fun l hl => hP l (by simpa [movesOfAll] using hw.line l hl)
  | cons n ns ih =>
    rw [movesOfAll, ← List.append_assoc] at hP
    have hn := hns n (by simp)
    refine tells_bind (hev.follows n w m h hn hw (hc n (by simp))) (hev.evaluates n m h hn)
      (fun m₁ v hk₁ h₁ _ hl₁ => ?_) (fun l hl => hP l (List.mem_append_left _ hl)) fun _ hb => hb
    have hns₁ : ∀ c ∈ ns, D.node m₁.file c := fun c hc =>
      nodes_kept hk₁ hns c (List.mem_cons_of_mem n hc)
    have hrest := ih h₁ (hw.past hk₁ hl₁) hns₁ (fun c hmem => hc c (List.mem_cons_of_mem n hmem)) hP
    exact tells_bind hrest (runs_evalAll hD hev.evaluates h₁ hns₁)
      (fun m₂ vs _ _ _ hl₂ => tells_pure hl₂) (fun _ hl => hl) fun _ hb => hb

theorem tells_until (hev : D.Accounted tr ev) (h : D.Sound m) (hw : D.Holds w m) {stop : Bool}
    {last : Value} {ns : List Node} (hns : ∀ n ∈ ns, D.node m.file n) (hc : ∀ n ∈ ns, w.Covers n)
    (hP : ∀ l ∈ w.lines ++ movesOfAll ns, P l) :
    D.Tells P (fun _ => False) (traceUntil tr w stop last ns) (evalUntil ev stop last ns) m := by
  induction ns generalizing w m last with
  | nil => exact tells_pure fun l hl => hP l (by simpa [movesOfAll] using hw.line l hl)
  | cons n ns ih =>
    rw [movesOfAll, ← List.append_assoc] at hP
    have hn := hns n (by simp)
    have hP₁ : ∀ l ∈ w.lines ++ n.moves, P l := fun l hl => hP l (List.mem_append_left _ hl)
    refine tells_bind (hev.follows n w m h hn hw (hc n (by simp))) (hev.evaluates n m h hn)
      (fun m₁ v hk₁ h₁ _ hl₁ => ?_) hP₁ fun _ hb => hb
    by_cases hstop : (v.isTrue == stop) = true
    · rw [if_pos hstop, if_pos hstop]
      exact tells_pure fun l hl => hP₁ l (hl₁ l hl)
    · rw [if_neg hstop, if_neg hstop]
      exact ih h₁ (hw.past hk₁ hl₁)
        (fun c hmem => nodes_kept hk₁ hns c (List.mem_cons_of_mem n hmem))
        (fun c hmem => hc c (List.mem_cons_of_mem n hmem)) hP

/-- A round of a loop, and what follows it. -/
theorem tells_round (hD : D.Lawful env) (hev : D.Accounted tr ev) (h : D.Sound m)
    (hw : D.Holds w m) {condition : Node} (hn : D.node m.file condition) (hc : w.Covers condition)
    {body : Block} (hb : ∀ n ∈ body, D.node m.file n)
    (hP : ∀ l ∈ w.lines ++ (condition.moves ++ movesOfBlock body), P l)
    {next : Account Value} {rest : Script Value}
    (hrest : ∀ m', m.Kept m' → D.Sound m' → (∀ l ∈ m'.line?, P l) →
      D.Tells P (fun _ => False) next rest m') :
    D.Tells P (fun _ => False)
      (do
        let c ← tr w condition
        if c.isTrue then
          let _ ← traceBlock tr w.outer .nil body
          next
        else return .nil)
      (do
        let c ← ev condition
        if c.isTrue then
          let _ ← runBlock ev .nil body
          rest
        else return .nil) m := by
  rw [← List.append_assoc] at hP
  have hP₁ : ∀ l ∈ w.lines ++ condition.moves, P l := fun l hl => hP l (List.mem_append_left _ hl)
  refine tells_bind (hev.follows condition w m h hn hw hc) (hev.evaluates condition m h hn)
    (fun m₁ c hk₁ h₁ _ hl₁ => ?_) hP₁ fun _ hb => hb
  have hb₁ := nodes_kept hk₁ hb
  by_cases htrue : c.isTrue = true
  · rw [if_pos htrue, if_pos htrue]
    exact tells_bind (tells_block hD hev h₁ (hw.stands.kept hk₁) (fun l hl => hP₁ l (hl₁ l hl)) hb₁
      fun l hl => hP l (List.mem_append_right _ hl)) (runs_body hD hev.evaluates h₁ hb₁)
      (fun m₂ _ hk₂ h₂ _ hl₂ => hrest m₂ (hk₁.trans hk₂) h₂ hl₂) (fun _ hl => hl) fun _ hb => hb
  · rw [if_neg htrue, if_neg htrue]
    exact tells_pure fun l hl => hP₁ l (hl₁ l hl)

theorem tells_loop (hD : D.Lawful env) (hev : D.Accounted tr ev) (h : D.Sound m)
    (hst : D.Stands w.outer m) {line : Nat} {condition : Node} {body : Block}
    (hloop : D.node m.file (.loop line condition body)) (hc : w.Covers condition)
    (hP : ∀ l ∈ w.lines ++ line :: (condition.moves ++ movesOfBlock body), P l) (rounds : Nat)
    (isFirst : Bool) (hfirst : isFirst = true → D.Holds w m) :
    D.Tells P (fun _ => False) (traceLoop tr w line condition body rounds isFirst)
      (runLoop ev line condition body rounds isFirst) m := by
  have hP₁ : ∀ l ∈ w.lines ++ (condition.moves ++ movesOfBlock body), P l := fun l hl => hP l (by
    simp only [List.mem_append, List.mem_cons] at hl ⊢
    tauto)
  have hline : P line := hP line (by simp)
  induction rounds generalizing m isFirst with
  | zero => exact tells_exhausted
  | succ rounds ih =>
    obtain ⟨hn, hb⟩ := loop_parts hD hloop
    have again : ∀ m', m.Kept m' → D.Sound m' → (∀ l ∈ m'.line?, P l) →
        D.Tells P (fun _ => False) (traceLoop tr w line condition body rounds false)
          (runLoop ev line condition body rounds false) m' := fun m' hk h' _ =>
      ih h' (hst.kept hk) (hk.code.1 ▸ hloop) false nofun
    cases isFirst with
    | true => exact tells_round hD hev h (hfirst rfl) hn hc hb hP₁ again
    | false =>
      refine tells_bind (tells_reportLine true line) (runs_reportLine hD h true hloop)
        (fun m₁ _ hk₁ h₁ _ hl₁ => ?_) (by rintro _ rfl; exact hline) fun _ hb => hb
      have hw : D.Holds (w.turned line) m₁ :=
        ⟨hst.kept hk₁, fun l hl => hl₁ l hl ▸ List.mem_cons_of_mem _ (List.mem_singleton.mpr rfl)⟩
      refine tells_round hD hev h₁ hw (hk₁.code.1 ▸ hn) hc (nodes_kept hk₁ hb) (fun l hl => ?_)
        fun m' hk => again m' (hk₁.trans hk)
      simp only [Site.lines, Site.turned, List.cons_append, List.nil_append, List.mem_cons] at hl
      rcases hl with rfl | rfl | hl
      · exact hP _ (by simp [Site.lines])
      · exact hline
      · exact hP₁ l (List.mem_append_right _ hl)

theorem moves_handler {c : Handler} {handlers : List Handler} (hc : c ∈ handlers) :
    ∀ l ∈ movesOfBlock c.body, l ∈ movesOfHandlers handlers := by
  intro l hl
  induction handlers with
  | nil => cases hc
  | cons d ds ih =>
    rw [movesOfHandlers, List.mem_append]
    rcases List.mem_cons.mp hc with rfl | hc
    · cases c
      exact .inl hl
    · exact .inr (ih hc)

/-- The exceptions of the two sides have the same name and message, so they find one handler. -/
theorem tells_attempt (hD : D.Lawful env) (hev : D.Accounted tr ev) (h : D.Sound m)
    (hst : D.Stands outer m) (hl : ∀ l ∈ m.line?, P l) {body : Block}
    (hb : ∀ n ∈ body, D.node m.file n) {handlers : List Handler}
    (hh : ∀ c ∈ handlers, ∀ n ∈ c.body, D.node m.file n)
    (hP : ∀ l ∈ movesOfBlock body ++ movesOfHandlers handlers, P l) :
    D.Tells P (fun _ => False) (traceAttempt tr outer body handlers)
      (runAttempt ev body handlers) m := by
  have hblock : D.Tells P (fun _ => False) (traceBlock tr outer .nil body)
      (runBlock ev .nil body) m :=
    tells_block hD hev h hst hl hb fun l hl => hP l (List.mem_append_left _ hl)
  unfold Tells
  change (((traceBlock tr outer .nil body m).bind _).bind _).Parallel _
    (((runBlock ev .nil body m).bind _).bind _)
  rw [Dialogue.bind_assoc, Dialogue.bind_assoc]
  refine .bind ((Dialogue.Parallel.every hblock (runs_body hD hev.evaluates h hb)).mono
    fun r r' m₁ hend => ?_)
  obtain ⟨hr, g, hv⟩ := hend
  match g, r, r', hr, hv with
  | _, .ok a, .ok b, hr, _ => exact .done hr
  | _, .error (.leave v), .error (.leave v'), hr, _ => exact .done hr
  | _, .error (.stop sig), .error (.stop sig'), hr, _ => exact .done hr
  | none, .error (.raise o), .error (.raise e), hr, hv =>
    obtain ⟨ht, hl₁⟩ := hr
    obtain ⟨hk₁, h₁, -⟩ := hv
    obtain ⟨horigin, hu, ⟨hnode, rfl⟩ | ⟨hno, -⟩⟩ := ht
    · have hst₁ := hst.kept hk₁
      dsimp only [Dialogue.bind, Origin.thrown]
      cases hfind : handlers.find? (·.catches o.exception.name) with
      | none => exact .done ⟨⟨horigin, hu, .inl ⟨hnode, rfl⟩⟩, hl₁⟩
      | some c =>
        have hmem := List.mem_of_find?_eq_some hfind
        have hc₁ := nodes_kept hk₁ (hh c hmem)
        have hmoves : ∀ l ∈ movesOfBlock c.body, P l := fun l hl =>
          hP l (List.mem_append_right _ (moves_handler hmem l hl))
        dsimp only
        cases c.binding with
        | none => exact tells_block hD hev h₁ hst₁ hl₁ hc₁ hmoves
        | some name =>
          have hbinds := Machine.binds_bind m₁ name (.text o.exception.message)
          have h₂ : D.Sound (m₁.bind name (.text o.exception.message)) :=
            h₁.bind hD (valid_data hD rfl rfl)
          refine tells_modify (tells_block hD hev h₂ (hst₁.kept hbinds.kept) ?_
            (nodes_kept hbinds.kept hc₁) hmoves)
          rw [hbinds.line?]
          exact hl₁
    · exact hno.elim

theorem tells_assignName (h : D.Sound m) (hfit : D.Fit path m.frames) (hl : ∀ l ∈ m.line?, P l)
    (name : String) (v : Value) :
    D.Tells P (fun o => o.trail = path) (Account.of path (assignName name v))
      (assignName name v) m := by
  unfold assignName
  apply tells_of_get
  cases ha : m.assign? name v with
  | none => exact tells_raise rfl h hfit hl rfl
  | some m' =>
    refine .done ⟨rfl, ?_⟩
    rw [(Machine.binds_assign ha).line?]
    exact hl

/-- A call is a site of its own, and when the call is made the frame is back at its line. -/
theorem tells_call (hD : D.Lawful env) (hev : D.Accounted tr ev) (h : D.Sound m)
    {line : Nat} {callee : Node} {args : List Node} (hn : D.node m.file (.call line callee args))
    (hw : w = ⟨.call line callee args, [], outer⟩) (hst : D.Stands outer m)
    (hP : ∀ l ∈ (Node.call line callee args).moves, P l) :
    D.Tells P Origin.InNode
      (do
        Account.quiet (modify fun m => m.setLine line)
        let f ← tr w callee
        let vs ← traceAll tr (w.past callee) args
        Account.quiet (modify fun m => m.setLine line)
        traceCall env tr (w.trail (.call line callee args)) f vs)
      (do
        modify fun m => m.setLine line
        let f ← ev callee
        let vs ← evalAll ev args
        modify fun m => m.setLine line
        callValue env ev f vs) m := by
  subst hw
  have part : ∀ c ∈ callee :: args, D.node m.file c := hD.node_parts hn
  have covers : ∀ c ∈ callee :: args,
      (⟨.call line callee args, [], outer⟩ : Site).Covers c := fun c hc => .operand .self hc
  have site {m' : Machine} (hk : m.Kept m') :
      D.Holds ⟨.call line callee args, [], outer⟩ (m'.setLine line) :=
    ⟨hst.kept (hk.trans (m'.kept_setLine line)), fun l hl =>
      List.mem_singleton.mpr (m'.line?_setLine line l hl)⟩
  have hP₁ : ∀ l ∈ [line] ++ callee.moves, P l := fun l hl => hP l (by
    simp only [Node.moves, List.mem_cons, List.mem_append] at hl ⊢
    tauto)
  have hk := m.kept_setLine line
  have hcode := nodes_kept hk part
  have h₀ := h.setLine hD line
  refine tells_modify (tells_bind (hev.follows callee _ _ h₀ (hcode _ (by simp)) (site (.refl m))
    (covers _ (by simp))) (hev.evaluates callee _ h₀ (hcode _ (by simp)))
    (fun m₁ f hk₁ h₁ hf hl₁ => ?_) hP₁ fun _ hb => hb.elim)
  have hargs : ∀ c ∈ args, D.node m₁.file c := fun c hc =>
    nodes_kept hk₁ hcode c (List.mem_cons_of_mem _ hc)
  refine tells_bind (tells_all (P := P) hD hev h₁ ((site (.refl m)).past hk₁ hl₁) hargs
    (fun c hc => covers c (List.mem_cons_of_mem _ hc)) fun l hl => hP l ?_)
    (runs_evalAll hD hev.evaluates h₁ hargs) (fun m₂ vs hk₂ h₂ hvs _ => tells_modify ?_)
    (fun _ hl => hl) fun _ hb => hb.elim
  · rw [Site.lines_past] at hl
    simpa [Site.lines, Node.line, Node.moves] using hl
  · have hk₃ := m₂.kept_setLine line
    have hsite := site (hk.trans (hk₁.trans hk₂))
    have hcode₃ : D.node (m₂.setLine line).file (.call line callee args) := by
      rw [((hk.trans (hk₁.trans hk₂)).trans hk₃).code.1]
      exact hn
    refine (tells_callValue hD hev (h₂.setLine hD line) (hsite.trail hcode₃ .self fun _ => rfl)
      (fun l hl => ?_) (hf.mono hD (hk₂.trans hk₃).owners)
      fun v hv => (hvs v hv).mono hD hk₃.owners).mono (fun _ hl => hl) fun o ho => ⟨_, _, ho⟩
    exact hP₁ l (List.mem_append_left _ (hsite.line l hl))

/-- The step of the induction: the evaluations of a node go side by side if those of its parts
do. -/
theorem tells_evalNode (hD : D.Lawful env) (hev : D.Accounted tr ev) (rounds : Nat) (h : D.Sound m)
    {n : Node} (hn : D.node m.file n) (hw : D.Holds w m) (hc : w.Covers n) :
    D.Tells (· ∈ w.lines ++ n.moves) Origin.InNode (traceNode env tr rounds w n)
      (evalNode env ev rounds n) m := by
  have part : ∀ c ∈ n.parts, D.node m.file c := hD.node_parts hn
  have hl : ∀ l ∈ m.line?, l ∈ w.lines ++ n.moves := fun l hl =>
    List.mem_append_left _ (hw.line l hl)
  have inNode (w : Site) (e : Exception) (m : Machine) : Origin.InNode ⟨e, m, w.trail n⟩ :=
    ⟨_, _, rfl⟩
  have inTrail {w : Site} (o : Origin) (ho : o.trail = w.trail n) : o.InNode := ⟨_, _, ho⟩
  -- a node that is no call is evaluated by the form of the site, and so are its operands
  have fits {w : Site} {m : Machine} (hplain : n.isCall = false) (hc : w.Covers n)
      (hw : D.Holds w m) (hn : D.node m.file n) : D.Fit (w.trail n) m.frames :=
    hw.trail hn (hc.resolve_left (by simp [hplain])) (by simp [hplain])
  have operand {c : Node} (hplain : n.isCall = false) (hop : c ∈ n.operands) (hp : c ∈ n.parts) :
      D.Tells (· ∈ w.lines ++ c.moves) (fun _ => False) (tr w c) (ev c) m ∧
        D.Runs (ev c) m.Kept D.Valid m :=
    ⟨hev.follows c w m h (part c hp) hw (hc.of_operand hplain hop), hev.evaluates c m h (part c hp)⟩
  cases n with
  | literal line l => exact tells_pure hl
  | «variable» line name =>
    exact tells_of (bare_lookupName name) (runs_lookupName hD h name) (fits rfl hc hw hn) hl inTrail
  | member line object member =>
    exact tells_of (bare_lookupMember object member) (runs_lookupMember hD h object member)
      (fits rfl hc hw hn) hl inTrail
  | bind line name value =>
    obtain ⟨htells, hruns⟩ := operand (c := value) rfl (by simp [Node.operands])
      (by simp [Node.parts])
    refine tells_bind htells hruns (fun m₁ v _ _ _ hl₁ => tells_modify (tells_pure ?_))
      (fun _ hl => hl) fun _ hb => hb.elim
    rw [(Machine.binds_bind m₁ name v).line?]
    exact hl₁
  | assign line name value =>
    obtain ⟨htells, hruns⟩ := operand (c := value) rfl (by simp [Node.operands])
      (by simp [Node.parts])
    refine tells_bind htells hruns (fun m₁ v hk₁ h₁ hv hl₁ => ?_) (fun _ hl => hl)
      fun _ hb => hb.elim
    have hfit := fits (w := w.past value) rfl hc (hw.past hk₁ hl₁) (hk₁.code.1 ▸ hn)
    exact tells_bind (tells_assignName h₁ hfit hl₁ name v) (runs_assignName hD h₁ hv name)
      (fun m₂ _ _ _ _ hl₂ => tells_pure hl₂) (fun _ hl => hl) inTrail
  | define line name params body file column =>
    refine tells_get (tells_set (tells_pure ?_))
    rw [(Machine.binds_bind m name _).line?]
    exact hl
  | branch line condition taken other =>
    obtain ⟨htells, hruns⟩ := operand (c := condition) rfl (by simp [Node.operands])
      (by simp [Node.parts])
    refine tells_bind htells hruns (fun m₁ c hk₁ h₁ _ hl₁ => ?_) (fun l hl => ?_)
      fun _ hb => hb.elim
    · have hchosen : ∀ d ∈ (if c.isTrue then taken else other), d ∈ taken ++ other := by
        split <;> simp +contextual
      have hmoves : ∀ l ∈ movesOfBlock (if c.isTrue then taken else other),
          l ∈ (Node.branch line condition taken other).moves := by
        split <;> simp +contextual [Node.moves]
      refine (tells_block hD hev h₁ (hw.stands.kept hk₁) (fun l hl => ?_)
        (nodes_kept hk₁ fun d hd => part d (List.mem_cons_of_mem _ (hchosen d hd)))
        fun l hl => List.mem_append_right _ (hmoves l hl)).mono (fun _ hl => hl)
        fun _ hb => hb.elim
      have hl := hl₁ l hl
      simp only [Node.moves, List.mem_append] at hl ⊢
      tauto
    · simp only [Node.moves, List.mem_append] at hl ⊢
      tauto
  | loop line condition body =>
    refine (tells_loop hD hev h hw.stands hn (hc.of_operand rfl (by simp [Node.operands]))
      (fun _ hl => hl) rounds true fun _ => hw).mono (fun _ hl => hl) fun _ hb => hb.elim
  | block line body =>
    exact (tells_block hD hev h hw.stands hl part fun l hl => List.mem_append_right _ hl).mono
      (fun _ hl => hl) fun _ hb => hb.elim
  | leave line value =>
    cases value with
    | none => exact tells_leave
    | some value =>
      obtain ⟨htells, hruns⟩ := operand (c := value) rfl (by simp [Node.operands])
        (by simp [Node.parts])
      exact tells_bind htells hruns (fun m₁ v _ _ _ _ => tells_leave) (fun _ hl => hl)
        fun _ hb => hb.elim
  | load line name =>
    refine tells_bind (tells_load hD hev h (fits rfl hc hw hn) hl name)
      (runs_load hD hev.evaluates h line hn) (fun m₁ v _ _ _ hl₁ => tells_modify (tells_pure ?_))
      (fun _ hl => hl) inTrail
    rw [(Machine.binds_bind m₁ name v).line?]
    exact hl₁
  | defer line body => exact .done ⟨rfl, hl⟩
  | await line value =>
    obtain ⟨htells, hruns⟩ := operand (c := value) rfl (by simp [Node.operands])
      (by simp [Node.parts])
    refine tells_bind htells hruns (fun m₁ v hk₁ h₁ hv hl₁ => ?_) (fun _ hl => hl)
      fun _ hb => hb.elim
    have hfit := fits (w := w.past value) rfl hc (hw.past hk₁ hl₁) (hk₁.code.1 ▸ hn)
    exact (tells_settle hD hev h₁ hfit hl₁ hv rounds).mono (fun _ hl => hl) fun o ho =>
      inTrail o ho.1
  | allOf line items =>
    exact (tells_until hev h hw part (fun c hop => hc.of_operand rfl hop) fun _ hl => hl).mono
      (fun _ hl => hl) fun _ hb => hb.elim
  | anyOf line items =>
    exact (tells_until hev h hw part (fun c hop => hc.of_operand rfl hop) fun _ hl => hl).mono
      (fun _ hl => hl) fun _ hb => hb.elim
  | raise line name message =>
    cases message with
    | none => exact tells_raise rfl h (fits rfl hc hw hn) hl (inNode w _ m)
    | some message =>
      obtain ⟨htells, hruns⟩ := operand (c := message) rfl (by simp [Node.operands])
        (by simp [Node.parts])
      refine tells_bind (tells_bind htells hruns (fun m₁ v _ _ _ hl₁ => tells_pure hl₁)
        (fun _ hl => hl) fun _ hb => hb) (runs_evalMessage hev.evaluates h fun c hc => part c ?_)
        (fun m₁ text hk₁ h₁ _ hl₁ => ?_) (fun _ hl => hl) fun _ hb => hb.elim
      · cases hc
        simp [Node.parts]
      · have hfit := fits (w := w.past message) rfl hc (hw.past hk₁ hl₁) (hk₁.code.1 ▸ hn)
        exact tells_raise rfl h₁ hfit hl₁ (inNode (w.past message) _ m₁)
  | attempt line body handlers =>
    refine (tells_attempt hD hev h hw.stands hl (fun c hc => part c (by simp [Node.parts, hc]))
      (fun c hc d hd => part d ?_) fun l hl => List.mem_append_right _ hl).mono (fun _ hl => hl)
      fun _ hb => hb.elim
    simp only [Node.parts, List.mem_append, List.mem_flatMap]
    exact .inr ⟨c, hc, hd⟩
  | call line callee args =>
    exact tells_call hD hev h hn rfl hw.stands fun l hl => List.mem_append_right _ hl

/-- Every evaluation is accounted for. -/
theorem accounted_eval (hD : D.Lawful env) (fuel : Nat) :
    D.Accounted (trace env fuel) (eval env fuel) := by
  induction fuel with
  | zero => exact ⟨eval_evaluates hD 0, fun n w m h hn hw hc => tells_exhausted⟩
  | succ fuel ih =>
    refine ⟨eval_evaluates hD (fuel + 1), fun n w m h hn hw hc => ?_⟩
    have asked : D.Tells (· ∈ w.lines) (fun _ => False) (Account.quiet (ask .poll)) (ask .poll)
        m := by
      refine .ask m .poll fun a => ?_
      cases a with
      | ok a => exact .done ⟨rfl, hw.line⟩
      | error sig => exact .done rfl
    rw [eval_succ]
    refine tells_withFrames (tells_bind asked (Q := fun _ _ => True)
      (runs_ask (Machine.Kept.refl m) h (hD.asks_poll h) fun _ => trivial)
      (fun m₁ _ hk₁ h₁ _ hl₁ => ?_)
      (fun l hl => List.mem_append_left _ hl) fun _ hb => hb.elim)
    exact tells_evalNode hD ih fuel h₁ (hk₁.code.1 ▸ hn) ⟨hw.stands.kept hk₁, hl₁⟩ hc

/-- The main program is accounted for. When its statements are over, a frame may be refused outside
all nodes. -/
theorem tells_main (hD : D.Lawful env) {p : Program} (h : D.Sound (.enterMain p))
    (hp : ∀ n ∈ p.body, D.node p.file n) (fuel : Nat) :
    D.Tells (fun _ => True) (Origin.IsLast env) (p.traceMain env fuel)
      (p.main env fuel) (.enterMain p) := by
  have hev := accounted_eval hD fuel
  have hst : D.Stands [] (.enterMain p) := ⟨_, [], rfl, .nil⟩
  refine tells_bind (tells_body hD hev h hst hp) (runs_untilLeft (runs_body hD hev.evaluates h hp))
    (fun m₁ v hk₁ h₁ hv hl₁ => ?_) (fun _ hl => hl) fun _ hb => hb.elim
  obtain ⟨f, fs, hf, hfit⟩ := hst.kept hk₁
  have hfit₁ : D.Fit [none] m₁.frames := by
    rw [hf]
    exact .cons (fun s hs => by cases hs) hfit
  exact (tells_settle hD hev h₁ hfit₁ hl₁ hv fuel).mono (fun _ hl => hl) fun o ho => ⟨ho.2, ho.1⟩

end Discipline

/-- There is always room for the main program. -/
theorem account_main (env : Environment) (fuel : Nat) (p : Program) :
    p.account env fuel = (p.traceMain env fuel (.enterMain p)).bind fun r m => .done r m.pop :=
  Discipline.traceEnter_room (Nat.lt_of_lt_of_le Nat.zero_lt_one (Nat.le_max_left 1 env.limit))

end Lispbox
