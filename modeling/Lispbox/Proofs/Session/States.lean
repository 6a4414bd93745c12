import Lispbox.Proofs.Session.Acts
import Lispbox.Proofs.Session.Interrupts

/-!
# The states of a session

Which states may follow which is `ExecutionState.next`. What a session passes through from one time
to another is what its notices say, and it is a path along those edges (`Session.Passes`). Runs are
started in one place only, so the state of compiling is entered by an accepted run and by nothing
else.

Where an attempt halts the state is the one that its end or its wait asks for (`Session.Fits`). From
there on the invariant of a history is that nothing is active without a run in flight, and that a
run in flight is in the state of its wait (`Session.IsSettled`). That an interrupt leads nowhere but
to the end of the run, so that no state is skipped, is known from `Session.Attentive`.

In a history commands come at waits and between runs (`Session.command`). The states that a run
passes through from one wait to the next are told by its notices; an interrupt that comes in one of
them is not among the acts.

* `states_follow`: the states of every history.
-/
namespace Lispbox

/-- The states that may follow. -/
def ExecutionState.next : ExecutionState → List ExecutionState
  | .idle | .finished | .interrupted | .errored => [.compiling]
  | .compiling => [.running, .errored, .interrupted]
  | .running => [.suspended, .debugPaused, .finished, .errored, .interrupted]
  | .suspended | .debugPaused => [.running, .interrupted]

/-- The states lead from one to the other. -/
inductive ExecutionState.Path : ExecutionState → List ExecutionState → ExecutionState → Prop where
  | nil (a : ExecutionState) : Path a [] a
  | cons {a b c : ExecutionState} {l : List ExecutionState} (hb : b ∈ a.next) (h : Path b l c) :
    Path a (b :: l) c

theorem ExecutionState.Path.append {a b c : ExecutionState} {l l' : List ExecutionState}
    (h : Path a l b) (h' : Path b l' c) : Path a (l ++ l') c := by
  induction h with
  | nil a => exact h'
  | cons hb h ih => exact .cons hb (ih h')

/-- The state that is entered, if one is. -/
def Notice.state? : Notice → Option ExecutionState
  | .enter next => some next
  | .publish _ | .prefetch _ | .resolve _ => none

/-- The state of a session while a run waits. -/
def Wait.state : Wait → ExecutionState
  | .input _ => .suspended
  | .debug _ => .debugPaused
  | .sleep _ _ => .running

namespace Session

/-- The states that were entered since an earlier time, in order. -/
def entered (s₀ s : Session) : List ExecutionState := (s₀.since s).filterMap Notice.state?

variable {s s' s'' : Session} {source : SourceUnit} {request : RunRequest}

theorem Grows.entered (h : s.Grows s') (h' : s'.Grows s'') :
    s.entered s'' = s.entered s' ++ s'.entered s'' := by
  unfold Session.entered
  rw [h.since h', List.filterMap_append]

/-- The session has gone from state to state along the edges, and no run was started. -/
structure Passes (s s' : Session) : Prop where
  grows : s.Grows s'
  path : ExecutionState.Path s.state (s.entered s') s'.state
  started : .compiling ∉ s.entered s'

theorem Passes.trans (h : s.Passes s') (h' : s'.Passes s'') : s.Passes s'' := by
  have hall := h.grows.entered h'.grows
  refine ⟨h.grows.trans h'.grows, ?_, ?_⟩
  · rw [hall]
    exact h.path.append h'.path
  · rw [hall, List.mem_append]
    exact fun hc => hc.elim h.started h'.started

/-- The state stays, and nothing but messages and questions to the resolver is new. -/
theorem Passes.of_silent {new : List Notice} (hn : s'.notices = new ++ s.notices)
    (hsilent : new.filterMap Notice.state? = []) (hstate : s'.state = s.state) : s.Passes s' := by
  have hnone : s.entered s' = [] := by
    unfold Session.entered
    rw [since_eq hn, List.filterMap_reverse, hsilent]
    rfl
  refine ⟨⟨new, hn.symm⟩, ?_, ?_⟩
  · rw [hnone, hstate]
    exact .nil _
  · rw [hnone]
    exact List.not_mem_nil

theorem Passes.of_eq (hn : s'.notices = s.notices) (hstate : s'.state = s.state) : s.Passes s' :=
  have hnew : s'.notices = [] ++ s.notices := hn
  .of_silent hnew rfl hstate

theorem Passes.refl (s : Session) : s.Passes s := .of_eq rfl rfl

theorem passes_note {n : Notice} (hn : n.state? = none) : s.Passes (s.note n) :=
  have hnew : (s.note n).notices = [n] ++ s.notices := rfl
  .of_silent hnew (List.filterMap_cons_none hn) rfl

theorem passes_publish (m : Message) : s.Passes (s.publish m) := passes_note rfl

/-- The states that a change of the state enters. -/
theorem entered_enter (s : Session) (next : ExecutionState) :
    s.entered (s.enter next) = if s.state = next then [] else [next] := by
  unfold enter
  split
  · have hsame : s.notices = [] ++ s.notices := rfl
    exact congrArg _ (since_eq hsame)
  · have hnew : ({ s with state := next }.note (.enter next)).notices =
        [.enter next] ++ s.notices := rfl
    exact congrArg _ (since_eq hnew)

theorem path_enter {next : ExecutionState} (h : s.state = next ∨ next ∈ s.state.next) :
    ExecutionState.Path s.state (s.entered (s.enter next)) (s.enter next).state := by
  rw [entered_enter, enter_state]
  split
  · next hs =>
    rw [hs]
    exact .nil next
  · next hs => exact .cons (h.resolve_left hs) (.nil next)

theorem passes_enter {next : ExecutionState} (h : s.state = next ∨ next ∈ s.state.next)
    (hnext : next ≠ .compiling) : s.Passes (s.enter next) := by
  refine ⟨grows_enter next, path_enter h, ?_⟩
  rw [entered_enter]
  split
  · exact List.not_mem_nil
  · exact fun hc => hnext (List.mem_singleton.mp hc).symm

/-- A run stops, to wait or for good. -/
theorem passes_stop {next : ExecutionState} (hs : s.state = .running)
    (h : next ∈ ExecutionState.running.next) : s.Passes (s.enter next) := by
  refine passes_enter (.inr (hs ▸ h)) ?_
  rintro rfl
  simp [ExecutionState.next] at h

theorem passes_deliver (e : Event) :
    s.Passes (s.deliver e).2 ∧ (s.deliver e).2.state = s.state := by
  unfold deliver
  split
  · exact ⟨passes_publish _, rfl⟩
  · exact ⟨.refl s, rfl⟩
  · next u _ =>
    have hflag : s.Passes { s with interrupted := true } := .of_eq rfl rfl
    exact ⟨hflag.trans (passes_publish _), rfl⟩

/-! ## Conversations -/

/-- The state when an attempt halts. -/
def Fits (s : Session) : Halt → Prop
  | .waits w => s.state = w.state
  | .ends (.compileFailed _) => s.state = .compiling ∨ s.state = .running
  | .ends _ | .faults _ => s.state = .running

theorem fits_haltOf (hs : s.state = .running) (e : RunEnd) : s.Fits (s.haltOf e) := by
  unfold haltOf
  split
  · exact hs
  · next a _ =>
    cases s.interrupted with
    | true => exact hs
    | false =>
      cases a with
      | compileFailed e => exact .inr hs
      | completed v => exact hs
      | raised e => exact hs
      | interrupted => exact hs
      | quit => exact hs

/-- The session has come along the edges while the script is running. -/
def Runs (s₀ : Session) (st : Stage) : Prop := s₀.Passes st.session ∧ st.session.state = .running

/-- The state fits where a conversation halts. -/
def PassesTo (s₀ : Session) (x : Halt × Stage) : Prop :=
  s₀.Passes x.2.session ∧ x.2.session.Fits x.1

theorem react_passes (debugging : Bool) (files : List (String × String)) {s₀ : Session} {st : Stage}
    (h : Runs s₀ st) {q : Query}
    (resume : Except Signal q.Answer → Dialogue (Except Exit Value)) :
    Keeps (fun _ => Runs s₀) (PassesTo s₀) resume (st.react debugging files q) := by
  obtain ⟨hp, hs⟩ := id h
  unfold Stage.react
  split
  · exact h
  · cases q with
    | poll => exact h
    | readFile name => exact h
    | line file n =>
      unfold Stage.attend
      cases debugging with
      | false => exact h
      | true =>
        have hreach (d : Debugger) : st.session.Passes { st.session with debugger := d } :=
          .of_eq rfl rfl
        dsimp only
        cases (st.session.debugger.reach file n).1 with
        | false => exact ⟨hp.trans (hreach _), hs⟩
        | true =>
          obtain ⟨hpasses, hstate⟩ := passes_deliver (.debugPause n)
            (s := { st.session with debugger := (st.session.debugger.reach file n).2 })
          have hnext : .debugPaused ∈ ExecutionState.running.next := by simp [ExecutionState.next]
          have hpause := passes_stop (hstate.trans hs) hnext
          exact ⟨hp.trans ((hreach _).trans (hpasses.trans hpause)), enter_state _ _⟩
    | emit e =>
      obtain ⟨hpasses, hstate⟩ := passes_deliver (s := st.session) e
      unfold Stage.attend
      dsimp only
      split
      · exact ⟨hp.trans hpasses, hstate.trans hs⟩
      · exact ⟨hp.trans hpasses, hstate.trans hs⟩
    | input prompt =>
      obtain ⟨hpasses, hstate⟩ := passes_deliver (s := st.session) (.inputRequest prompt)
      unfold Stage.attend
      dsimp only
      split
      · exact ⟨hp.trans hpasses, hstate.trans hs⟩
      · have hnext : .suspended ∈ ExecutionState.running.next := by simp [ExecutionState.next]
        have hsuspend := passes_stop (hstate.trans hs) hnext
        exact ⟨hp.trans (hpasses.trans hsuspend), enter_state _ _⟩
    | sleep duration =>
      obtain ⟨hpasses, hstate⟩ := passes_deliver (s := st.session) (.sleep duration)
      unfold Stage.attend
      dsimp only
      split
      · exact ⟨hp.trans hpasses, hstate.trans hs⟩
      · exact ⟨hp.trans hpasses, hstate.trans hs⟩

theorem converse_passes (debugging : Bool) (files : List (String × String))
    (d : Dialogue (Except Exit Value)) {s₀ : Session} {st : Stage} (h : Runs s₀ st) :
    PassesTo s₀ (converse debugging files d st) :=
  converse_induction (I := fun _ => Runs s₀) (fun h => ⟨h.1, fits_haltOf h.2 _⟩)
    (fun h => ⟨h.1, fits_haltOf h.2 _⟩) (fun h => react_passes debugging files h _) h

/-! ## Attempts -/

theorem passes_prefetch (p : Program) :
    s.Passes (s.prefetch p) ∧ (s.prefetch p).state = s.state := by
  have hnote (names : List String) : s.Passes (s.note (.prefetch names)) := passes_note rfl
  rw [prefetch_eq]
  split
  · exact ⟨.refl s, rfl⟩
  · split
    · exact ⟨hnote _, rfl⟩
    · next modules _ =>
      have hinstalled (t : Session) (r : Registry) : t.Passes { t with registry := r } :=
        .of_eq rfl rfl
      exact ⟨(hnote _).trans ((hinstalled _ _).trans (passes_publish _)), rfl⟩

/-- An attempt is made while the source is compiled, or once more while it is running. -/
theorem attempt_passes (hs : s.state = .compiling ∨ s.state = .running) (source : SourceUnit)
    (request : RunRequest) : PassesTo s (s.attempt source request) := by
  cases hc : compile source.text source.file s.setup.config.recursionLimit with
  | error e =>
    rw [attempt_of_error hc]
    exact ⟨.refl s, hs⟩
  | ok p =>
    obtain ⟨hpasses, hstate⟩ := passes_prefetch (s := s) p
    have hrunning : (s.prefetch p).Passes ((s.prefetch p).enter .running) := by
      refine passes_enter ?_ nofun
      rw [hstate]
      rcases hs with hs | hs
      · exact .inr (by rw [hs]; simp [ExecutionState.next])
      · exact .inl hs
    rw [attempt_of_ok hc]
    exact converse_passes _ _ _ ⟨hpasses.trans hrunning, enter_state _ _⟩

theorem passes_startDebugger (source : SourceUnit) (request : RunRequest) :
    s.Passes (s.startDebugger source request) ∧
      (s.startDebugger source request).state = s.state := by
  unfold startDebugger
  split
  · exact ⟨.of_eq rfl rfl, rfl⟩
  · exact ⟨.refl s, rfl⟩

theorem passes_installMissing (name : String) :
    s.Passes (s.installMissing name).2 ∧ (s.installMissing name).2.state = s.state := by
  have hasked : s.Passes (s.asking name) := (passes_publish _).trans (passes_note rfl)
  cases hm : s.setup.resolver.resolve name with
  | error e =>
    rw [installMissing_of_error hm]
    exact ⟨hasked.trans (passes_publish _), rfl⟩
  | ok m =>
    have hinstalled : (s.asking name).Passes
        { s.asking name with registry := s.registry.install m } := .of_eq rfl rfl
    rw [installMissing_of_ok hm]
    exact ⟨hasked.trans (hinstalled.trans (passes_publish _)), rfl⟩

/-! ## Runs -/

/-- Nothing is active without a run in flight; a run in flight is in the state of its wait. -/
def IsSettled (s : Session) : Prop :=
  match s.flight with
  | none => s.state.isActive = false
  | some f => s.state = f.wait.state

/-- The session has gone on, and it is settled. -/
def Settles (s s' : Session) : Prop := s.Passes s' ∧ s'.IsSettled

theorem Passes.settles (h : s.Passes s') (h' : s'.Settles s'') : s.Settles s'' :=
  ⟨h.trans h'.1, h'.2⟩

theorem close_settles {next : ExecutionState} (m : Message) (o : Outcome)
    (hs : next ∈ s.state.next) (hnext : next.isActive = false) :
    s.Settles (s.close m next o).session := by
  have hlast : s.Passes ((s.publish m).enter next) :=
    (passes_publish m).trans (passes_enter (.inr hs) (by rintro rfl; cases hnext))
  have hclosed : ((s.publish m).enter next).Passes (s.close m next o).session := .of_eq rfl rfl
  refine ⟨hlast.trans hclosed, ?_⟩
  exact (congrArg ExecutionState.isActive (enter_state (s.publish m) next)).trans hnext

theorem fail_settles (hs : s.state = .running) (f : RunFault) : s.Settles (s.fail f).session := by
  have hlast : s.Passes (s.enter .errored) :=
    passes_stop hs (by simp [ExecutionState.next])
  have hfailed : (s.enter .errored).Passes (s.fail f).session := .of_eq rfl rfl
  refine ⟨hlast.trans hfailed, ?_⟩
  exact congrArg ExecutionState.isActive (enter_state s .errored)

/-- A run may be interrupted wherever it is under way. -/
theorem finish_interrupted_settles (hs : .interrupted ∈ s.state.next) (source : SourceUnit) :
    s.Settles (s.finish source .interrupted).session :=
  close_settles _ _ hs rfl

theorem finish_settles {e : AttemptEnd} (h : s.Fits (.ends e)) (source : SourceUnit) :
    s.Settles (s.finish source e).session := by
  have ends {next : ExecutionState} (hs : s.state = .running)
      (hnext : next ∈ ExecutionState.running.next) : next ∈ s.state.next := by rwa [hs]
  cases e with
  | compileFailed e =>
    refine close_settles _ _ ?_ rfl
    rcases h with h | h <;> simp [h, ExecutionState.next]
  | completed v => exact close_settles _ _ (ends h (by simp [ExecutionState.next])) rfl
  | raised e => exact close_settles _ _ (ends h (by simp [ExecutionState.next])) rfl
  | interrupted => exact close_settles _ _ (ends h (by simp [ExecutionState.next])) rfl
  | quit => exact close_settles _ _ (ends h (by simp [ExecutionState.next])) rfl

/-- However an attempt halts, the run goes on along the edges, also into another attempt. -/
theorem proceed_settles (source : SourceUnit) (request : RunRequest)
    (files : List (String × String)) (retries : Nat) {s₀ : Session} {halt : Halt} {st : Stage}
    (h : PassesTo s₀ (halt, st)) :
    s₀.Settles (proceed source request files retries halt st).session := by
  refine proceed_induction (A := fun _ _ x => PassesTo s₀ x) (P := fun p => s₀.Settles p.session)
    ?_ ?_ ?_ ?_ ?_ h
  · exact fun ⟨hp, hfits⟩ => ⟨hp.trans (.of_eq rfl rfl), hfits⟩
  · exact fun ⟨hp, hfits⟩ => hp.settles (fail_settles hfits _)
  · exact fun ⟨hp, hfits⟩ _ => hp.settles (finish_settles hfits source)
  · intro retries files x name err st ⟨hp, hfits⟩ _ _
    obtain ⟨hasked, hstate⟩ := passes_installMissing (s := st.session) name
    have hfits' : (st.session.installMissing name).2.Fits (.ends (.raised x)) :=
      hstate.trans hfits
    exact hp.settles (hasked.settles (finish_settles hfits' source))
  · intro retries files x name m st ⟨hp, hfits⟩ _ _
    obtain ⟨hasked, hstate⟩ := passes_installMissing (s := st.session) name
    obtain ⟨hstarted, hsame⟩ :=
      passes_startDebugger (s := (st.session.installMissing name).2) source request
    obtain ⟨hagain, hfits'⟩ :=
      attempt_passes (.inr (hsame.trans (hstate.trans hfits))) source request
    exact ⟨hp.trans (hasked.trans (hstarted.trans hagain)), hfits'⟩

theorem resume_settles (hs : s.state = .running) (f : Flight) (d : Dialogue (Except Exit Value)) :
    s.Settles (s.resume f d).session := by
  have hstage : s.Runs ⟨s, f.stdin⟩ := ⟨.refl s, hs⟩
  exact proceed_settles _ _ _ _ (converse_passes _ _ d hstage)

theorem entered_opening (hs : s.state ≠ .compiling) (mode : RunMode) :
    s.entered (s.opening mode) = [.compiling] := by
  have hnotices : (s.opening mode).notices =
      [.publish (.start mode), .enter .compiling] ++ s.notices := by
    simp only [opening, publish, note, enter]
    rw [if_neg hs]
    rfl
  unfold Session.entered
  rw [since_eq hnotices]
  rfl

/-- A run that is started compiles its source first, and nothing else is compiled after that. -/
theorem start_settles (hs : s.state.isActive = false) (source : SourceUnit)
    (request : RunRequest) :
    s.Grows (s.start source request).session ∧
      (∃ later, s.entered (s.start source request).session = .compiling :: later ∧
        .compiling ∉ later ∧
        ExecutionState.Path .compiling later (s.start source request).session.state) ∧
      (s.start source request).session.IsSettled := by
  have hgrows : s.Grows (s.opening request.mode) := (works.opening request.mode).grows
  have hcompiling : (s.opening request.mode).state = .compiling := enter_state _ .compiling
  obtain ⟨hdebugger, hstate⟩ :=
    passes_startDebugger (s := s.opening request.mode) source request
  obtain ⟨hattempt, hfits⟩ :=
    attempt_passes (.inl (hstate.trans hcompiling)) source request
  have hstart : (s.opening request.mode).Settles (s.start source request).session := by
    rw [start_eq]
    exact proceed_settles source request _ 1 ⟨hdebugger.trans hattempt, hfits⟩
  obtain ⟨hpasses, hsettled⟩ := hstart
  refine ⟨hgrows.trans hpasses.grows, ⟨_, ?_, hpasses.started, hcompiling ▸ hpasses.path⟩, hsettled⟩
  rw [hgrows.entered hpasses.grows, entered_opening ?_ request.mode]
  · rfl
  · intro hc
    rw [hc] at hs
    cases hs

/-! ## Moves -/

theorem IsSettled.state {f : Flight} (h : s.IsSettled) (hf : s.flight = some f) :
    s.state = f.wait.state := by
  unfold IsSettled at h
  rwa [hf] at h

/-- A run that waits goes on, or it is interrupted. -/
theorem Wait.state_next (w : Wait) :
    (w.state = .running ∨ .running ∈ w.state.next) ∧ .interrupted ∈ w.state.next := by
  cases w <;> simp [Wait.state, ExecutionState.next]

theorem move_settles {s₀ : Session} {f : Flight} (hf : s.flight = some f) (h : s.IsSettled)
    (ha : Attentive s₀ source ⟨s, none⟩) (v : Move) :
    s.Settles (Progress.move ⟨s, none⟩ v).session := by
  have hstate := h.state hf
  have hrunning : s.Passes (s.enter .running) :=
    passes_enter (hstate ▸ (Wait.state_next f.wait).1) nofun
  have answered (debugger : Debugger) (d : Dialogue (Except Exit Value)) :
      s.Settles ({ s.enter .running with debugger := debugger }.resume f d).session := by
    have hdebugger : (s.enter .running).Passes { s.enter .running with debugger := debugger } :=
      .of_eq rfl rfl
    have hstate : { s.enter .running with debugger := debugger }.state = .running :=
      enter_state s .running
    exact hrunning.settles (hdebugger.settles (resume_settles hstate f d))
  have hmoved := move_cases hf v
  generalize Progress.move ⟨s, none⟩ v = p at hmoved
  cases hmoved with
  | ignored => exact ⟨.refl s, h⟩
  | files files => exact ⟨.of_eq rfl rfl, h⟩
  | interrupt =>
    -- the signal ends the program where it waits, so the state is not left for running first
    obtain ⟨-, -, f', hf', rfl, d, m, q, resume, shown, earlier, hd, hleads, hw, -⟩ := ha rfl
    cases hf.symm.trans hf'
    obtain ⟨m', hstop, -⟩ := hd.stop hleads .interrupt
    rw [hw.interrupt, hstop, resume_stopped f m' fun _ => rfl]
    have hflag : s.Passes { s with interrupted := true } := .of_eq rfl rfl
    exact hflag.settles (finish_interrupted_settles (hstate ▸ (Wait.state_next f.wait).2) f.source)
  | line hw line => exact hrunning.settles (resume_settles (enter_state s .running) f _)
  | elapse hw =>
    rw [hw] at hstate
    exact resume_settles hstate f _
  | goOn hw hc => exact answered _ _
  | quit hw => exact answered _ _

/-! ## Histories -/

/-- The session is settled, and a run in flight waits for an answer to its program. -/
structure IsOrderly (s : Session) : Prop where
  settled : s.IsSettled
  attentive : s.flight.isSome = true → ∃ s₀ source, Attentive s₀ source ⟨s, none⟩

theorem idle_orderly (setup : Setup) (registry : Registry) : (idle setup registry).IsOrderly :=
  ⟨rfl, nofun⟩

/-- What is attentive while it waits is orderly. -/
theorem Attentive.orderly {s₀ : Session} {p : Progress} (ha : Attentive s₀ source p)
    (hp : IsCoherent p) (h : p.session.IsSettled) : p.session.IsOrderly := by
  refine ⟨h, fun hflight => ⟨s₀, source, ?_⟩⟩
  have hwaits : p.result = none := by
    unfold IsCoherent at hp
    rw [hflight] at hp
    exact Option.isNone_iff_eq_none.mp hp
  exact fun _ => ha hwaits

/-- What an act does to the states: it starts a run, or it goes on with one. -/
structure Steps (s : Session) (starts : Bool) (s' : Session) : Prop where
  grows : s.Grows s'
  path : ExecutionState.Path s.state (s.entered s') s'.state
  started : ∃ later, .compiling ∉ later ∧
    s.entered s' = if starts then .compiling :: later else later

theorem Passes.steps (h : s.Passes s') : s.Steps false s' := ⟨h.grows, h.path, _, h.started, rfl⟩

/-- An act keeps a session orderly and leads it along the edges. -/
theorem act_steps (h : s.IsOrderly) (a : Act) :
    s.Steps (a.isRun && (s.act a).isOk) (s.perform a) ∧ (s.perform a).IsOrderly := by
  have hacted := act_cases s a
  unfold perform
  generalize s.act a = r at hacted
  cases hacted with
  | refused hf ha =>
    refine ⟨?_, h⟩
    have hstarts : (a.isRun && (Except.error Busy.busy : Except Busy Progress).isOk) = false :=
      Bool.and_false _
    rw [hstarts]
    exact (Passes.refl s).steps
  | run hf request =>
    have hidle : s.state.isActive = false := by
      have hsettled := h.settled
      unfold IsSettled at hsettled
      rwa [hf] at hsettled
    have hnext : .compiling ∈ s.state.next := by
      revert hidle
      cases s.state <;> simp [ExecutionState.isActive, ExecutionState.next]
    have hstart := start_settles (s := { s with source := s.sourceFor request }) hidle
      (s.sourceFor request) request
    obtain ⟨hgrows, ⟨later, hentered, hlater, hpath⟩, hsettled⟩ := hstart
    refine ⟨⟨hgrows, ?_, later, hlater, hentered⟩,
      (start_attentive _ _ request).orderly (start_coherent _ _ _) hsettled⟩
    exact hentered ▸ .cons hnext hpath
  | replaced hf text file =>
    refine ⟨Passes.steps (.of_eq rfl rfl), h.settled, fun hflight => ?_⟩
    simp [hf] at hflight
  | kept hf v =>
    refine ⟨Passes.steps (.of_eq rfl rfl), h.settled, fun hflight => ?_⟩
    simp [hf] at hflight
  | moved hf v =>
    obtain ⟨s₀, source, ha⟩ := h.attentive (by rw [hf]; rfl)
    obtain ⟨hpasses, hsettled⟩ := move_settles hf h.settled ha v
    exact ⟨hpasses.steps, (move_attentive v ha).orderly (move_coherent hf v) hsettled⟩

theorem live_steps (h : s.IsOrderly) (as : List Act) :
    s.Grows (s.live as) ∧ ExecutionState.Path s.state (s.entered (s.live as)) (s.live as).state ∧
      (s.live as).IsOrderly := by
  refine live_induction
    (P := fun t => s.Grows t ∧ ExecutionState.Path s.state (s.entered t) t.state ∧ t.IsOrderly)
    (fun a ⟨hgrows, hpath, horderly⟩ => ?_) ⟨.refl s, (Passes.refl s).path, h⟩ as
  obtain ⟨hsteps, hnext⟩ := act_steps horderly a
  refine ⟨hgrows.trans hsteps.grows, ?_, hnext⟩
  rw [hgrows.entered hsteps.grows]
  exact hpath.append hsteps.path

end Session

open Session in
/-- Whatever happens to a session, its state was idle at first and has changed along the edges of
`ExecutionState.next` only; it becomes compiling with each run that is accepted, and never else.
Without a run in flight it is not active. While a run waits it is suspended exactly if the wait is
for a line, paused exactly if it is for a debug command, and running if the script pauses. Every act
finds the session idle or the run at a wait. -/
theorem states_follow (setup : Setup) (registry : Registry) (acts : List Act) :
    let new := Session.idle setup registry
    let s := new.live acts
    ExecutionState.Path .idle (new.entered s) s.state ∧
    (∀ a, ExecutionState.Path s.state (s.entered (s.perform a)) (s.perform a).state ∧
      ∃ later, .compiling ∉ later ∧ s.entered (s.perform a) =
        if a.isRun && (s.act a).isOk then .compiling :: later else later) ∧
    (s.flight = none → s.state.isActive = false) ∧
    ∀ f, s.flight = some f → s.state.isActive = true ∧
      (s.state = .suspended ↔ ∃ resume, f.wait = .input resume) ∧
      (s.state = .debugPaused ↔ ∃ resume, f.wait = .debug resume) ∧
      (s.state = .running ↔ ∃ duration resume, f.wait = .sleep duration resume) := by
  intro new s
  obtain ⟨-, hpath, horderly⟩ := live_steps (idle_orderly setup registry) acts
  refine ⟨hpath, fun a => ?_, fun hf => ?_, fun f hf => ?_⟩
  · obtain ⟨hsteps, -⟩ := act_steps horderly a
    exact ⟨hsteps.path, hsteps.started⟩
  · have hsettled := horderly.settled
    unfold IsSettled at hsettled
    rwa [hf] at hsettled
  · rw [horderly.settled.state hf]
    cases f.wait <;> simp [Wait.state, ExecutionState.isActive]

end Lispbox
