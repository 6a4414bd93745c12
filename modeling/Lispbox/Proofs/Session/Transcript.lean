import Lispbox.Proofs.Session.Closing
import Lispbox.Proofs.Session.Recorded

/-!
# What a run shows

A source that does not compile is reported, and that is all a run does. Otherwise a plain run that
is neither interrupted nor started again shows what a recorder logs that executes the same program
with the same modules, files and lines, and ends as it does.

The lines of the recorder are those of the request and those that were entered while the run waited
for one (`Progress.entered`). The invariant of the run is `Tracked`: where it waits, the recorder is
(`Session.Awaits`); each move keeps it (`move_tracked`).

* `run_shows`: what is published of a source that does not compile, and of a plain run.
-/
namespace Lispbox

namespace Progress

/-- The line that a move enters, if the run waits for one. -/
def takes (p : Progress) (v : Move) : List String :=
  match p.result, p.session.flight, v with
  | none, some ⟨_, _, _, _, _, .input _⟩, .command (.input line) => [line]
  | _, _, _ => []

/-- The lines that are entered, in order. -/
def entered [Supply] (p : Progress) : List Move → List String
  | [] => []
  | v :: vs => p.takes v ++ (p.move v).entered vs

theorem takes_over {p : Progress} {r : Except RunFault Outcome} (hr : p.result = some r)
    (v : Move) : p.takes v = [] := by
  unfold takes
  rw [hr]

/-- What every move of a kind keeps, where it is known which lines were entered. -/
theorem play_induction_entered [Supply] {C : Move → Prop} {P : List String → Progress → Prop}
    (step : ∀ {given : List String} {q : Progress} (v : Move), C v → P given q →
      P (given ++ q.takes v) (q.move v))
    (given : List String) {p : Progress} (h : P given p) {vs : List Move} (hvs : ∀ v ∈ vs, C v) :
    P (given ++ p.entered vs) (p.play vs) := by
  induction vs generalizing p given with
  | nil =>
    rw [entered, List.append_nil]
    exact h
  | cons v vs ih =>
    rw [List.forall_mem_cons] at hvs
    rw [entered, ← List.append_assoc]
    exact ih _ (step v hvs.1 h) hvs.2

end Progress

/-- What a run comes to whose script ends so; nothing if its steps are used up. -/
def Outcome.ofEnd? (file : String) (x : Explainer) : RunEnd → Option Outcome
  | .ended (.returned v) => some (.completed v)
  | .ended (.raised e) => some (.failed (e.explain file x))
  | .ended (.crashed reason) => some (.failed ((Exception.ofCause (.crash reason)).explain file x))
  | .ended .exhausted => none
  | .stopped .interrupt => some .interrupted
  | .stopped .quit => some (.completed .nil)

namespace Session

variable {s₀ s s' : Session} {source : SourceUnit} {request : RunRequest}

/-! ## The ends of runs -/

theorem close_shows {m : Message} (h : m.kind ≠ .loading) (next : ExecutionState) (o : Outcome) :
    (s.close m next o).session.visible = m :: s.visible ∧
      (s.close m next o).session.state = next := by
  refine ⟨?_, enter_state _ _⟩
  rw [← visible_publish h, ← visible_enter (s := s.publish m) next]
  rfl

/-- A run ends as its script does, with one more message. -/
theorem finish_shows (source : SourceUnit) {e : RunEnd} {a : AttemptEnd}
    (ha : AttemptEnd.ofRun? e = some a) :
    ∃ o last, Outcome.ofEnd? source.file s.setup.explainer e = some o ∧
      (s.finish source a).result = some (.ok o) ∧
      (s.finish source a).session.visible = last :: s.visible ∧
      Closing last (.ok o) (s.finish source a).session.state := by
  have closes {m : Message} {next : ExecutionState} {o : Outcome} (hk : m.kind ≠ .loading)
      (hc : Closing m (.ok o) next) :
      (s.close m next o).session.visible = m :: s.visible ∧
        Closing m (.ok o) (s.close m next o).session.state := by
    obtain ⟨hv, hs⟩ := close_shows (s := s) hk next o
    exact ⟨hv, by rw [hs]; exact hc⟩
  match e, ha with
  | .ended (.returned v), rfl => exact ⟨_, _, rfl, rfl, closes nofun (.completed v)⟩
  | .ended (.raised e), rfl => exact ⟨_, _, rfl, rfl, closes nofun (.failed _)⟩
  | .ended (.crashed reason), rfl => exact ⟨_, _, rfl, rfl, closes nofun (.failed _)⟩
  | .stopped .interrupt, rfl => exact ⟨_, _, rfl, rfl, closes nofun .interrupted⟩
  | .stopped .quit, rfl => exact ⟨_, _, rfl, rfl, closes nofun (.completed .nil)⟩

/-! ## Runs that are started again -/

/-- The resolver was asked for a module that it has. -/
def Retried (s₀ s : Session) : Prop :=
  ∃ new name m, s.notices = new ++ s₀.notices ∧ .resolve name ∈ new ∧
    s₀.setup.resolver.resolve name = .ok m

theorem Retried.grows (h : Retried s₀ s) (hg : s.Grows s') : Retried s₀ s' := by
  obtain ⟨new, name, m, hnew, hmem, hm⟩ := h
  obtain ⟨new', hnew'⟩ := hg
  refine ⟨new' ++ new, name, m, by rw [← hnew', hnew, List.append_assoc], ?_, hm⟩
  exact List.mem_append_right new' hmem

/-- A module that was asked for is found. -/
theorem retried_installMissing (hw : s₀.Works s) {name : String} {m : Module}
    (hm : s.setup.resolver.resolve name = .ok m) : Retried s₀ (s.installMissing name).2 := by
  obtain ⟨new, hnew⟩ := id hw.grows
  refine ⟨[.publish (.loading [name] .loaded), .resolve name,
    .publish (.loading [name] .loading)] ++ new, name, m, ?_, by simp, hw.setup ▸ hm⟩
  rw [installMissing_of_ok hm, List.append_assoc, hnew]
  rfl

/-- What is shown of a question for a module is about modules only. -/
theorem visible_installMissing (name : String) :
    (s.installMissing name).2.visible = s.visible := by
  unfold installMissing
  dsimp only
  split <;> rfl

/-! ## Runs beside a recorder -/

/-- How far a plain run with these lines has come (see the module doc). -/
inductive Tracked (s₀ : Session) (source : SourceUnit) (request : RunRequest)
    (d₀ : Dialogue (Except Exit Value)) (base : List Message) (given : List String)
    (p : Progress) : Prop where
  /-- Its steps are used up. -/
  | exhausted (hr : p.result = some (.error .exhausted))
  | retried (h : Retried s₀ p.session)
  | waits (lines : List String) (wait : Wait) (polls : Nat) (log : List LogEntry)
    (hr : p.result = none)
    (hf : p.session.flight = some ⟨source, request, 1, s₀.files, lines, wait⟩)
    (hs : p.session.Shown base log) (hw : Awaits s₀.files d₀ given lines polls log wait)
  | ended (lines : List String) (polls : Nat) (log : List LogEntry)
    (res : Except Abort (Except Exit Value)) (m : Machine) (o : Outcome) (last : Message)
    (hrun : ∀ more, d₀.run (Recorder.host (.plain s₀.files)) ⟨given ++ more, 0, 0, []⟩ =
      (res, m, ⟨lines ++ more, 0, polls, log⟩))
    (hr : p.result = some (.ok o))
    (ho : Outcome.ofEnd? source.file s₀.setup.explainer (.ofResult res) = some o)
    (hs : p.session.visible = last :: (log.filterMap LogEntry.message? ++ base))
    (ht : ∀ e ∈ log, ∀ ev, e.event? = some ev → Message.ofEvent ev = .ok e.message?)
    (hc : Closing last (.ok o) p.session.state)

variable {d₀ d : Dialogue (Except Exit Value)} {base : List Message} {given lines : List String}
  {polls : Nat} {log : List LogEntry}

theorem proceed_tracked [Supply] {halt : Halt} {st : Stage}
    (ha : Arrives s₀.files d₀ given base (halt, st)) (hw : s₀.Works st.session) :
    Tracked s₀ source request d₀ base given (proceed source request s₀.files 1 halt st) := by
  cases halt with
  | waits w =>
    obtain ⟨polls, log, hs, hw⟩ := ha
    exact .waits st.stdin w polls log rfl rfl ⟨hs.visible, hs.translated, hs.running⟩ hw
  | faults f =>
    obtain rfl : f = .exhausted := ha
    exact .exhausted rfl
  | ends e =>
    obtain ⟨polls, log, res, m, hs, he, hrun⟩ := ha
    have hover {s : Session} (hv : s.visible = st.session.visible)
        (hset : s.setup = st.session.setup) :
        Tracked s₀ source request d₀ base given (s.finish source e) := by
      obtain ⟨o, last, ho, hr, hvisible, hc⟩ := finish_shows (s := s) source he
      rw [hset, hw.setup] at ho
      refine .ended st.stdin polls log res m o last hrun hr ho ?_ hs.translated hc
      rw [hvisible, hv, hs.visible]
    rcases proceed_ends_cases e with hlast | ⟨x, name, rfl, hx⟩
    · rw [hlast]
      exact hover rfl rfl
    · cases hm : st.session.setup.resolver.resolve name with
      | error err =>
        rw [proceed_of_unfound hx hm]
        exact hover (visible_installMissing name) (works.installMissing name).setup
      | ok m =>
        have hstarted :=
          works.startDebugger (s := (st.session.installMissing name).2) source request
        rw [proceed_of_found hx hm]
        exact .retried ((retried_installMissing hw hm).grows
          (works.trans hstarted (works.trans (works.attempt _ source request)
            (works.proceed _ _ _ _ _ _))).grows)

theorem resume_tracked [Supply] (hw : s₀.Works s) (hplain : request.mode = .plain)
    (hs : s.Shown base log) (hd : d.Emits Event.IsStandard)
    (hf : Follows s₀.files d₀ given d lines polls log) (wait : Wait) :
    Tracked s₀ source request d₀ base given
      (s.resume ⟨source, request, 1, s₀.files, lines, wait⟩ d) := by
  have hmode : (request.mode == .debug) = false := by rw [hplain]; rfl
  have hplace : Accompanied s₀.files d₀ given base d ⟨s, lines⟩ := ⟨hd, polls, log, hs, hf⟩
  unfold resume
  dsimp only
  rw [hmode]
  exact proceed_tracked (converse_recorded hplace)
    (works.trans hw (works.converse false s₀.files d ⟨s, lines⟩))

/-- A move keeps a run beside its recorder. -/
theorem move_tracked [Supply] {p : Progress} (hwork : s₀.Works p.session)
    (hplain : request.mode = .plain) {v : Move} (hv : v ≠ .command .interrupt)
    (h : Tracked s₀ source request d₀ base given p) :
    Tracked s₀ source request d₀ base (given ++ p.takes v) (p.move v) := by
  cases h with
  | exhausted hr =>
    rw [Progress.move_over hr v]
    exact .exhausted hr
  | retried h => exact .retried (h.grows (works.move p v).grows)
  | ended lines polls log res m o last hrun hr ho hs ht hc =>
    rw [Progress.move_over hr v, Progress.takes_over hr v, List.append_nil]
    exact .ended lines polls log res m o last hrun hr ho hs ht hc
  | waits lines wait polls log hr hf hs hw =>
    have ignored : Tracked s₀ source request d₀ base given ⟨p.session, none⟩ :=
      .waits lines wait polls log rfl hf hs hw
    unfold Progress.move Progress.takes
    rw [hr, hf]
    cases v with
    | provideFiles files =>
      simp only [List.append_nil]
      exact .waits lines wait polls log rfl hf ⟨hs.visible, hs.translated, hs.running⟩ hw
    | elapse =>
      simp only [List.append_nil, elapse, hf]
      cases wait with
      | input resume => exact ignored
      | debug resume => exact ignored
      | sleep duration resume => exact resume_tracked hwork hplain hs hw.1 hw.2 _
    | command c =>
      cases c with
      | interrupt => exact absurd rfl hv
      | debug c =>
        simp only [List.append_nil, command, hf]
        cases wait with
        | input resume => exact ignored
        | sleep duration resume => exact ignored
        | debug resume => exact hw.elim
      | input line =>
        simp only [command, hf]
        cases wait with
        | debug resume => exact hw.elim
        | sleep duration resume =>
          simp only [List.append_nil]
          exact ignored
        | input resume =>
          obtain ⟨rfl, hw⟩ := hw
          exact resume_tracked (works.trans hwork (works.enter .running)) hplain (hs.enter _)
            (hw line).1 (hw line).2 _

/-- A run stays beside its recorder however often it waits. -/
theorem play_tracked [Supply] {p : Progress} (hwork : s₀.Works p.session)
    (hplain : request.mode = .plain) {vs : List Move} (hvs : .command .interrupt ∉ vs)
    (h : Tracked s₀ source request d₀ base given p) :
    Tracked s₀ source request d₀ base (given ++ p.entered vs) (p.play vs) :=
  (Progress.play_induction_entered (C := (· ≠ .command .interrupt))
    (P := fun given q => s₀.Works q.session ∧ Tracked s₀ source request d₀ base given q)
    (fun v hv h => ⟨works.trans h.1 (works.move _ v), move_tracked h.1 hplain hv h.2⟩)
    given ⟨hwork, h⟩ fun _ hmem heq => hvs (heq ▸ hmem)).2

/-! ## The start of a run -/

theorem files_enter (next : ExecutionState) : (s.enter next).files = s.files := by
  unfold enter
  split <;> rfl

theorem registry_enter (next : ExecutionState) : (s.enter next).registry = s.registry := by
  unfold enter
  split <;> rfl

theorem files_prefetch (p : Program) : (s.prefetch p).files = s.files := by
  unfold prefetch
  dsimp only
  split
  · rfl
  · split <;> rfl

/-- Which modules are there ahead of a run depends on the registry and the resolver only. -/
theorem registry_prefetch {t : Session} (hr : t.registry = s.registry) (hs : t.setup = s.setup)
    (p : Program) : (t.prefetch p).registry = (s.prefetch p).registry := by
  unfold prefetch
  rw [hr]
  dsimp only
  split
  · exact hr
  · simp only [note, hs]
    split
    · exact hr
    · simp only [installFound, publish, note, hr]

theorem files_opening (mode : RunMode) : (s.opening mode).files = s.files :=
  files_enter .compiling

theorem registry_opening (mode : RunMode) : (s.opening mode).registry = s.registry :=
  registry_enter .compiling

theorem shown_opening (mode : RunMode) :
    (s.opening mode).Shown (.start mode :: s.visible) [] := by
  refine ⟨?_, by simp, interrupted_enter .compiling⟩
  have hkind : (Message.start mode).kind ≠ .loading := nofun
  rw [opening, visible_publish hkind, visible_enter]
  rfl

/-- The first attempt of a plain run executes the program with what the session has. -/
theorem attempt_opening [Supply] {program : Program} (hplain : request.mode = .plain)
    (hc : compile source.text source.file s.setup.config.recursionLimit = .ok program) :
    (s.opening .plain).attempt source request =
      converse false s.files
        (program.dialogue ⟨(s.prefetch program).registry, s.setup.config.recursionLimit⟩
          s.setup.fuel)
        ⟨((s.opening .plain).prefetch program).enter .running, request.stdin⟩ := by
  have hsetup : (s.opening .plain).setup = s.setup := (works.opening .plain).setup
  rw [← hsetup] at hc
  rw [attempt_of_ok hc, files_enter, files_prefetch, files_opening, registry_enter,
    registry_prefetch (registry_opening .plain) hsetup, (works.running program).setup, hsetup,
    hplain]
  rfl

/-- A plain run of a program starts beside a recorder that executes the program. -/
theorem start_tracked [Supply] {program : Program} (hall : s.AllStandard)
    (hplain : request.mode = .plain)
    (hc : compile source.text source.file s.setup.config.recursionLimit = .ok program) :
    Tracked s source request
      (program.dialogue ⟨(s.prefetch program).registry, s.setup.config.recursionLimit⟩ s.setup.fuel)
      (.start .plain :: s.visible) request.stdin (s.start source request) := by
  have hdebugger : (s.opening .plain).startDebugger source request = s.opening .plain := by
    unfold startDebugger
    rw [hplain]
  have hshown : (((s.opening .plain).prefetch program).enter .running).Shown
      (.start .plain :: s.visible) [] :=
    ((shown_opening .plain).prefetch program).enter .running
  have hstandard : (program.dialogue ⟨(s.prefetch program).registry,
      s.setup.config.recursionLimit⟩ s.setup.fuel).Emits Event.IsStandard :=
    dialogue_standard ((works.prefetch program).standard hall).registry _ _
  have hwork := works.trans (works.opening .plain) (works.attempt (s.opening .plain) source request)
  rw [attempt_opening hplain hc] at hwork
  rw [start_eq, hplain, hdebugger, files_opening, attempt_opening hplain hc]
  exact proceed_tracked (converse_recorded ⟨hstandard, 0, [], hshown, fun _ => rfl⟩) hwork

/-- What is shown since an earlier time, in order. -/
theorem published_visible {new : List Notice} {ms : List Message}
    (hn : s.notices = new ++ s₀.notices) (hv : s.visible = ms ++ s₀.visible) :
    (s₀.published s).filter (fun m => m.kind != .loading) = ms.reverse := by
  have hms : (new.filterMap Notice.message?).filter (fun m => m.kind != .loading) = ms := by
    rw [visible, hn, List.filterMap_append, List.filter_append] at hv
    exact List.append_cancel_right hv
  rw [published, since_eq hn, List.filterMap_reverse, List.filter_reverse, hms]

/-- What a plain run shows, once it is over. -/
theorem start_shows [Supply] {program : Program} (hall : s.AllStandard)
    (hplain : request.mode = .plain)
    (hc : compile source.text source.file s.setup.config.recursionLimit = .ok program)
    {vs : List Move} (hvs : .command .interrupt ∉ vs) {r : Except RunFault Outcome}
    (hr : ((s.start source request).play vs).result = some r) (hsteps : r ≠ .error .exhausted)
    (hretry : ¬ Retried s ((s.start source request).play vs).session) :
    ∃ e m rec o last,
      Recorder.execute (.plain s.files)
        ⟨(s.prefetch program).registry, s.setup.config.recursionLimit⟩ s.setup.fuel program
        ⟨request.stdin ++ (s.start source request).entered vs, 0, 0, []⟩ = (e, m, rec) ∧
      r = .ok o ∧ Outcome.ofEnd? source.file s.setup.explainer e = some o ∧
      (s.published ((s.start source request).play vs).session).filter
          (fun m => m.kind != .loading) =
        .start .plain :: rec.log.reverse.filterMap LogEntry.message? ++ [last] ∧
      Closing last r ((s.start source request).play vs).session.state ∧
      ∀ x ∈ rec.log, ∀ ev, x.event? = some ev → Message.ofEvent ev = .ok x.message? := by
  have hwork := works.start s source request
  have hend := play_tracked hwork hplain hvs (start_tracked hall hplain hc)
  cases hend with
  | exhausted h =>
    rw [hr] at h
    cases h
    exact absurd rfl hsteps
  | retried h => exact absurd h hretry
  | waits lines wait polls log h =>
    rw [hr] at h
    cases h
  | ended lines polls log res m o last hrun h ho hs ht hc =>
    rw [hr] at h
    cases h
    have hrun := hrun []
    rw [List.append_nil, List.append_nil] at hrun
    refine ⟨.ofResult res, m, ⟨lines, 0, polls, log⟩, o, last, ?_, rfl, ho, ?_, hc, ht⟩
    · unfold Recorder.execute Program.run
      dsimp only
      rw [hrun]
    · obtain ⟨new, hnew⟩ := (works.trans hwork (works.play _ vs)).grows
      have hshown : ((s.start source request).play vs).session.visible =
          (last :: (log.filterMap LogEntry.message? ++ [.start .plain])) ++ s.visible := by
        rw [hs]
        simp
      rw [published_visible hnew.symm hshown]
      simp

/-! ## Sources that do not compile -/

theorem start_compileFailed [Supply] {e : CompileError}
    (hc : compile source.text source.file s.setup.config.recursionLimit = .error e) :
    s.start source request = ((s.opening request.mode).startDebugger source request).close
      (.compileError e) .errored (.compileFailed e) := by
  have hsetup := (works.trans (works.opening (s := s) request.mode)
    (works.startDebugger source request)).setup
  rw [← hsetup] at hc
  rw [start_eq, attempt_of_error hc]
  rfl

/-- The error is reported after `start`, and nobody asks the resolver. -/
theorem compileFailed_shows [Supply] {e : CompileError}
    (hc : compile source.text source.file s.setup.config.recursionLimit = .error e) :
    (s.start source request).result = some (.ok (.compileFailed e)) ∧
      s.published (s.start source request).session =
        [.start request.mode, .compileError e] ∧
      ∀ n ∈ s.since (s.start source request).session,
        (∀ names, n ≠ .prefetch names) ∧ ∀ name, n ≠ .resolve name := by
  rw [start_compileFailed hc]
  obtain ⟨enters, hopening, henters⟩ := notices_opening s request.mode
  obtain ⟨enters', hclose, henters'⟩ := notices_enter
    (((s.opening request.mode).startDebugger source request).publish (.compileError e)) .errored
  have hdebugger : ((s.opening request.mode).startDebugger source request).notices =
      (s.opening request.mode).notices := by
    unfold startDebugger
    split <;> rfl
  have hall : (((s.opening request.mode).startDebugger source request).close (.compileError e)
      .errored (.compileFailed e)).session.notices =
      (enters' ++ .publish (.compileError e) :: .publish (.start request.mode) :: enters) ++
        s.notices := by
    refine hclose.trans ?_
    rw [publish, note, hdebugger, hopening]
    simp only [List.append_assoc, List.cons_append]
  refine ⟨rfl, ?_, ?_⟩
  · rw [published, since_eq hall, List.filterMap_reverse, List.filterMap_append,
      List.filterMap_cons, List.filterMap_cons, filterMap_enters henters,
      filterMap_enters henters']
    rfl
  · intro n hn
    have harmless : ∀ next, n = .enter next →
        (∀ names, n ≠ .prefetch names) ∧ ∀ name, n ≠ .resolve name := by
      rintro next rfl
      exact ⟨by rintro _ ⟨⟩, by rintro _ ⟨⟩⟩
    have silent (m : Message) : (∀ names, Notice.publish m ≠ .prefetch names) ∧
        ∀ name, Notice.publish m ≠ .resolve name :=
      ⟨by rintro _ ⟨⟩, by rintro _ ⟨⟩⟩
    rw [since_eq hall, List.mem_reverse, List.mem_append, List.mem_cons, List.mem_cons] at hn
    rcases hn with hn | rfl | rfl | hn
    · exact harmless _ (henters' n hn)
    · exact silent _
    · exact silent _
    · exact harmless _ (henters n hn)

end Session

open Session in
/-- A source that does not compile is reported after `start`, and the resolver is not asked. A plain
run with standard modules that is neither interrupted nor started again shows between `start` and
its last message, messages about modules aside, what a recorder logs that executes the same program,
and comes to what the recorder comes to. -/
theorem run_shows [Supply] (s : Session) (request : RunRequest) (p : Progress)
    (hp : s.run request = .ok p) :
    let source := s.sourceFor request
    let limit := s.setup.config.recursionLimit
    (∀ e, compile source.text source.file limit = .error e →
      p.result = some (.ok (.compileFailed e)) ∧
        s.published p.session = [.start request.mode, .compileError e] ∧
        ∀ n ∈ s.since p.session, (∀ names, n ≠ .prefetch names) ∧ ∀ name, n ≠ .resolve name) ∧
    ∀ program, compile source.text source.file limit = .ok program → s.AllStandard →
      request.mode = .plain → ∀ vs r, .command .interrupt ∉ vs →
      (p.play vs).result = some r → r ≠ .error .exhausted →
      (∀ name m, .resolve name ∈ s.since (p.play vs).session →
        s.setup.resolver.resolve name ≠ .ok m) →
      ∃ e m rec o last,
        Recorder.execute (.plain s.files) ⟨(s.prefetch program).registry, limit⟩ s.setup.fuel
          program ⟨request.stdin ++ p.entered vs, 0, 0, []⟩ = (e, m, rec) ∧
        r = .ok o ∧ Outcome.ofEnd? source.file s.setup.explainer e = some o ∧
        (s.published (p.play vs).session).filter (fun m => m.kind != .loading) =
          .start .plain :: rec.log.reverse.filterMap LogEntry.message? ++ [last] ∧
        Closing last r (p.play vs).session.state ∧
        ∀ x ∈ rec.log, ∀ ev, x.event? = some ev → Message.ofEvent ev = .ok x.message? := by
  intro source limit
  have hstart := run_eq hp
  constructor
  · intro e hc
    rw [hstart]
    exact compileFailed_shows (s := { s with source := source }) hc
  · intro program hc hall hplain vs r hvs hr hsteps hretry
    have hnot : ¬ Retried s (p.play vs).session := by
      rintro ⟨new, name, m, hnew, hmem, hm⟩
      refine hretry name m ?_ hm
      rw [since_eq hnew]
      exact List.mem_reverse.mpr hmem
    rw [hstart] at hr hnot ⊢
    have hregistry := registry_prefetch (s := s) (t := { s with source := source }) rfl rfl program
    have hshows := start_shows (s := { s with source := source }) ⟨hall.registry, hall.resolver⟩
      hplain hc hvs hr hsteps hnot
    rw [hregistry] at hshows
    exact hshows

namespace RunClosing

/-- The request of a source that does not compile. -/
def emptyCall : RunRequest := { request with source := some "()" }

theorem run_shows_input :
    (∃ p e, session.run emptyCall = .ok p ∧
      session.published p.session = [.start .plain, .compileError e]) ∧
    ∃ program e m rec o last,
      Recorder.execute (.plain []) ⟨(session.prefetch program).registry, 9⟩ 9 program
        ⟨["a"], 0, 0, []⟩ = (e, m, rec) ∧
      Outcome.ofEnd? "main.scm" session.setup.explainer e = some o ∧
      (session.published (waiting.play moves).session).filter (fun m => m.kind != .loading) =
        .start .plain :: rec.log.reverse.filterMap LogEntry.message? ++ [last] := by
  constructor
  · obtain ⟨p, hp⟩ : ∃ p, session.run emptyCall = .ok p := ⟨_, rfl⟩
    obtain ⟨e, he⟩ : ∃ e, compile "()" "main.scm" 9 = .error e := ⟨_, rfl⟩
    obtain ⟨-, hpub, -⟩ := (run_shows session emptyCall p hp).1 e he
    exact ⟨p, e, hp, hpub⟩
  · have hok : (compile "(input)" "main.scm" 9).isOk = true := by decide +kernel
    have hentered : waiting.entered moves = ["a"] := by decide +kernel
    have hmoves : .command .interrupt ∉ moves := by simp [moves]
    obtain ⟨-, r, hr, hsteps⟩ := waiting_ends
    cases hc : compile "(input)" "main.scm" 9 with
    | error e =>
      rw [hc] at hok
      cases hok
    | ok program =>
      obtain ⟨e, m, rec, o, last, hexec, -, ho, hpub, -⟩ :=
        (run_shows session request waiting rfl).2 program hc session_allStandard rfl moves r hmoves
          hr hsteps fun name m _ => nofun
      rw [hentered] at hexec
      exact ⟨program, e, m, rec, o, last, hexec, ho, hpub⟩

end RunClosing
end Lispbox
