import Lispbox.Proofs.Session.Works

/-!
# How runs end

From its first message to its last a run publishes what ends no run, with one exception: what
supplied functions emit is published as it is, and the message of an interrupt is one that ends runs
(`Session.Later`). However a run is left, by a value, an exception, a signal, a source that does not
compile or an event without a message, it is closed in one way: with one last message, with the
result and the state that belong to it, and with the debugger at rest (`Session.Closed`).

The invariant of a run under way is `Session.Course`: it holds when the run is started, each move
keeps it (`move_course`), and for a run that is over it says how.

A run whose steps are used up (`RunFault.exhausted`) is left out. That is an end of the dialogues
here, which have to be finite, and no end of a run: it comes only after as many agreed polls as the
settings allow steps (`run_terminates`), so with enough of them it does not come at all.

* `run_closes`: what every run publishes, and how it is left.
* `RunClosing.interrupt_emitted`: a supplied function that emits an interrupt.
-/
namespace Lispbox

/-- The message does not end a run. -/
def Message.IsOngoing (m : Message) : Prop := m.kind.isTerminal = false

/-- The message of an output, if it has one, ends no run. -/
theorem ofOutput_ongoing {o : Output} {m : Message} (h : Message.ofOutput o = .ok (some m)) :
    m.IsOngoing := by
  unfold Message.ofOutput at h
  split at h
  · cases h; rfl
  · split at h
    · cases h; rfl
    · cases h
  · cases h
  · cases h
  · cases h

/-- Of all events only interrupts have a message that ends runs. -/
theorem ofEvent_ongoing {e : Event} {m : Message} (h : Message.ofEvent e = .ok (some m)) :
    m.IsOngoing ∨ ∃ reason, e = .interrupt reason ∧ m = .interrupt reason := by
  cases e with
  | output o => exact .inl (ofOutput_ongoing h)
  | inputRequest prompt => cases h; exact .inl rfl
  | sleep duration => cases h; exact .inl rfl
  | interrupt reason => cases h; exact .inr ⟨reason, rfl, rfl⟩
  | debugPause line => cases h; exact .inl rfl

/-- However the run goes on after the wait, it emits events of a sort. -/
def Wait.Emits (E : Event → Prop) : Wait → Prop
  | .input resume => ∀ a, (resume a).Emits E
  | .sleep _ resume | .debug resume => ∀ a, (resume a).Emits E

theorem Wait.Emits.interrupt {E : Event → Prop} {w : Wait} (h : w.Emits E) :
    w.interrupt.Emits E := by
  cases w with
  | input resume => exact h _
  | sleep duration resume => exact h _
  | debug resume => exact h _

namespace Session

variable {E : Event → Prop} {s₀ s₁ s s' s'' : Session} {source : SourceUnit} {request : RunRequest}

/-! ## A run under way -/

/-- The session after some steps of a run whose script emits events of a sort. -/
structure Later (E : Event → Prop) (s s' : Session) : Prop where
  works : s.Works s'
  messages : ∀ m ∈ s.published s', m.IsOngoing ∨ ∃ e, E e ∧ Message.ofEvent e = .ok (some m)

theorem Later.of_notices (hw : s.Works s') {new : List Notice} (hn : s'.notices = new ++ s.notices)
    (h : ∀ m, .publish m ∈ new → m.IsOngoing) : Later E s s' := by
  refine ⟨hw, fun m hm => .inl (h m ?_)⟩
  rw [published, since_eq hn, List.mem_filterMap] at hm
  obtain ⟨n, hn, hm⟩ := hm
  cases n <;> cases hm
  exact List.mem_reverse.mp hn

theorem Later.of_eq (hw : s.Works s') (hn : s'.notices = s.notices) : Later E s s' :=
  have hnew : s'.notices = [] ++ s.notices := hn
  .of_notices hw hnew nofun

theorem Later.trans (h : Later E s s') (h' : Later E s' s'') : Later E s s'' := by
  refine ⟨Session.works.trans h.works h'.works, fun m hm => ?_⟩
  rw [h.works.grows.published h'.works.grows, List.mem_append] at hm
  exact hm.elim (h.messages m) (h'.messages m)

theorem later_publish {m : Message} (h : m.IsOngoing) : Later E s (s.publish m) :=
  have hnew : (s.publish m).notices = [.publish m] ++ s.notices := rfl
  .of_notices (works_note _) hnew fun m' hm' => by cases List.mem_singleton.mp hm'; exact h

theorem later_enter (next : ExecutionState) : Later E s (s.enter next) := by
  obtain ⟨new, hnew, henters⟩ := notices_enter s next
  exact .of_notices (works.enter next) hnew fun m hm => by cases henters _ hm

theorem later_startDebugger (source : SourceUnit) (request : RunRequest) :
    Later E s (s.startDebugger source request) := by
  refine .of_eq (works.startDebugger source request) ?_
  unfold startDebugger
  split <;> rfl

theorem later_prefetch (p : Program) : Later E s (s.prefetch p) := by
  have hloaded (modules : List String) : (Message.loading modules .loaded).IsOngoing := rfl
  have hnotices : ∃ new, (s.prefetch p).notices = new ++ s.notices ∧
      ∀ m, .publish m ∈ new → m.IsOngoing := by
    unfold prefetch
    dsimp only
    split
    · exact ⟨[], rfl, nofun⟩
    · split
      · exact ⟨[_], rfl, by simp⟩
      · exact ⟨[_, _], rfl, by simp [hloaded]⟩
  obtain ⟨new, hnew, h⟩ := hnotices
  exact .of_notices (works.prefetch p) hnew h

theorem later_installMissing (name : String) : Later E s (s.installMissing name).2 := by
  have hloading (modules : List String) (status : LoadingStatus) :
      (Message.loading modules status).IsOngoing := rfl
  have hnotices : ∃ status, (s.installMissing name).2.notices =
      [.publish (.loading [name] status), .resolve name, .publish (.loading [name] .loading)] ++
        s.notices := by
    unfold installMissing
    dsimp only
    split
    · exact ⟨.loaded, rfl⟩
    · exact ⟨.failed, rfl⟩
  obtain ⟨status, hnew⟩ := hnotices
  exact .of_notices (works.installMissing name) hnew (by simp [hloading])

theorem later_restarting (source : SourceUnit) (request : RunRequest) (name : String) :
    Later E s (s.restarting source request name) :=
  (later_installMissing name).trans (later_startDebugger source request)

/-! ## Conversations -/

/-- Where a conversation halts. -/
def Halted (E : Event → Prop) (s₁ : Session) : Halt × Stage → Prop
  | (.waits w, st) => Later E s₁ st.session ∧ w.Emits E
  | (.ends _, st) => Later E s₁ st.session
  | (.faults .exhausted, _) => True
  | (.faults (.unknownEvent u), st) =>
    (∃ s₂, Later E s₁ s₂ ∧ st.session.notices = .publish (.unknownEvent u) :: s₂.notices) ∧
      ∃ e, E e ∧ Message.ofEvent e = .error u

theorem haltOf_halted {st : Stage} (h : Later E s₁ st.session) (e : RunEnd) :
    Halted E s₁ (st.session.haltOf e, st) := by
  unfold haltOf
  split
  · trivial
  · exact h

/-- A conversation goes on so. -/
def Converses (E : Event → Prop) (s₁ : Session) (d : Dialogue (Except Exit Value)) (st : Stage) :
    Prop := Later E s₁ st.session ∧ d.Emits E

/-- An answer, and what it makes of the session. -/
theorem react_halted (debugging : Bool) (files : List (String × String)) {st : Stage} {m : Machine}
    {q : Query} {resume : Except Signal q.Answer → Dialogue (Except Exit Value)}
    (h : Converses E s₁ (.ask m q resume) st) :
    Keeps (Converses E s₁) (Halted E s₁) resume (st.react debugging files q) := by
  obtain ⟨hl, hq, hd⟩ := h
  have replied {st' : Stage} (hl' : Later E st.session st'.session) (a : Except Signal q.Answer) :
      Converses E s₁ (resume a) st' := ⟨hl.trans hl', hd a⟩
  have same (a : Except Signal q.Answer) : Converses E s₁ (resume a) st := ⟨hl, hd a⟩
  unfold Stage.react
  split
  · exact same _
  · cases q with
    | poll => exact same _
    | readFile name => exact same _
    | line file n =>
      unfold Stage.attend
      cases debugging with
      | false => exact same _
      | true =>
        have hreach : Later E st.session
            { st.session with debugger := (st.session.debugger.reach file n).2 } :=
          .of_eq (works.of_eq rfl rfl rfl rfl) rfl
        dsimp only
        cases (st.session.debugger.reach file n).1 with
        | true =>
          have hpause : Message.IsOngoing ⟨.debug, .number n, ContentType.number⟩ := rfl
          rw [deliver_shown (e := .debugPause n) rfl]
          exact ⟨hl.trans (hreach.trans ((later_publish hpause).trans (later_enter _))), hd⟩
        | false => exact replied hreach _
    | emit e =>
      dsimp only [Stage.attend]
      cases he : Message.ofEvent e with
      | error u =>
        rw [deliver_unknown he]
        exact ⟨⟨st.session, hl, rfl⟩, e, hq e rfl, he⟩
      | ok shown =>
        cases shown with
        | none =>
          rw [deliver_hidden he]
          exact same _
        | some m =>
          rw [deliver_shown he]
          refine replied ⟨works_note _, fun m' hm' => .inr ⟨e, hq e rfl, ?_⟩⟩ _
          have hnew : (st.session.publish m).notices = [.publish m] ++ st.session.notices := rfl
          rw [published, since_eq hnew] at hm'
          rw [List.mem_singleton.mp hm', he]
    | input prompt =>
      have hasked : Message.IsOngoing ⟨.input, .text prompt, ContentType.plain⟩ := rfl
      dsimp only [Stage.attend]
      rw [deliver_shown (e := .inputRequest prompt) rfl]
      cases st.stdin with
      | nil => exact ⟨hl.trans ((later_publish hasked).trans (later_enter _)), hd⟩
      | cons line rest => exact ⟨hl.trans (later_publish hasked), hd _⟩
    | sleep duration =>
      have hpause : Message.IsOngoing ⟨.sleep, .number duration, ContentType.number⟩ := rfl
      dsimp only [Stage.attend]
      rw [deliver_shown (e := .sleep duration) rfl]
      dsimp only
      split
      · exact ⟨hl.trans (later_publish hpause), hd⟩
      · exact ⟨hl.trans (later_publish hpause), hd _⟩

theorem converse_halted (debugging : Bool) (files : List (String × String))
    {d : Dialogue (Except Exit Value)} {st : Stage} (hl : Later E s₁ st.session) (hd : d.Emits E) :
    Halted E s₁ (converse debugging files d st) :=
  converse_induction (I := Converses E s₁) (fun h => haltOf_halted h.1 _)
    (fun h => haltOf_halted h.1 _) (react_halted debugging files) ⟨hl, hd⟩

/-! ## The ends of runs -/

/-- A run with its first messages behind it is over. -/
structure Closed (E : Event → Prop) (s₁ : Session) (r : Except RunFault Outcome) (s : Session) :
    Prop where
  notices : ∃ s₂ new m, Later E s₁ s₂ ∧ s.notices = new ++ s₂.notices ∧
    new.filterMap Notice.message? = [m] ∧ Closing m r s.state
  debugger : s.debugger = .inactive

/-- The last message is followed by the last state. -/
theorem closed_enter {s₂ : Session} {m : Message} {r : Except RunFault Outcome}
    {next : ExecutionState} (hl : Later E s₁ s₂) (hs : s.notices = .publish m :: s₂.notices)
    (hc : Closing m r next) :
    Closed E s₁ r
      { s.enter next with debugger := (s.enter next).debugger.stop, flight := none } := by
  obtain ⟨new, hnew, henters⟩ := notices_enter s next
  refine ⟨⟨s₂, new ++ [.publish m], m, hl, ?_, ?_, ?_⟩, rfl⟩
  · simp only [hnew, hs, List.append_assoc, List.singleton_append]
  · rw [List.filterMap_append, filterMap_enters henters]
    rfl
  · simp only [enter_state]
    exact hc

/-- What a run opened at an earlier time came to so far. -/
def Course (E : Event → Prop) (s₁ : Session) (p : Progress) : Prop :=
  match p.result with
  | none => Later E s₁ p.session ∧ ∃ f, p.session.flight = some f ∧ f.wait.Emits E
  | some (.error .exhausted) => True
  | some r => Closed E s₁ r p.session ∧
    ∀ u, r = .error (.unknownEvent u) → ∃ e, E e ∧ Message.ofEvent e = .error u

theorem Course.closed {p : Progress} {r : Except RunFault Outcome} (h : Course E s₁ p)
    (hr : p.result = some r) (hsteps : r ≠ .error .exhausted) :
    Closed E s₁ r p.session ∧
      ∀ u, r = .error (.unknownEvent u) → ∃ e, E e ∧ Message.ofEvent e = .error u := by
  unfold Course at h
  rw [hr] at h
  match r, hsteps, h with
  | .ok o, _, h => exact h
  | .error (.unknownEvent u), _, h => exact h
  | .error .exhausted, hsteps, _ => exact absurd rfl hsteps

theorem close_course {m : Message} {next : ExecutionState} {o : Outcome} (hl : Later E s₁ s)
    (hc : Closing m (.ok o) next) : Course E s₁ (s.close m next o) :=
  ⟨closed_enter hl rfl hc, nofun⟩

theorem finish_course (hl : Later E s₁ s) (source : SourceUnit) (e : AttemptEnd) :
    Course E s₁ (s.finish source e) := by
  cases e with
  | compileFailed e => exact close_course hl (.compileFailed e)
  | completed v => exact close_course hl (.completed v)
  | raised e => exact close_course hl (.failed _)
  | interrupted => exact close_course hl .interrupted
  | quit => exact close_course hl (.completed .nil)

theorem fail_course {f : RunFault} {st : Stage} (h : Halted E s₁ (.faults f, st)) :
    Course E s₁ (st.session.fail f) := by
  cases f with
  | exhausted => trivial
  | unknownEvent u =>
    obtain ⟨⟨s₂, hl, hs⟩, hu⟩ := h
    exact ⟨closed_enter hl hs (.unknownEvent u), fun u' hu' => by cases hu'; exact hu⟩

/-! ## Runs -/

/-- What a run of the session may emit: output, and what supplied functions emit; with standard
modules it is output that has a message or is not shown. -/
def Admits [Supply] (s : Session) (e : Event) : Prop :=
  ((∃ o, e = .output o) ∨ Supply.MayEmit e) ∧ (s.AllStandard → e.IsStandard)

variable [Supply]

/-- A program that is executed in the course of a run. -/
theorem dialogue_admits (hl : Later s₁.Admits s₁ s) (limit fuel : Nat) (p : Program) :
    (p.dialogue ⟨s.registry, limit⟩ fuel).Emits s₁.Admits := by
  have hsupplied : (p.dialogue ⟨s.registry, limit⟩ fuel).Emits
      fun e => (∃ o, e = .output o) ∨ Supply.MayEmit e :=
    dialogue_emits (fun o => .inl ⟨o, rfl⟩) (fun _ => .inr) _ fuel p
  by_cases hall : s₁.AllStandard
  · exact (hsupplied.and (dialogue_standard (hl.works.standard hall).registry fuel p)).mono
      fun e he => ⟨he.1, fun _ => he.2⟩
  · exact hsupplied.mono fun e he => ⟨he, fun h => absurd h hall⟩

theorem attempt_halted (hl : Later s₁.Admits s₁ s) (source : SourceUnit) (request : RunRequest) :
    Halted s₁.Admits s₁ (s.attempt source request) := by
  cases hc : compile source.text source.file s.setup.config.recursionLimit with
  | error e =>
    rw [attempt_of_error hc]
    exact hl
  | ok p =>
    have hrunning := hl.trans ((later_prefetch p).trans (later_enter .running))
    rw [attempt_of_ok hc]
    exact converse_halted _ _ hrunning (dialogue_admits hrunning _ _ _)

/-- However an attempt halts, the run is on its course; it may be started again. -/
theorem proceed_course {files : List (String × String)} {retries : Nat} {halt : Halt} {st : Stage}
    (h : Halted s₁.Admits s₁ (halt, st)) :
    Course s₁.Admits s₁ (proceed source request files retries halt st) := by
  refine proceed_induction (A := fun _ _ x => Halted s₁.Admits s₁ x)
    (P := Course s₁.Admits s₁) ?_ fail_course ?_ ?_ ?_ h
  · intro retries files w st ⟨hl, hw⟩
    exact ⟨hl.trans (.of_eq (works.of_eq rfl rfl rfl rfl) rfl), _, rfl, hw⟩
  · exact fun hl _ => finish_course hl source _
  · exact fun hl _ _ => finish_course (Later.trans hl (later_installMissing _)) source _
  · exact fun hl _ _ => attempt_halted (Later.trans hl (later_restarting source request _)) _ _

theorem start_course (s : Session) (source : SourceUnit) (request : RunRequest) :
    Course (s.opening request.mode).Admits (s.opening request.mode)
      (s.start source request) := by
  rw [start_eq]
  exact proceed_course (attempt_halted (later_startDebugger source request) source request)

theorem resume_course (hl : Later s₁.Admits s₁ s) (f : Flight) {d : Dialogue (Except Exit Value)}
    (hd : d.Emits s₁.Admits) : Course s₁.Admits s₁ (s.resume f d) :=
  proceed_course (converse_halted _ _ hl hd)

/-- A move keeps a run on its course. -/
theorem move_course {p : Progress} (v : Move) (h : Course s₁.Admits s₁ p) :
    Course s₁.Admits s₁ (p.move v) := by
  obtain ⟨s, result⟩ := p
  cases result with
  | some r => exact h
  | none =>
    obtain ⟨hl, f, hf, hw⟩ := id h
    have later {s' : Session} (hw : s.Works s') (hn : s'.notices = s.notices) :
        Later s₁.Admits s₁ s' := Later.trans hl (.of_eq hw hn)
    have hrunning : Later s₁.Admits s₁ (s.enter .running) := Later.trans hl (later_enter .running)
    have debugging (d : Debugger) :
        Later s₁.Admits s₁ { s.enter .running with debugger := d } :=
      hrunning.trans (.of_eq (works.of_eq rfl rfl rfl rfl) rfl)
    have hmoved := move_cases hf v
    generalize Progress.move ⟨s, none⟩ v = p at hmoved
    cases hmoved with
    | ignored => exact h
    | files files => exact ⟨later (works.of_eq rfl rfl rfl rfl) rfl, f, hf, hw⟩
    | interrupt =>
      refine resume_course ?_ f hw.interrupt
      exact later (works.of_eq rfl rfl rfl rfl) rfl
    | line hfw line =>
      rw [hfw] at hw
      exact resume_course hrunning f (hw _)
    | elapse hfw =>
      rw [hfw] at hw
      exact resume_course hl f (hw _)
    | goOn hfw hc =>
      rw [hfw] at hw
      exact resume_course (debugging _) f (hw _)
    | quit hfw =>
      rw [hfw] at hw
      exact resume_course (debugging _) f (hw _)

omit [Supply] in
/-- The messages of a run that is over. -/
theorem Closed.published {mode : RunMode} {r : Except RunFault Outcome}
    (hc : Closed E (s₀.opening mode) r s) :
    ∃ mid m, s₀.published s = .start mode :: mid ++ [m] ∧
      (∀ x ∈ mid, x.IsOngoing ∨ ∃ e, E e ∧ Message.ofEvent e = .ok (some x)) ∧
      Closing m r s.state := by
  obtain ⟨s₂, closing, m, hl, hclosing, hlast, hm⟩ := hc.notices
  have hopened : s₀.Grows (s₀.opening mode) := (works.opening mode).grows
  have hstart : s₀.published (s₀.opening mode) = [.start mode] := by
    obtain ⟨enters, hopening, henters⟩ := notices_opening s₀ mode
    have hnew : (s₀.opening mode).notices = (.publish (.start mode) :: enters) ++ s₀.notices :=
      hopening
    rw [Session.published, since_eq hnew, List.filterMap_reverse, List.filterMap_cons,
      filterMap_enters henters]
    rfl
  have hend : s₂.published s = [m] := by
    rw [Session.published, since_eq hclosing, List.filterMap_reverse, hlast]
    rfl
  refine ⟨(s₀.opening mode).published s₂, m, ?_, hl.messages, hm⟩
  rw [(hopened.trans hl.works.grows).published ⟨closing, hclosing.symm⟩,
    hopened.published hl.works.grows, hstart, hend]
  rfl

end Session

open Session in
/-- Every run that is accepted and comes to an end, whatever it is moved on by, publishes `start`
first and one last message that ends it. Message, result and state belong to each other, and the
debugger is at rest. What comes in between ends no run, but for the message of an interrupt that a
supplied function emits. With standard modules there are no such messages, and no events without a
message. -/
theorem run_closes [Supply] (s : Session) (request : RunRequest) (p : Progress)
    (hp : s.run request = .ok p) (vs : List Move) (r : Except RunFault Outcome)
    (hr : (p.play vs).result = some r) (hsteps : r ≠ .error .exhausted) :
    (∃ mid m, s.published (p.play vs).session = .start request.mode :: mid ++ [m] ∧
        (∀ x ∈ mid, x.kind.isTerminal = false ∨ ¬ s.AllStandard ∧
          ∃ reason, x = .interrupt reason ∧ Supply.MayEmit (.interrupt reason)) ∧
        m.kind.isTerminal = true ∧ Closing m r (p.play vs).session.state) ∧
      (p.play vs).session.debugger = .inactive ∧
      (s.AllStandard → ∀ u, r ≠ .error (.unknownEvent u)) := by
  have hcourse := Progress.play_induction (fun v => move_course v)
    (start_course { s with source := s.sourceFor request } (s.sourceFor request) request) vs
  rw [← run_eq hp] at hcourse
  have hopened : s.AllStandard →
      (opening { s with source := s.sourceFor request } request.mode).AllStandard :=
    fun h => (works.opening request.mode).standard ⟨h.registry, h.resolver⟩
  obtain ⟨hclosed, hunknown⟩ := hcourse.closed hr hsteps
  obtain ⟨mid, m, hpub, hmid, hm⟩ := hclosed.published
  refine ⟨⟨mid, m, hpub, fun x hx => ?_, hm.isTerminal, hm⟩, hclosed.debugger, ?_⟩
  · rcases hmid x hx with hongoing | ⟨e, ⟨hemits, hstandard⟩, he⟩
    · exact .inl hongoing
    · rcases ofEvent_ongoing he with hongoing | ⟨reason, rfl, rfl⟩
      · exact .inl hongoing
      · refine .inr ⟨fun h => ?_, reason, rfl, hemits.resolve_left nofun⟩
        obtain ⟨o, shown, ho, -⟩ := hstandard (hopened h)
        cases ho
  · rintro h u rfl
    obtain ⟨e, ⟨-, hstandard⟩, he⟩ := hunknown u rfl
    obtain ⟨o, shown, rfl, ho⟩ := hstandard (hopened h)
    cases ho.symm.trans he

namespace RunClosing

/-- A session with the usual modules, and a resolver that finds nothing. -/
def session : Session :=
  .idle ⟨⟨9, "main.scm", 0, true⟩, .none, ⟨fun _ => "", fun _ => ""⟩, 9⟩ .standard

def request : RunRequest := ⟨some "(input)", none, .plain, [], []⟩

/-- The run waits for a line. -/
def waiting : Progress :=
  { session with source := session.source.replace "(input)" "main.scm" }.start
    (session.source.replace "(input)" "main.scm") request

/-- Files are provided, then the line is entered. -/
def moves : List Move := [.provideFiles [], .command (.input "a")]

theorem session_allStandard : session.AllStandard :=
  ⟨Registry.allStandard_standard, nofun, fun _ _ h => by cases h⟩

/-- The line is all that the run waits for. -/
theorem waiting_ends : waiting.result.isNone = true ∧
    ∃ r, (waiting.play moves).result = some r ∧ r ≠ .error .exhausted := by
  have hwaits : waiting.result.isNone = true := by decide +kernel
  have hok : (waiting.play moves).result.any Except.isOk = true := by decide +kernel
  cases hr : (waiting.play moves).result with
  | none =>
    rw [hr] at hok
    cases hok
  | some r =>
    rw [hr] at hok
    refine ⟨hwaits, r, rfl, ?_⟩
    rintro rfl
    cases hok

theorem run_closes_input : ∃ mid m r,
    session.published (waiting.play moves).session = .start .plain :: mid ++ [m] ∧
      (∀ x ∈ mid, x.kind.isTerminal = false) ∧
      Closing m r (waiting.play moves).session.state ∧ ∀ u, r ≠ .error (.unknownEvent u) := by
  obtain ⟨-, r, hr, hsteps⟩ := waiting_ends
  obtain ⟨⟨mid, m, hpub, hmid, -, hm⟩, -, hstandard⟩ :=
    run_closes session request waiting rfl moves r hr hsteps
  refine ⟨mid, m, r, hpub, fun x hx => ?_, hm, hstandard session_allStandard⟩
  exact (hmid x hx).resolve_right fun h => h.1 session_allStandard

/-- The function `stop` of the module `m`. -/
def stop : Supplied := ⟨"stop", 0⟩

/-- What supplied functions do here: they emit an interrupt. -/
abbrev interrupting : Supply := ⟨fun _ _ => .emits (.interrupt "stop")⟩

/-- The same session with the module `m`. -/
def supplied : Session :=
  { session with registry := session.registry.install (.ofNatives "m" [.supplied stop]) }

def stopping : RunRequest := ⟨some "(import m)\n(m.stop)", none, .plain, [], []⟩

/-- The interrupt is published in the middle of the run, which goes on to its end: two messages that
end runs. -/
theorem interrupt_emitted : letI := interrupting
    ∃ p, supplied.run stopping = .ok p ∧ p.result.any Except.isOk = true ∧
      supplied.published p.session = [.start .plain, .interrupt "stop", .finish .nil] ∧
      p.session.state = .finished :=
  ⟨_, rfl, by decide +kernel⟩

end RunClosing
end Lispbox
