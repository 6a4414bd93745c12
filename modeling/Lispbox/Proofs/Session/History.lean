import Lispbox.Proofs.Session.Debugging
import Lispbox.Proofs.Session.Transcript

/-!
# Attempts that are debugged

What happens in one attempt of a run that is debugged is a `History`: what the interpreter reports,
what the user answers at pauses, and what is published. `Debugged` is the rule for it, one case for
each thing that can happen. A line pauses the run or not by `Pauses` alone, which is about the line,
the latest answer of the attempt and the request, not about the debugger.

That nothing of a history is made up is said by a recorder that executes the same program with the
same modules, files and lines (`History.IsExact`): its log goes on from that of the history, and is
that of the history if the attempt has ended. As in a plain run the session stays beside the
recorder (`Session.Reaches`), and its debugger is where the latest answer has left it
(`Session.Watched`).

* `Session.converse_halts`: a conversation, whatever it comes to, goes on with the history.
-/
namespace Lispbox

/-- The line pauses a run after the latest answer, if there was one. -/
def Pauses (source : SourceUnit) (breakpoints : List Nat) (latest : Option DebugCommand)
    (file : String) (n : Nat) : Prop :=
  file = source.file ∧ (latest = some .step ∨
    (latest = none ∨ latest = some .continue_) ∧ n ∈ breakpoints ∧ source.isCodeLine n = true)

/-- What is reported in an attempt, what is answered and what is published, each newest first, and
whether the run is paused. -/
inductive Debugged (source : SourceUnit) (breakpoints : List Nat) :
    List LogEntry → List DebugCommand → List Message → (isPaused : Bool) → Prop where
  | start : Debugged source breakpoints [] [] [] false
  /-- The run pauses before the line; nothing happens until there is an answer. -/
  | pause {log : List LogEntry} {answers : List DebugCommand} {ms : List Message} {file : String}
    {n : Nat} (h : Debugged source breakpoints log answers ms false)
    (hp : Pauses source breakpoints answers.head? file n) :
    Debugged source breakpoints (.line file n :: log) answers (.pause n :: ms) true
  | answer {log : List LogEntry} {answers : List DebugCommand} {ms : List Message}
    (c : DebugCommand) (h : Debugged source breakpoints log answers ms true) :
    Debugged source breakpoints log (c :: answers) ms false
  /-- The run does not pause before the line. -/
  | pass {log : List LogEntry} {answers : List DebugCommand} {ms : List Message} {file : String}
    {n : Nat} (h : Debugged source breakpoints log answers ms false)
    (hp : ¬ Pauses source breakpoints answers.head? file n) :
    Debugged source breakpoints (.line file n :: log) answers ms false
  | other {log : List LogEntry} {answers : List DebugCommand} {ms : List Message} {e : LogEntry}
    (h : Debugged source breakpoints log answers ms false) (he : ∀ file n, e ≠ .line file n) :
    Debugged source breakpoints (e :: log) answers (e.message?.toList ++ ms) false

/-- An attempt of a run. Log, answers and messages are newest first, and messages about modules are
left out. -/
structure History where
  /-- The modules that it is executed with. -/
  registry : Registry
  /-- The lines that were entered, in their order. -/
  entered : List String
  answers : List DebugCommand
  log : List LogEntry
  messages : List Message

/-- The history of an attempt in which nothing has happened. -/
def History.new (registry : Registry) : History := ⟨registry, [], [], [], []⟩

/-- What has become of an attempt. -/
inductive Phase where
  /-- It waits for a line, or for the end of a pause of the script. -/
  | waiting
  /-- The debugger pauses it. -/
  | paused
  /-- It was broken off at an event without a message. -/
  | broken (u : UnknownEvent)
  /-- The script has ended. -/
  | ended
  deriving DecidableEq

/-- How far the log of an attempt goes, and what the interpreter would still report: an attempt that
waits has reported the request last, one that is broken off lacks the event that has no message, and
one that is over lacks nothing. -/
def Phase.Fits : Phase → (log later : List LogEntry) → Prop
  | .waiting, log, _ => (∃ prompt, log.head? = some (.input prompt)) ∨
    ∃ duration, log.head? = some (.sleep duration)
  | .paused, _, _ => True
  | .broken u, _, later => ∃ o, later.getLast? = some (.output o) ∧ Message.ofOutput o = .error u
  | .ended, _, later => later = []

/-- What has become of the last attempt of a run. -/
def Progress.phase (p : Progress) : Phase :=
  match p.result with
  | none => if p.isPaused then .paused else .waiting
  | some (.error (.unknownEvent u)) => .broken u
  | some _ => .ended

/-- What is recorded of a run, lines included. -/
def Recording.full (files : List (String × String)) : Recording := ⟨files, true, none, none⟩

/-- What a recorder makes of the program of an attempt, if it is given the lines of the attempt, and
further ones. -/
def Session.recorded [Supply] (s : Session) (request : RunRequest) (program : Program) (h : History)
    (more : List String) : Recorder :=
  (Recorder.execute (.full s.files) ⟨h.registry, s.setup.config.recursionLimit⟩ s.setup.fuel program
    ⟨request.stdin ++ h.entered ++ more, 0, 0, []⟩).2.2

/-- The history keeps to the rule, and its log is what the interpreter reports. -/
structure History.IsExact [Supply] (s : Session) (source : SourceUnit) (request : RunRequest)
    (program : Program) (h : History) (phase : Phase) : Prop where
  debugged : Debugged source request.breakpoints h.log h.answers h.messages (phase == .paused)
  reported : ∀ more, ∃ later, (s.recorded request program h more).log = later ++ h.log ∧
    phase.Fits h.log later

/-! ## The debugger -/

theorem Debugger.mem_sortLines {n : Nat} {ns : List Nat} : n ∈ sortLines ns ↔ n ∈ ns := by
  simp [sortLines]

/-- What the debugger is doing after the latest answer. -/
def DebugState.after : Option DebugCommand → DebugState
  | none => .autoContinue
  | some .step => .stepping
  | some .continue_ => .continuing
  | some .quit => .inactive

/-- The debugger of an attempt, which is not paused, after the latest answer. -/
def Debugger.after (source : SourceUnit) (breakpoints : List Nat) (latest : Option DebugCommand) :
    Debugger :=
  { Debugger.start source breakpoints with state := .after latest }

theorem Debugger.reach_after (source : SourceUnit) (breakpoints : List Nat)
    (latest : Option DebugCommand) (file : String) (n : Nat) :
    ((after source breakpoints latest).reach file n).1 = true ↔
      Pauses source breakpoints latest file n := by
  rw [reach_pauses_iff]
  have hfile : (after source breakpoints latest).file = some file ↔ file = source.file := by
    simp [after, start, eq_comm]
  have hline : (after source breakpoints latest).pausesAt n = true ↔ (latest = some .step ∨
      (latest = none ∨ latest = some .continue_) ∧ n ∈ breakpoints ∧
        source.isCodeLine n = true) := by
    match latest with
    | none => simp [after, start, pausesAt, DebugState.after, mem_sortLines]
    | some .step => simp [after, start, pausesAt, DebugState.after]
    | some .continue_ => simp [after, start, pausesAt, DebugState.after, mem_sortLines]
    | some .quit => simp [after, start, pausesAt, DebugState.after]
  rw [hfile, hline, Pauses]

theorem Debugger.reach_paused {d : Debugger} {file : String} {n : Nat}
    (h : (d.reach file n).1 = true) : d.reach file n = (true, { d with state := .paused n }) := by
  unfold reach at h ⊢
  split
  · rfl
  · next hp =>
    rw [if_neg hp] at h
    cases h

/-- A line before which the run does not pause changes nothing. -/
theorem Debugger.reach_passed {d : Debugger} {file : String} {n : Nat}
    (h : (d.reach file n).1 = false) : d.reach file n = (false, d) := by
  unfold reach at h ⊢
  split
  · next hp =>
    rw [if_pos hp] at h
    cases h
  · rfl

/-! ## The recorder -/

namespace Recorder

theorem log_check (r : Recording) (at_ : Callback) (s : Recorder) :
    (check r at_ s).2.log = s.log := by
  unfold check
  split
  · rfl
  · split
    · dsimp only
      split <;> rfl
    · rfl

/-- A log is only added to. -/
theorem log_reply (r : Recording) (s : Recorder) (q : Query) :
    ∃ new, ((host r).reply s q).2.log = new ++ s.log := by
  cases q with
  | poll =>
    refine ⟨[], ?_⟩
    dsimp only [host, reply]
    split
    · split <;> rfl
    · rfl
  | line file n =>
    dsimp only [host, reply]
    rw [log_check]
    split
    · exact ⟨[.line file n], rfl⟩
    · exact ⟨[], rfl⟩
  | emit e =>
    have hlog := log_check r .emit s
    dsimp only [host, reply]
    split
    · next s' hs =>
      rw [hs] at hlog
      cases e with
      | output o => exact ⟨[.output o], congrArg (_ :: ·) hlog⟩
      | _ => exact ⟨[], hlog⟩
    · next s' hs =>
      rw [hs] at hlog
      exact ⟨[], hlog⟩
  | input prompt =>
    have hlog := log_check r .input (s.note (.input prompt))
    refine ⟨[.input prompt], ?_⟩
    dsimp only [host, reply]
    split
    · next s' hs =>
      rw [hs] at hlog
      split <;> exact hlog
    · next s' hs =>
      rw [hs] at hlog
      exact hlog
  | sleep duration =>
    dsimp only [host, reply]
    rw [log_check]
    exact ⟨[.sleep duration], rfl⟩
  | readFile name => exact ⟨[.read name], rfl⟩

theorem log_run {ρ : Type} (r : Recording) (d : Dialogue ρ) (s : Recorder) :
    ∃ new, (d.run (host r) s).2.2.log = new ++ s.log := by
  induction d generalizing s with
  | done x m => exact ⟨[], rfl⟩
  | abort a m => exact ⟨[], rfl⟩
  | ask m q resume ih =>
    obtain ⟨new, hnew⟩ := log_reply r s q
    obtain ⟨later, hlater⟩ := ih ((host r).reply s q).1 ((host r).reply s q).2
    exact ⟨later ++ new, by rw [Dialogue.run, hlater, hnew, List.append_assoc]⟩

end Recorder

/-- The message is not about modules. -/
def Message.isOfRun (m : Message) : Bool := m.kind != .loading

theorem Message.isOfRun_of_isTerminal {m : Message} (h : m.kind.isTerminal = true) :
    m.isOfRun = true := by
  unfold Message.isOfRun
  cases hk : m.kind <;> first | rfl | (rw [hk] at h; cases h)

theorem LogEntry.isOfRun_message? (e : LogEntry) :
    e.message?.toList.filter Message.isOfRun = e.message?.toList := by
  cases he : e.message? with
  | none => rfl
  | some m => simp [Message.isOfRun, LogEntry.kind_message? he]

/-- What has become of an attempt that waits so. -/
def Wait.phase : Wait → Phase
  | .debug _ => .paused
  | .input _ | .sleep _ _ => .waiting

namespace Session

variable {s₀ s s' : Session} {source : SourceUnit} {request : RunRequest} {base : List Message}
  {h : History}

/-- The session has published the messages, newest first, those about modules aside. -/
structure Shows (s₀ : Session) (ms : List Message) (s : Session) : Prop where
  setup : s.setup = s₀.setup
  files : s.files = s₀.files
  running : s.interrupted = false
  published : ∃ all, s₀.Published s all ∧ all.filter Message.isOfRun = ms

/-- The session of an attempt: it has published the messages of the history after `base`, and its
debugger is where the latest answer has left it. -/
structure Watched (s₀ : Session) (source : SourceUnit) (request : RunRequest) (base : List Message)
    (h : History) (isPaused : Bool) (s : Session) : Prop extends
    Shows s₀ (h.messages ++ base) s where
  registry : s.registry = h.registry
  debugged : Debugged source request.breakpoints h.log h.answers h.messages isPaused
  debugger : ∃ state,
    s.debugger = { Debugger.start source request.breakpoints with state := state } ∧
    (isPaused = false → state = .after h.answers.head?)

variable {ms : List Message} {b : Bool}

theorem Shows.adds {ms' : List Message} (hs : s₀.Shows ms s) (ha : Adds ms' s s') :
    s₀.Shows (ms'.filter Message.isOfRun ++ ms) s' := by
  obtain ⟨all, hall, hms⟩ := hs.published
  refine ⟨ha.setup.trans hs.setup, ha.files.trans hs.files, ha.interrupted.trans hs.running,
    ms' ++ all, hall.trans ha.published, ?_⟩
  rw [List.filter_append, hms]

/-- The session goes on with the attempt. -/
theorem Watched.adds (hw : Watched s₀ source request base h false s) (ha : Adds ms s s')
    {log : List LogEntry} (hd : Debugged source request.breakpoints log h.answers
      (ms.filter Message.isOfRun ++ h.messages) b)
    (hs : ∃ state, s'.debugger = { Debugger.start source request.breakpoints with state := state } ∧
      (b = false → state = .after h.answers.head?)) :
    Watched s₀ source request base
      { h with log := log, messages := ms.filter Message.isOfRun ++ h.messages } b s' := by
  have hshows := hw.toShows.adds ha
  rw [← List.append_assoc] at hshows
  exact ⟨hshows, ha.registry.trans hw.registry, hd, hs⟩

theorem debugger_enter (next : ExecutionState) : (s.enter next).debugger = s.debugger := by
  unfold enter
  split <;> rfl

theorem debugger_deliver (e : Event) : (s.deliver e).2.debugger = s.debugger := by
  unfold deliver
  split <;> rfl

/-- An event is delivered and reported. -/
theorem Watched.deliver (hw : Watched s₀ source request base h false s) (e : LogEntry) {ev : Event}
    (hev : e.event? = some ev) {shown : Option Message} (ht : Message.ofEvent ev = .ok shown) :
    Watched s₀ source request base
      { h with log := e :: h.log, messages := e.message?.toList ++ h.messages } false
      (s.deliver ev).2 := by
  have hshown := LogEntry.message?_eq hev ht
  have hline : ∀ file n, e ≠ .line file n := by
    rintro file n rfl
    cases hev
  have hadds := (adds_deliver (s := s) ht).2
  rw [← hshown] at hadds
  have hfilter := LogEntry.isOfRun_message? e
  have hd : Debugged source request.breakpoints (e :: h.log) h.answers
      (e.message?.toList.filter Message.isOfRun ++ h.messages) false := by
    rw [hfilter]
    exact .other hw.debugged hline
  have hwatched := hw.adds hadds hd (by rw [debugger_deliver]; exact hw.debugger)
  rw [hfilter] at hwatched
  exact hwatched

theorem Watched.enter (hw : Watched s₀ source request base h b s) (next : ExecutionState) :
    Watched s₀ source request base h b (s.enter next) := by
  have hadds : Adds [] s (s.enter next) := adds_enter next
  exact ⟨hw.toShows.adds hadds, hadds.registry.trans hw.registry, hw.debugged,
    by rw [debugger_enter]; exact hw.debugger⟩

/-! ## Conversations -/

/-- With the lines so far, and with any after them, the recorder comes from the start of an attempt
to this place of it, and nothing but output is emitted from there on. -/
structure Reaches (files : List (String × String)) (d₀ : Dialogue (Except Exit Value))
    (given : List String) (d : Dialogue (Except Exit Value)) (lines : List String) (polls : Nat)
    (log : List LogEntry) : Prop where
  outputs : d.Emits Event.IsOutput
  run : ∀ more, d₀.run (Recorder.host (.full files)) ⟨given ++ more, 0, 0, []⟩ =
    d.run (Recorder.host (.full files)) ⟨lines ++ more, 0, polls, log⟩

/-- The recorder logs this much, and what it logs later fits the phase. -/
def Logs (files : List (String × String)) (d₀ : Dialogue (Except Exit Value))
    (given : List String) (phase : Phase) (log : List LogEntry) : Prop :=
  ∀ more, ∃ later, (d₀.run (Recorder.host (.full files)) ⟨given ++ more, 0, 0, []⟩).2.2.log =
    later ++ log ∧ phase.Fits log later

/-- Once the wait is over the recorder is where the run goes on. -/
def Rests (files : List (String × String)) (d₀ : Dialogue (Except Exit Value))
    (given lines : List String) (polls : Nat) (log : List LogEntry) : Wait → Prop
  | .input resume => lines = [] ∧ ∀ line,
    Reaches files d₀ (given ++ [line]) (resume (.ok line)) [] polls log
  | .sleep _ resume | .debug resume => Reaches files d₀ given (resume (.ok ())) lines polls log

/-- Where a conversation halts, the history goes on from `h` as the recorder does. -/
def Halts (s₀ : Session) (source : SourceUnit) (request : RunRequest) (base : List Message)
    (h : History) (files : List (String × String)) (d₀ : Dialogue (Except Exit Value))
    (given : List String) : Halt × Stage → Prop
  | (.waits w, st) => ∃ polls log ms,
    Watched s₀ source request base { h with log := log, messages := ms } (w.phase == .paused)
      st.session ∧
    Logs files d₀ given w.phase log ∧ Rests files d₀ given st.stdin polls log w
  | (.ends _, st) | (.faults .exhausted, st) => ∃ log ms,
    Watched s₀ source request base { h with log := log, messages := ms } false st.session ∧
    Logs files d₀ given .ended log
  | (.faults (.unknownEvent u), st) => ∃ log ms all,
    Debugged source request.breakpoints log h.answers ms false ∧
    Logs files d₀ given (.broken u) log ∧ s₀.Published st.session all ∧
    all.filter Message.isOfRun = .unknownEvent u :: (ms ++ base)

/-- In the conversation the history goes on from `h`, beside the recorder. -/
def Goes (s₀ : Session) (source : SourceUnit) (request : RunRequest) (base : List Message)
    (h : History) (files : List (String × String)) (d₀ : Dialogue (Except Exit Value))
    (given : List String) (d : Dialogue (Except Exit Value)) (st : Stage) : Prop :=
  ∃ polls log ms,
    Watched s₀ source request base { h with log := log, messages := ms } false st.session ∧
    Reaches files d₀ given d st.stdin polls log

variable {files : List (String × String)} {d₀ d : Dialogue (Except Exit Value)}
  {given lines : List String} {polls : Nat} {log : List LogEntry}

theorem Reaches.logs (hr : Reaches files d₀ given d lines polls log) {phase : Phase}
    (hfits : ∀ later, phase.Fits log later) : Logs files d₀ given phase log := by
  intro more
  obtain ⟨later, hlater⟩ := Recorder.log_run (.full files) d ⟨lines ++ more, 0, polls, log⟩
  rw [hr.run more]
  exact ⟨later, hlater, hfits later⟩

/-- Without a line the recorder has logged the request for it too. -/
theorem Reaches.logs_input {mc : Machine} {prompt : String}
    {resume : Except Signal String → Dialogue (Except Exit Value)}
    (hr : Reaches files d₀ given (.ask mc (.input prompt) resume) [] polls log) :
    Logs files d₀ given .waiting (.input prompt :: log) := by
  intro more
  rw [hr.run more]
  cases more with
  | nil =>
    obtain ⟨later, hlater⟩ := Recorder.log_run (.full files) (resume (.error .interrupt))
      ⟨[], 0, polls, .input prompt :: log⟩
    exact ⟨later, hlater, .inl ⟨prompt, rfl⟩⟩
  | cons line rest =>
    obtain ⟨later, hlater⟩ := Recorder.log_run (.full files) (resume (.ok line))
      ⟨rest, 0, polls, .input prompt :: log⟩
    exact ⟨later, hlater, .inl ⟨prompt, rfl⟩⟩

/-- The recorder logs an event without a message. -/
theorem Reaches.logs_broken {mc : Machine} {o : Output} {u : UnknownEvent}
    {resume : Except Signal Unit → Dialogue (Except Exit Value)}
    (hr : Reaches files d₀ given (.ask mc (.emit (.output o)) resume) lines polls log)
    (ho : Message.ofOutput o = .error u) : Logs files d₀ given (.broken u) log := by
  intro more
  rw [hr.run more]
  obtain ⟨later, hlater⟩ := Recorder.log_run (.full files) (resume (.ok ()))
    ⟨lines ++ more, 0, polls, .output o :: log⟩
  refine ⟨later ++ [.output o], ?_, o, List.getLast?_concat .., ho⟩
  rw [List.append_assoc]
  exact hlater

/-- One question. -/
theorem attend_halts {st : Stage} {mc : Machine} {q : Query}
    {resume : Except Signal q.Answer → Dialogue (Except Exit Value)}
    (hw : Watched s₀ source request base { h with log := log, messages := ms } false st.session)
    (hr : Reaches files d₀ given (.ask mc q resume) st.stdin polls log) :
    Keeps (Goes s₀ source request base h files d₀ given)
      (Halts s₀ source request base h files d₀ given) resume (st.attend true files q) := by
  obtain ⟨⟨hq, hd⟩, hrun⟩ := id hr
  cases q with
  | poll => exact ⟨polls + 1, log, ms, hw, hd _, hrun⟩
  | line file n =>
    have hr' : Reaches files d₀ given (resume (.ok ())) st.stdin polls (.line file n :: log) :=
      ⟨hd _, hrun⟩
    obtain ⟨state, hstate, hlatest⟩ := hw.debugger
    have hdebugger : st.session.debugger =
        .after source request.breakpoints h.answers.head? := by
      rw [hstate, hlatest rfl]
      rfl
    have hpauses := Debugger.reach_after source request.breakpoints h.answers.head? file n
    rw [← hdebugger] at hpauses
    dsimp only [Stage.attend]
    cases hp : (st.session.debugger.reach file n).1 with
    | true =>
      rw [Debugger.reach_paused hp]
      have hpaused : ∃ state, ({ st.session.debugger with state := .paused n } : Debugger) =
          { Debugger.start source request.breakpoints with state := state } ∧
            (true = false → state = .after h.answers.head?) :=
        ⟨.paused n, by rw [hdebugger]; rfl, nofun⟩
      refine ⟨polls, _, _, hw.adds (adds_pause _ n) (.pause hw.debugged (hpauses.1 hp)) ?_,
        hr'.logs fun _ => trivial, hr'⟩
      rw [debugger_enter, debugger_deliver]
      exact hpaused
    | false =>
      rw [Debugger.reach_passed hp]
      have hpass : ¬ Pauses source request.breakpoints h.answers.head? file n := by
        rw [← hpauses, hp]
        exact Bool.false_ne_true
      exact ⟨polls, .line file n :: log, ms,
        ⟨hw.toShows, hw.registry, .pass hw.debugged hpass, hw.debugger⟩, hr'⟩
  | emit e =>
    obtain ⟨o, rfl⟩ := hq e rfl
    dsimp only [Stage.attend]
    cases ho : Message.ofOutput o with
    | error u =>
      rw [deliver_unknown (e := .output o) ho]
      obtain ⟨all, hall, hms⟩ := hw.published
      have htold : st.session.Published
          ({ st.session with interrupted := true }.publish (.unknownEvent u)) [.unknownEvent u] :=
        ⟨[.publish (.unknownEvent u)], rfl, rfl⟩
      exact ⟨log, ms, _, hw.debugged, hr.logs_broken ho, hall.trans htold,
        congrArg (_ :: ·) hms⟩
    | ok shown =>
      rw [(adds_deliver (s := st.session) (e := .output o) ho).1]
      exact ⟨polls, _, _, hw.deliver (.output o) rfl ho, hd _, hrun⟩
  | input prompt =>
    have hw' := hw.deliver (.input prompt) rfl rfl
    obtain ⟨session, stdin⟩ := st
    cases stdin with
    | cons line rest => exact ⟨polls, _, _, hw', hd _, hrun⟩
    | nil =>
      refine ⟨polls, _, _, hw'.enter .suspended, hr.logs_input, rfl,
        fun line => ⟨hd _, fun more => ?_⟩⟩
      rw [List.append_assoc]
      exact hrun (line :: more)
  | sleep duration =>
    have hw' := hw.deliver (.sleep duration) rfl rfl
    have hr' : Reaches files d₀ given (resume (.ok ())) st.stdin polls
      (.sleep duration :: log) := ⟨hd _, hrun⟩
    dsimp only [Stage.attend]
    split
    · exact ⟨polls, _, _, hw', hr'.logs fun _ => .inr ⟨duration, rfl⟩, hr'⟩
    · exact ⟨polls, _, _, hw', hr'⟩
  | readFile name =>
    exact ⟨polls, .read name :: log, ms,
      ⟨hw.toShows, hw.registry, .other hw.debugged nofun, hw.debugger⟩, hd _, hrun⟩

/-- A conversation. -/
theorem converse_halts {st : Stage} (hr : Reaches files d₀ given d st.stdin polls h.log)
    (hw : Watched s₀ source request base h false st.session) :
    Halts s₀ source request base h files d₀ given (converse true files d st) := by
  have ended {e : RunEnd} {st : Stage} {log : List LogEntry} {ms : List Message}
      (hw : Watched s₀ source request base { h with log := log, messages := ms } false st.session)
      (hlogs : Logs files d₀ given .ended log) :
      Halts s₀ source request base h files d₀ given (st.session.haltOf e, st) := by
    unfold haltOf
    split <;> exact ⟨log, ms, hw, hlogs⟩
  refine converse_induction (I := Goes s₀ source request base h files d₀ given) ?_ ?_ ?_
    ⟨polls, h.log, h.messages, hw, hr⟩
  · intro r mc st ⟨polls, log, ms, hw, hr⟩
    refine ended hw fun more => ⟨[], ?_, rfl⟩
    rw [hr.run more]
    rfl
  · intro a mc st ⟨polls, log, ms, hw, hr⟩
    refine ended hw fun more => ⟨[], ?_, rfl⟩
    rw [hr.run more]
    rfl
  · intro mc q resume st ⟨polls, log, ms, hw, hr⟩
    have hrunning : (st.session.interrupted && q.mayStop) = false := by rw [hw.running]; rfl
    unfold Stage.react
    rw [hrunning, if_neg Bool.false_ne_true]
    exact attend_halts hw hr

end Session
end Lispbox
