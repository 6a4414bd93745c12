import Lispbox.Proofs.Session.History

/-!
# Where a run pauses

A run that is debugged is a sequence of attempts, each with a history of its own (`Attempts`): the
debugger starts anew with each of them. What is known of a run at any time is `Session.Traced`; it
holds when the run is started, and each move of the user keeps it (`move_traced`).

* `pauses_exact`: every attempt of every run that is debugged keeps to the rule for pauses, and its
  messages are those of the run.
-/
namespace Lispbox

/-- The attempts of a run, the last one first. A further one is executed with a module more than the
one before it, and that one is over. -/
inductive Attempts (s : Session) (source : SourceUnit) (request : RunRequest) (program : Program) :
    List History → Prop where
  | first {h : History} (hr : h.registry = (s.prefetch program).registry) :
    Attempts s source request program [h]
  | again {h h' : History} {earlier : List History} {name : String} {m : Module}
    (hm : s.setup.resolver.resolve name = .ok m)
    (hr : h.registry =
      ({ s with registry := h'.registry.install m }.prefetch program).registry)
    (hover : h'.IsExact s source request program .ended)
    (hs : Attempts s source request program (h' :: earlier)) :
    Attempts s source request program (h :: h' :: earlier)

/-- More has happened in the last attempt. -/
theorem Attempts.grow {s : Session} {source : SourceUnit} {request : RunRequest}
    {program : Program} {h h' : History} {earlier : List History}
    (ha : Attempts s source request program (h :: earlier))
    (hr : h'.registry = h.registry) : Attempts s source request program (h' :: earlier) := by
  cases ha with
  | first h => exact .first (hr.trans h)
  | again hm h hover hs => exact .again hm (hr.trans h) hover hs

namespace Progress

/-- The answer that a move gives to a pause of the debugger. -/
def answers (p : Progress) (v : Move) : List DebugCommand :=
  match p.result, p.session.flight, v with
  | none, some ⟨_, _, _, _, _, .debug _⟩, .command (.debug c) => [c]
  | _, _, _ => []

/-- The answers to pauses, in order. -/
def answered (p : Progress) : List Move → List DebugCommand
  | [] => []
  | v :: vs => p.answers v ++ (p.move v).answered vs

end Progress

namespace Session

variable {s₀ s s' : Session} {source : SourceUnit} {request : RunRequest} {program : Program}
  {base ms : List Message} {h : History} {files : List (String × String)}
  {d : Dialogue (Except Exit Value)} {lines : List String} {polls : Nat}

/-! ## Attempts -/

theorem Shows.of_published (hs : s₀.Shows ms s) (hsetup : s'.setup = s.setup)
    (hfiles : s'.files = s.files) (hrunning : s'.interrupted = s.interrupted) {ms' : List Message}
    (hp : s.Published s' ms') (hms : ms'.filter Message.isOfRun = []) : s₀.Shows ms s' := by
  obtain ⟨all, hall, hall'⟩ := hs.published
  refine ⟨hsetup.trans hs.setup, hfiles.trans hs.files, hrunning.trans hs.running, ms' ++ all,
    hall.trans hp, ?_⟩
  rw [List.filter_append, hms, hall']
  rfl

/-- Messages about modules are not counted. -/
theorem Shows.installFound (hs : s₀.Shows ms s) (modules : List Module) :
    s₀.Shows ms (s.installFound modules) :=
  hs.of_published rfl rfl rfl
    ⟨[.publish (.loading (modules.map Module.name) .loaded)], rfl, rfl⟩ rfl

theorem Shows.prefetch (hs : s₀.Shows ms s) (p : Program) : s₀.Shows ms (s.prefetch p) := by
  have hasked : s₀.Shows ms (s.note (.prefetch (s.absent p))) :=
    hs.adds (adds_note (.prefetch (s.absent p)))
  rw [prefetch_eq]
  split
  · exact hs
  · split
    · exact hasked
    · exact hasked.installFound _

theorem debugger_prefetch (p : Program) : (s.prefetch p).debugger = s.debugger := by
  rw [prefetch_eq]
  split
  · rfl
  · split <;> rfl

theorem Shows.asking (hs : s₀.Shows ms s) (name : String) : s₀.Shows ms (s.asking name) :=
  hs.of_published rfl rfl rfl ⟨[.resolve name, .publish (.loading [name] .loading)], rfl, rfl⟩ rfl

/-- The dialogue of an attempt. -/
def dialogueOf (s₀ : Session) (program : Program) (registry : Registry) :
    Dialogue (Except Exit Value) :=
  program.dialogue ⟨registry, s₀.setup.config.recursionLimit⟩ s₀.setup.fuel

theorem Shows.startDebugger (hs : s₀.Shows ms s) (source : SourceUnit) (request : RunRequest) :
    s₀.Shows ms (s.startDebugger source request) := by
  unfold Session.startDebugger
  split <;> exact ⟨hs.setup, hs.files, hs.running, hs.published⟩

theorem registry_startDebugger (source : SourceUnit) (request : RunRequest) :
    (s.startDebugger source request).registry = s.registry := by
  unfold startDebugger
  split <;> rfl

theorem files_startDebugger (source : SourceUnit) (request : RunRequest) :
    (s.startDebugger source request).files = s.files := by
  unfold startDebugger
  split <;> rfl

theorem debugger_startDebugger (source : SourceUnit) (hmode : request.mode = .debug) :
    (s.startDebugger source request).debugger = .start source request.breakpoints := by
  unfold startDebugger
  rw [hmode]

theorem attempt_halts (hs : s₀.Shows base s)
    (hd : s.debugger = Debugger.start source request.breakpoints) (hmode : request.mode = .debug)
    (hc : compile source.text source.file s₀.setup.config.recursionLimit = .ok program) :
    Halts s₀ source request base (.new (s.prefetch program).registry) s₀.files
      (s₀.dialogueOf program (s.prefetch program).registry) request.stdin
      (s.attempt source request) := by
  have hrunning : s₀.Shows base ((s.prefetch program).enter .running) :=
    (hs.prefetch program).adds (adds_enter .running)
  have hdebugger : ((s.prefetch program).enter .running).debugger =
      Debugger.start source request.breakpoints := by
    rw [debugger_enter, debugger_prefetch, hd]
  have hregistry := registry_enter (s := s.prefetch program) .running
  rw [← hs.setup] at hc
  rw [attempt_of_ok hc, hrunning.files, hrunning.setup, hs.setup, hregistry, hmode]
  refine converse_halts (h := .new (s.prefetch program).registry)
    ⟨dialogue_outputs _ _ program, fun more => rfl⟩ ?_
  exact ⟨hrunning, hregistry, .start, .autoContinue, hdebugger, fun _ => rfl⟩

/-- What is published before the messages of the next attempt, newest first. -/
def shown (hs : List History) : List Message := hs.flatMap History.messages ++ [.start .debug]

theorem shown_cons (h : History) (hs : List History) : shown (h :: hs) = h.messages ++ shown hs :=
  List.append_assoc ..

/-- The run is in its last attempt, and lines and answers are those of all its attempts. -/
structure Attempted (s₀ : Session) (source : SourceUnit) (request : RunRequest) (program : Program)
    (lines : List String) (answers : List DebugCommand) (h : History) (earlier : List History) :
    Prop where
  attempts : Attempts s₀ source request program (h :: earlier)
  entered : earlier.reverse.flatMap History.entered ++ h.entered = lines
  answered : (h.answers ++ earlier.flatMap History.answers).reverse = answers

/-- The last attempt of the run halts here. -/
def Stops (s₀ : Session) (source : SourceUnit) (request : RunRequest) (program : Program)
    (lines : List String) (answers : List DebugCommand) (x : Halt × Stage) : Prop :=
  ∃ h earlier, Attempted s₀ source request program lines answers h earlier ∧
    Halts s₀ source request (shown earlier) h s₀.files (s₀.dialogueOf program h.registry)
      (request.stdin ++ h.entered) x

/-- What is known of a run. -/
inductive Traced (s₀ : Session) (source : SourceUnit) (request : RunRequest) (program : Program)
    (lines : List String) (answers : List DebugCommand) (p : Progress) : Prop where
  | waits (h : History) (earlier : List History) (retries : Nat) (stdin : List String) (w : Wait)
    (polls : Nat) (hr : p.result = none)
    (hf : p.session.flight = some ⟨source, request, retries, s₀.files, stdin, w⟩)
    (ha : Attempted s₀ source request program lines answers h earlier)
    (hw : Watched s₀ source request (shown earlier) h (w.phase == .paused) p.session)
    (hlogs : Logs s₀.files (s₀.dialogueOf program h.registry) (request.stdin ++ h.entered) w.phase
      h.log)
    (hrests : Rests s₀.files (s₀.dialogueOf program h.registry) (request.stdin ++ h.entered) stdin
      polls h.log w)
  | ended (h : History) (earlier : List History) (r : Except RunFault Outcome) (all : List Message)
    (last : Option Message) (hr : p.result = some r)
    (ha : Attempted s₀ source request program lines answers h earlier)
    (hexact : h.IsExact s₀ source request program p.phase)
    (hp : s₀.Published p.session all)
    (hall : all.filter Message.isOfRun = last.toList ++ (h.messages ++ shown earlier))
    (hlast : ∀ m, last = some m → m.kind.isTerminal = true)

variable {earlier : List History} {answers : List DebugCommand}

theorem Attempted.grow (ha : Attempted s₀ source request program lines answers h earlier)
    (log : List LogEntry) (ms : List Message) : Attempted s₀ source request program lines answers
      { h with log := log, messages := ms } earlier :=
  ⟨ha.attempts.grow rfl, ha.entered, ha.answered⟩

/-- A line is entered in the last attempt. -/
theorem Attempted.enter (ha : Attempted s₀ source request program lines answers h earlier)
    (line : String) : Attempted s₀ source request program (lines ++ [line]) answers
      { h with entered := h.entered ++ [line] } earlier := by
  refine ⟨ha.attempts.grow rfl, ?_, ha.answered⟩
  rw [← ha.entered, List.append_assoc]

/-- A pause is answered in the last attempt. -/
theorem Attempted.answer (ha : Attempted s₀ source request program lines answers h earlier)
    (c : DebugCommand) : Attempted s₀ source request program lines (answers ++ [c])
      { h with answers := c :: h.answers } earlier := by
  refine ⟨ha.attempts.grow rfl, ha.entered, ?_⟩
  rw [← ha.answered, List.cons_append, List.reverse_cons]

theorem Watched.isExact {phase : Phase}
    (hw : Watched s₀ source request base h (phase == .paused) s)
    (hlogs : Logs s₀.files (s₀.dialogueOf program h.registry) (request.stdin ++ h.entered) phase
      h.log) : h.IsExact s₀ source request program phase :=
  ⟨hw.debugged, hlogs⟩

/-- A run ends with one more message. -/
theorem finish_published (source : SourceUnit) (e : AttemptEnd) :
    ∃ m o, (s.finish source e).result = some (.ok o) ∧ m.kind.isTerminal = true ∧
      s.Published (s.finish source e).session [m] := by
  have closes {m : Message} {next : ExecutionState} {o : Outcome} (hm : m.kind.isTerminal = true) :
      ∃ m' o', (s.close m next o).result = some (.ok o') ∧ m'.kind.isTerminal = true ∧
        s.Published (s.close m next o).session [m'] :=
    ⟨m, o, rfl, hm, ((adds_publish m).trans (adds_enter next)).published⟩
  cases e <;> exact closes rfl

/-- A run whose last attempt is over ends. -/
theorem finish_traced (ha : Attempted s₀ source request program lines answers h earlier)
    (hexact : h.IsExact s₀ source request program .ended)
    (hs : s₀.Shows (h.messages ++ shown earlier) s) (e : AttemptEnd) :
    Traced s₀ source request program lines answers (s.finish source e) := by
  obtain ⟨all, hall, hms⟩ := hs.published
  obtain ⟨m, o, hr, hm, hp⟩ := finish_published (s := s) source e
  have hphase : (s.finish source e).phase = .ended := by
    unfold Progress.phase
    rw [hr]
  refine .ended h earlier (.ok o) _ (some m) hr ha (hphase ▸ hexact) (hall.trans hp) ?_ ?_
  · rw [List.filter_append, hms, List.filter_cons_of_pos (Message.isOfRun_of_isTerminal hm)]
    rfl
  · rintro m' ⟨⟩
    exact hm

theorem waits_traced {w : Wait} {st : Stage}
    (hx : Stops s₀ source request program lines answers (.waits w, st)) (retries : Nat) :
    Traced s₀ source request program lines answers
      ⟨{ st.session with flight := some ⟨source, request, retries, s₀.files, st.stdin, w⟩ },
        none⟩ := by
  obtain ⟨h, earlier, ha, polls, log, ms, hw, hlogs, hrests⟩ := hx
  exact .waits _ earlier retries st.stdin w polls rfl rfl (ha.grow log ms)
    ⟨⟨hw.setup, hw.files, hw.running, hw.published⟩, hw.registry, hw.debugged, hw.debugger⟩
    hlogs hrests

theorem fail_traced {f : RunFault} {st : Stage}
    (hx : Stops s₀ source request program lines answers (.faults f, st)) :
    Traced s₀ source request program lines answers (st.session.fail f) := by
  have hfailed : st.session.Published (st.session.fail f).session [] := (adds_enter _).published
  cases f with
  | exhausted =>
    obtain ⟨h, earlier, ha, log, ms, hw, hlogs⟩ := hx
    obtain ⟨all, hall, hms⟩ := hw.published
    exact .ended _ earlier _ _ none rfl (ha.grow log ms) (hw.isExact hlogs) (hall.trans hfailed)
      hms nofun
  | unknownEvent u =>
    obtain ⟨h, earlier, ha, log, ms, all, hd, hlogs, hall, hms⟩ := hx
    refine .ended _ earlier _ _ (some (.unknownEvent u)) rfl (ha.grow log ms) ⟨hd, hlogs⟩
      (hall.trans hfailed) hms ?_
    rintro m ⟨⟩
    rfl

/-- The script of the last attempt has ended, and the session has published its messages. -/
theorem Stops.ended {e : AttemptEnd} {st : Stage}
    (hx : Stops s₀ source request program lines answers (.ends e, st)) :
    ∃ h earlier, Attempted s₀ source request program lines answers h earlier ∧
      h.IsExact s₀ source request program .ended ∧
      s₀.Shows (h.messages ++ shown earlier) st.session ∧ st.session.registry = h.registry := by
  obtain ⟨h, earlier, ha, log, ms, hw, hlogs⟩ := hx
  exact ⟨_, earlier, ha.grow log ms, hw.isExact hlogs, hw.toShows, hw.registry⟩

/-- The run is started again with a new module. -/
theorem again_stops (hmode : request.mode = .debug)
    (hc : compile source.text source.file s₀.setup.config.recursionLimit = .ok program)
    (ha : Attempted s₀ source request program lines answers h earlier)
    (hexact : h.IsExact s₀ source request program .ended) {name : String} {m : Module}
    (hm : s₀.setup.resolver.resolve name = .ok m)
    (hs : s₀.Shows (h.messages ++ shown earlier) s) (hr : s.registry = h.registry.install m) :
    Stops s₀ source request program lines answers
      ((s.startDebugger source request).attempt source request) := by
  rw [← shown_cons] at hs
  have hstarted := hs.startDebugger source request
  have hregistry : ((s.startDebugger source request).prefetch program).registry =
      ({ s₀ with registry := h.registry.install m }.prefetch program).registry :=
    registry_prefetch (s := { s₀ with registry := h.registry.install m })
      ((registry_startDebugger source request).trans hr) hstarted.setup program
  have hhalts := attempt_halts hstarted (debugger_startDebugger source hmode) hmode hc
  rw [← List.append_nil request.stdin] at hhalts
  refine ⟨.new _, h :: earlier, ⟨.again hm hregistry hexact ha.attempts, ?_, ha.answered⟩, hhalts⟩
  rw [← ha.entered, List.reverse_cons, List.flatMap_append, List.flatMap_singleton]
  exact List.append_nil _

/-- Wherever an attempt halts, the run goes on, also into another attempt. -/
theorem proceed_traced (hmode : request.mode = .debug)
    (hc : compile source.text source.file s₀.setup.config.recursionLimit = .ok program)
    (retries : Nat) {halt : Halt} {st : Stage}
    (hx : Stops s₀ source request program lines answers (halt, st)) :
    Traced s₀ source request program lines answers
      (proceed source request s₀.files retries halt st) := by
  refine proceed_induction
    (A := fun _ files x => files = s₀.files ∧ Stops s₀ source request program lines answers x)
    (P := Traced s₀ source request program lines answers) ?_ (fun hx => fail_traced hx.2) ?_ ?_ ?_
    ⟨rfl, hx⟩
  · rintro retries _ w st ⟨rfl, hx⟩
    exact waits_traced hx retries
  · rintro retries _ e st ⟨rfl, hx⟩ -
    obtain ⟨h, earlier, ha, hexact, hs, -⟩ := hx.ended
    exact finish_traced ha hexact hs e
  · rintro retries _ x name err st ⟨rfl, hx⟩ - hm
    obtain ⟨h, earlier, ha, hexact, hs, -⟩ := hx.ended
    rw [installMissing_of_error hm]
    exact finish_traced ha hexact ((hs.asking name).adds (adds_publish (.loading [name] .failed))) _
  · rintro retries _ x name m st ⟨rfl, hx⟩ - hm
    obtain ⟨h, earlier, ha, hexact, hs, hr⟩ := hx.ended
    have hasked := hs.asking name
    have hinstalled : s₀.Shows (h.messages ++ shown earlier)
        { st.session.asking name with registry := st.session.registry.install m } :=
      ⟨hasked.setup, hasked.files, hasked.running, hasked.published⟩
    have hloaded := hinstalled.adds (adds_publish (.loading [name] .loaded))
    unfold restarting
    rw [installMissing_of_ok hm]
    exact ⟨(hloaded.startDebugger source request).files,
      again_stops hmode hc ha hexact (hs.setup ▸ hm) hloaded (congrArg (·.install m) hr)⟩

/-! ## Moves -/

/-- The user answers a pause. -/
theorem Watched.answer (hw : Watched s₀ source request base h true s) {c : DebugCommand}
    {d : Debugger} (hd : s.debugger.resume c = some d) :
    Watched s₀ source request base { h with answers := c :: h.answers } false
      { s with debugger := d } := by
  obtain ⟨state, hstate, -⟩ := hw.debugger
  have hafter : d = .after source request.breakpoints (some c) := by
    rw [hstate] at hd
    cases c <;> cases hd <;> rfl
  exact ⟨⟨hw.setup, hw.files, hw.running, hw.published⟩, hw.registry, .answer c hw.debugged,
    .after (some c), hafter, fun _ => rfl⟩

theorem resume_traced (hmode : request.mode = .debug)
    (hc : compile source.text source.file s₀.setup.config.recursionLimit = .ok program)
    (ha : Attempted s₀ source request program lines answers h earlier)
    (hw : Watched s₀ source request (shown earlier) h false s) {stdin : List String}
    (hr : Reaches s₀.files (s₀.dialogueOf program h.registry) (request.stdin ++ h.entered) d stdin
      polls h.log) (retries : Nat) (w : Wait) :
    Traced s₀ source request program lines answers
      (s.resume ⟨source, request, retries, s₀.files, stdin, w⟩ d) := by
  have hdebug : (request.mode == .debug) = true := by rw [hmode]; rfl
  unfold resume
  dsimp only
  rw [hdebug]
  have hreaches : Reaches s₀.files (s₀.dialogueOf program h.registry)
    (request.stdin ++ h.entered) d (Stage.mk s stdin).stdin polls h.log := hr
  exact proceed_traced hmode hc retries ⟨h, earlier, ha, converse_halts hreaches hw⟩

/-- A move adds what it enters or answers to the last attempt. -/
theorem move_traced (hmode : request.mode = .debug)
    (hc : compile source.text source.file s₀.setup.config.recursionLimit = .ok program)
    {p : Progress} (hp : Traced s₀ source request program lines answers p) {v : Move}
    (hv : v.isReply = true) :
    Traced s₀ source request program (lines ++ p.takes v) (answers ++ p.answers v) (p.move v) := by
  cases hp with
  | ended h earlier r all last hr ha hexact hp hall hlast =>
    have hanswers : p.answers v = [] := by
      unfold Progress.answers
      rw [hr]
    rw [Progress.move_over hr v, Progress.takes_over hr v, hanswers, List.append_nil,
      List.append_nil]
    exact .ended h earlier r all last hr ha hexact hp hall hlast
  | waits h earlier retries stdin w polls hr hf ha hw hlogs hrests =>
    have ignored : Traced s₀ source request program lines answers ⟨p.session, none⟩ :=
      .waits h earlier retries stdin w polls rfl hf ha hw hlogs hrests
    unfold Progress.move Progress.takes Progress.answers
    rw [hr, hf]
    cases v with
    | provideFiles files => cases hv
    | elapse =>
      simp only [List.append_nil, elapse, hf]
      cases w with
      | input resume => exact ignored
      | debug resume => exact ignored
      | sleep duration resume => exact resume_traced hmode hc ha hw hrests _ _
    | command c =>
      cases c with
      | interrupt => cases hv
      | input line =>
        simp only [command, hf]
        cases w with
        | debug resume =>
          simp only [List.append_nil]
          exact ignored
        | sleep duration resume =>
          simp only [List.append_nil]
          exact ignored
        | input resume =>
          obtain ⟨rfl, hreaches⟩ := hrests
          have hreaches := hreaches line
          rw [List.append_assoc] at hreaches
          have hw' := hw.enter .running
          simp only [List.append_nil]
          exact resume_traced hmode hc (ha.enter line)
            ⟨hw'.toShows, hw'.registry, hw'.debugged, hw'.debugger⟩ hreaches _ _
      | debug c =>
        simp only [command, hf]
        cases w with
        | input resume =>
          simp only [List.append_nil]
          exact ignored
        | sleep duration resume =>
          simp only [List.append_nil]
          exact ignored
        | debug resume =>
          have hw' := hw.enter .running
          simp only [List.append_nil]
          cases c with
          | quit => cases hv
          | continue_ =>
            exact resume_traced hmode hc (ha.answer .continue_) (hw'.answer rfl) hrests _ _
          | step => exact resume_traced hmode hc (ha.answer .step) (hw'.answer rfl) hrests _ _

theorem play_traced {p : Progress} (hp : Traced s₀ source request program lines answers p)
    (hmode : request.mode = .debug)
    (hc : compile source.text source.file s₀.setup.config.recursionLimit = .ok program)
    {vs : List Move} (hvs : ∀ v ∈ vs, v.isReply = true) :
    Traced s₀ source request program (lines ++ p.entered vs) (answers ++ p.answered vs)
      (p.play vs) := by
  induction vs generalizing p lines answers with
  | nil =>
    rw [Progress.entered, Progress.answered, List.append_nil, List.append_nil]
    exact hp
  | cons v vs ih =>
    rw [Progress.entered, Progress.answered, ← List.append_assoc, ← List.append_assoc]
    exact ih (move_traced hmode hc hp (hvs v List.mem_cons_self))
      fun v hv => hvs v (List.mem_cons_of_mem _ hv)

theorem shows_opening (s : Session) (mode : RunMode) : s.Shows [.start mode] (s.opening mode) :=
  ⟨(works.opening mode).setup, files_opening mode, interrupted_enter .compiling, _,
    published_opening s mode, rfl⟩

/-- Before the first attempt `start` is all that is published. -/
theorem start_traced (s₀ : Session) (hmode : request.mode = .debug)
    (hc : compile source.text source.file s₀.setup.config.recursionLimit = .ok program) :
    Traced s₀ source request program [] [] (s₀.start source request) := by
  have hs := (shows_opening s₀ request.mode).startDebugger source request
  have hregistry : (((s₀.opening request.mode).startDebugger source request).prefetch
      program).registry = (s₀.prefetch program).registry :=
    registry_prefetch ((registry_startDebugger source request).trans
      (registry_opening request.mode)) hs.setup program
  have hhalts := attempt_halts hs (debugger_startDebugger source hmode) hmode hc
  rw [hmode, ← List.append_nil request.stdin] at hhalts
  rw [start_eq, hs.files, hmode]
  rw [hmode] at hregistry
  exact proceed_traced hmode hc 1 ⟨_, [], ⟨.first hregistry, rfl, rfl⟩, hhalts⟩

/-- What is known of a run is what there is to know. -/
theorem Traced.exact {p : Progress} (hp : Traced s₀ source request program lines answers p) :
    ∃ (h : History) (earlier : List History) (last : Option Message),
      Attempts s₀ source request program (h :: earlier) ∧
      h.IsExact s₀ source request program p.phase ∧
      (s₀.published p.session).filter Message.isOfRun =
        .start .debug :: ((h :: earlier).flatMap History.messages).reverse ++ last.toList ∧
      (∀ m, last = some m → m.kind.isTerminal = true ∧ p.result ≠ none) ∧
      (h :: earlier).reverse.flatMap History.entered = lines ∧
      ((h :: earlier).flatMap History.answers).reverse = answers := by
  have published {h : History} {earlier : List History} {last : List Message} {all : List Message}
      (hall : s₀.Published p.session all)
      (hms : all.filter Message.isOfRun = last.reverse ++ (h.messages ++ shown earlier)) :
      (s₀.published p.session).filter Message.isOfRun =
        .start .debug :: ((h :: earlier).flatMap History.messages).reverse ++ last := by
    rw [hall.eq, List.filter_reverse, hms, ← shown_cons, shown, List.reverse_append,
      List.reverse_reverse, List.reverse_append]
    rfl
  have entered {h : History} {earlier : List History}
      (ha : Attempted s₀ source request program lines answers h earlier) :
      (h :: earlier).reverse.flatMap History.entered = lines := by
    rw [List.reverse_cons, List.flatMap_append, List.flatMap_singleton]
    exact ha.entered
  cases hp with
  | waits h earlier retries stdin w polls hr hf ha hw hlogs hrests =>
    obtain ⟨all, hall, hms⟩ := hw.published
    have hphase : p.phase = w.phase := by
      unfold Progress.phase Progress.isPaused
      rw [hr, hf]
      cases w <;> rfl
    exact ⟨h, earlier, none, ha.attempts, hphase ▸ hw.isExact hlogs, published hall hms, nofun,
      entered ha, ha.answered⟩
  | ended h earlier r all last hr ha hexact hp hall hlast =>
    refine ⟨h, earlier, last, ha.attempts, hexact, published hp ?_, ?_, entered ha, ha.answered⟩
    · rw [hall]
      cases last <;> rfl
    · intro m hm
      exact ⟨hlast m hm, by rw [hr]; nofun⟩

end Session

/-- The attempts depend on the modules, the files and the setup of a session only. -/
theorem Attempts.of_source {s : Session} {source u : SourceUnit} {request : RunRequest}
    {program : Program} {hs : List History}
    (h : Attempts { s with source := u } source request program hs) :
    Attempts s source request program hs := by
  have hregistry {t t' : Session} (hr : t'.registry = t.registry) (hs : t'.setup = t.setup) :=
    Session.registry_prefetch hr hs program
  induction h with
  | first hr => exact .first (hr.trans (hregistry rfl rfl))
  | again hm hr hover _ ih =>
    exact .again hm (hr.trans (hregistry rfl rfl)) ⟨hover.debugged, hover.reported⟩ ih

open Session in
/-- A run that is debugged whose source does not compile is never paused. Any other one, whose
pauses are answered with steps or by going on, is a sequence of attempts that are executed as a
recorder executes the program with the modules of the attempt; each keeps to the rule for pauses,
and between `start` and the last message the run publishes, messages about modules aside, the
messages of its attempts. -/
theorem pauses_exact (s : Session) (request : RunRequest) (p : Progress)
    (hp : s.run request = .ok p) (hmode : request.mode = .debug) (vs : List Move)
    (hvs : ∀ v ∈ vs, v.isReply = true) :
    let source := s.sourceFor request
    let limit := s.setup.config.recursionLimit
    (∀ e, compile source.text source.file limit = .error e →
      s.published (p.play vs).session = [.start .debug, .compileError e]) ∧
    ∀ program, compile source.text source.file limit = .ok program →
      ∃ (h : History) (earlier : List History) (last : Option Message),
        Attempts s source request program (h :: earlier) ∧
        h.IsExact s source request program (p.play vs).phase ∧
        (s.published (p.play vs).session).filter Message.isOfRun =
          .start .debug :: ((h :: earlier).flatMap History.messages).reverse ++ last.toList ∧
        (∀ m, last = some m → m.kind.isTerminal = true ∧ (p.play vs).result ≠ none) ∧
        (h :: earlier).reverse.flatMap History.entered = p.entered vs ∧
        ((h :: earlier).flatMap History.answers).reverse = p.answered vs := by
  intro source limit
  have hstart := run_eq hp
  constructor
  · intro e hc
    obtain ⟨hr, hpub, -⟩ := @compileFailed_shows { s with source := source } source request _ e hc
    rw [hmode] at hpub
    rw [hstart, Progress.play_over hr]
    exact hpub
  · intro program hc
    have htraced : Traced { s with source := source } source request program (p.entered vs)
        (p.answered vs) (p.play vs) := by
      rw [hstart]
      exact play_traced (start_traced { s with source := source } hmode hc) hmode hc hvs
    obtain ⟨h, earlier, last, ha, hexact, hpub, hlast, hentered, hanswered⟩ := htraced.exact
    exact ⟨h, earlier, last, ha.of_source, ⟨hexact.debugged, hexact.reported⟩, hpub, hlast,
      hentered, hanswered⟩

namespace Pausing

open RunClosing (session)

/-- There is a breakpoint on the only line. -/
def request : RunRequest := ⟨some "(input)", none, .debug, [1], []⟩

/-- The request of a source that does not compile. -/
def emptyCall : RunRequest := { request with source := some "()" }

/-- The run waits before its only line. -/
def paused : Progress :=
  { session with source := session.source.replace "(input)" "main.scm" }.start
    (session.source.replace "(input)" "main.scm") request

/-- The debugger steps, then the line is entered. -/
def replies : List Move := [.command (.debug .step), .command (.input "a")]

theorem pauses_exact_input :
    (∃ p e, session.run emptyCall = .ok p ∧
      session.published (p.play replies).session = [.start .debug, .compileError e]) ∧
    paused.isPaused = true ∧ ∃ program h earlier last,
      h.IsExact session (session.sourceFor request) request program .ended ∧
      (session.published (paused.play replies).session).filter Message.isOfRun =
        .start .debug :: ((h :: earlier).flatMap History.messages).reverse ++ Option.toList last ∧
      (h :: earlier).reverse.flatMap History.entered = ["a"] ∧
      ((h :: earlier).flatMap History.answers).reverse = [.step] := by
  have hreplies : ∀ v ∈ replies, v.isReply = true := by simp [replies, Move.isReply]
  constructor
  · obtain ⟨p, hp⟩ : ∃ p, session.run emptyCall = .ok p := ⟨_, rfl⟩
    obtain ⟨e, he⟩ : ∃ e, compile "()" "main.scm" 9 = .error e := ⟨_, rfl⟩
    exact ⟨p, e, hp, (pauses_exact session emptyCall p hp rfl replies hreplies).1 e he⟩
  · have hpaused : paused.isPaused = true := by decide +kernel
    have hphase : (paused.play replies).phase = .ended := by decide +kernel
    have hentered : paused.entered replies = ["a"] := by decide +kernel
    have hanswered : paused.answered replies = [.step] := by decide +kernel
    have hok : (compile "(input)" "main.scm" 9).isOk = true := by decide +kernel
    cases hc : compile "(input)" "main.scm" 9 with
    | error e =>
      rw [hc] at hok
      cases hok
    | ok program =>
      obtain ⟨h, earlier, last, -, hexact, hpub, -, hlines, hanswers⟩ :=
        (pauses_exact session request paused rfl rfl replies hreplies).2 program hc
      rw [hphase] at hexact
      rw [hentered] at hlines
      rw [hanswered] at hanswers
      exact ⟨hpaused, program, h, earlier, last, hexact, hpub, hlines, hanswers⟩

end Pausing
end Lispbox
