import Lispbox.Proofs.Run.Signals
import Lispbox.Proofs.Session.Debugging
import Lispbox.Proofs.Session.Transcript

/-!
# Interrupts and quits

A run waits at a question of its program, and the message that announces the question is the last
one it published (`Session.Waits`). There a signal in place of the answer ends the dialogue: nothing
more is asked, so neither a handler nor any other code is executed, and the run is closed with one
message (`Session.Concludes`). Whether the run might still be started again does not matter, as a
signal is not an exception that names a module.

What is kept by the moves of a run is `Session.Attentive`: if it waits, it does so at a question of
its program, not interrupted.

* `interrupt_ends_wait`: an interrupt at any wait, and a quit at any pause of the debugger.
-/
namespace Lispbox

/-- The dialogue comes to the later one by answers; no signal is given. -/
inductive Dialogue.Leads {ρ : Type} (d : Dialogue ρ) : Dialogue ρ → Prop where
  | refl : d.Leads d
  | reply {m : Machine} {q : Query} {resume : Except Signal q.Answer → Dialogue ρ}
    (h : d.Leads (.ask m q resume)) (a : q.Answer) : d.Leads (resume (.ok a))

theorem Dialogue.Leads.every {ρ : Type} {asks : Machine → Query → Prop} {aborts : Abort → Prop}
    {ends : Option Stopped → ρ → Machine → Prop} {d d' : Dialogue ρ} (h : d.Leads d')
    (hd : d.Every asks aborts ends none) : d'.Every asks aborts ends none := by
  induction h with
  | refl => exact hd
  | reply h a ih => exact ih.2.2.1 a

/-- The run waits for the answer to the question, which is announced with the message. -/
inductive Wait.IsFor : Wait → (q : Query) →
    (Except Signal q.Answer → Dialogue (Except Exit Value)) → Message → Prop where
  | input {prompt : String} {resume : Except Signal String → Dialogue (Except Exit Value)} :
    IsFor (.input resume) (.input prompt) resume ⟨.input, .text prompt, ContentType.plain⟩
  | sleep {duration : Nat} {resume : Except Signal Unit → Dialogue (Except Exit Value)} :
    IsFor (.sleep duration resume) (.sleep duration) resume
      ⟨.sleep, .number duration, ContentType.number⟩
  | debug {file : String} {n : Nat} {resume : Except Signal Unit → Dialogue (Except Exit Value)} :
    IsFor (.debug resume) (.line file n) resume (.pause n)

theorem Wait.IsFor.interrupt {w : Wait} {q : Query}
    {resume : Except Signal q.Answer → Dialogue (Except Exit Value)} {shown : Message}
    (h : w.IsFor q resume shown) : w.interrupt = resume (.error .interrupt) := by
  cases h <;> rfl

namespace Session

variable {s₀ s s' : Session} {source : SourceUnit} {request : RunRequest}

/-- The dialogue is that of the source with some modules. -/
def Executes (s₀ : Session) (source : SourceUnit) (d : Dialogue (Except Exit Value)) : Prop :=
  ∃ program registry,
    compile source.text source.file s₀.setup.config.recursionLimit = .ok program ∧
    d = program.dialogue ⟨registry, s₀.setup.config.recursionLimit⟩ s₀.setup.fuel

/-- A signal ends a program at whatever question it is given, and only frames are left. -/
theorem Executes.stop {d : Dialogue (Except Exit Value)} (hd : Executes s₀ source d) {m : Machine}
    {q : Query} {resume : Except Signal q.Answer → Dialogue (Except Exit Value)}
    (hl : d.Leads (.ask m q resume)) (sig : Signal) :
    ∃ m', resume (.error sig) = .done (.error (.stop sig)) m' ∧ m.Unwound m' := by
  obtain ⟨program, registry, -, rfl⟩ := hd
  have hevery := hl.every (runProgram_free ⟨registry, _⟩ s₀.setup.fuel program)
  have hstop := hevery.2.2.2 sig
  cases hr : resume (.error sig) with
  | abort a m' =>
    rw [hr] at hstop
    cases hstop.1
  | ask m' q' resume' =>
    rw [hr] at hstop
    cases hstop.1
  | done r m' =>
    rw [hr] at hstop
    match r, hstop with
    | .error (.stop _), ⟨_, rfl, hm⟩ => exact ⟨m', rfl, hm⟩

/-- The session waits for the answer to a question of the program, and has announced it last. -/
def Waits (s₀ : Session) (source : SourceUnit) (w : Wait) (s : Session) : Prop :=
  ∃ d m q resume shown earlier, Executes s₀ source d ∧ d.Leads (.ask m q resume) ∧
    w.IsFor q resume shown ∧ s₀.published s = earlier ++ [shown]

/-! ## Conversations -/

/-- A question is answered, or it is announced and waited for. -/
def Heard (s : Session) (q : Query) : Reaction q × Stage → Prop
  | (.reply a, st) => (∃ b, a = .ok b) ∧ st.session.interrupted = false
  | (.wait w, st) => (∃ shown, s.published st.session = [shown] ∧
      ∀ resume, (w resume).IsFor q resume shown) ∧ st.session.interrupted = false
  | (.fault _, _) => True

theorem heard_react (debugging : Bool) (files : List (String × String)) {st : Stage}
    (hi : st.session.interrupted = false) (q : Query) :
    Heard st.session q (st.react debugging files q) := by
  have hrunning : (st.session.interrupted && q.mayStop) = false := by rw [hi]; rfl
  unfold Stage.react
  rw [hrunning, if_neg Bool.false_ne_true]
  cases q with
  | poll => exact ⟨⟨_, rfl⟩, hi⟩
  | readFile name => exact ⟨⟨_, rfl⟩, hi⟩
  | line file n =>
    unfold Stage.attend
    cases debugging with
    | false => exact ⟨⟨_, rfl⟩, hi⟩
    | true =>
      dsimp only
      cases (st.session.debugger.reach file n).1 with
      | false => exact ⟨⟨_, rfl⟩, hi⟩
      | true =>
        have hadds := adds_pause (s := st.session) (st.session.debugger.reach file n).2 n
        exact ⟨⟨_, hadds.published.eq, fun _ => .debug⟩, hadds.interrupted.trans hi⟩
  | emit e =>
    dsimp only [Stage.attend]
    cases he : Message.ofEvent e with
    | error u =>
      rw [deliver_unknown he]
      trivial
    | ok shown =>
      obtain ⟨hok, hadds⟩ := adds_deliver (s := st.session) he
      rw [hok]
      exact ⟨⟨_, rfl⟩, hadds.interrupted.trans hi⟩
  | input prompt =>
    have hadds := (adds_deliver (s := st.session) (e := .inputRequest prompt) rfl).2
    dsimp only [Stage.attend]
    cases st.stdin with
    | cons line rest => exact ⟨⟨_, rfl⟩, hadds.interrupted.trans hi⟩
    | nil =>
      have hsuspended := hadds.trans (adds_enter .suspended)
      exact ⟨⟨_, hsuspended.published.eq, fun _ => .input⟩, hsuspended.interrupted.trans hi⟩
  | sleep duration =>
    have hadds := (adds_deliver (s := st.session) (e := .sleep duration) rfl).2
    dsimp only [Stage.attend]
    split
    · exact ⟨⟨_, hadds.published.eq, fun _ => .sleep⟩, hadds.interrupted.trans hi⟩
    · exact ⟨⟨_, rfl⟩, hadds.interrupted.trans hi⟩

/-- A conversation of the program in a session that is not interrupted. -/
def Talks (s₀ : Session) (d₀ d : Dialogue (Except Exit Value)) (st : Stage) : Prop :=
  d₀.Leads d ∧ s₀.Works st.session ∧ st.session.interrupted = false

/-- An attempt halts without an interrupt; if it waits, it has announced the question. -/
def Announces (s₀ : Session) (source : SourceUnit) : Halt × Stage → Prop
  | (.waits w, st) =>
    Waits s₀ source w st.session ∧ s₀.Works st.session ∧ st.session.interrupted = false
  | (.ends _, st) => s₀.Works st.session ∧ st.session.interrupted = false
  | (.faults _, _) => True

theorem converse_announces (debugging : Bool) (files : List (String × String))
    {d₀ d : Dialogue (Except Exit Value)} {st : Stage} (hd₀ : Executes s₀ source d₀)
    (h : Talks s₀ d₀ d st) : Announces s₀ source (converse debugging files d st) := by
  have last {st : Stage} (e : RunEnd) (hw : s₀.Works st.session)
      (hi : st.session.interrupted = false) : Announces s₀ source (st.session.haltOf e, st) := by
    unfold haltOf
    split
    · trivial
    · exact ⟨hw, hi⟩
  refine converse_induction (I := Talks s₀ d₀) (fun h => last _ h.2.1 h.2.2)
    (fun h => last _ h.2.1 h.2.2) ?_ h
  intro m q resume st ⟨hd, hw, hi⟩
  have hheard := heard_react debugging files hi q
  have hwork := works.react debugging files st q
  unfold Keeps
  split
  · next a st' hr =>
    rw [hr] at hheard hwork
    obtain ⟨⟨b, rfl⟩, hi'⟩ := hheard
    exact ⟨hd.reply b, works.trans hw hwork, hi'⟩
  · next w st' hr =>
    rw [hr] at hheard hwork
    obtain ⟨⟨shown, hshown, hfor⟩, hi'⟩ := hheard
    refine ⟨⟨d₀, m, q, resume, shown, s₀.published st.session, hd₀, hd, hfor resume, ?_⟩,
      works.trans hw hwork, hi'⟩
    rw [hw.grows.published hwork.grows, hshown]
  · trivial

theorem attempt_announces (hw : s₀.Works s) (hi : s.interrupted = false) (source : SourceUnit)
    (request : RunRequest) : Announces s₀ source (s.attempt source request) := by
  cases hc : compile source.text source.file s.setup.config.recursionLimit with
  | error e =>
    rw [attempt_of_error hc]
    exact ⟨hw, hi⟩
  | ok p =>
    have hrunning : s.Works ((s.prefetch p).enter .running) := works.running p
    have hexecutes : Executes s₀ source
        (p.dialogue ⟨((s.prefetch p).enter .running).registry, s.setup.config.recursionLimit⟩
          ((s.prefetch p).enter .running).setup.fuel) :=
      ⟨p, _, by rw [← hw.setup]; exact hc, by rw [hrunning.setup, hw.setup]⟩
    rw [attempt_of_ok hc]
    refine converse_announces _ _ hexecutes ⟨.refl, works.trans hw hrunning, ?_⟩
    exact (interrupted_enter _).trans ((interrupted_prefetch p).trans hi)

/-! ## Runs -/

theorem interrupted_startDebugger (source : SourceUnit) (request : RunRequest) :
    (s.startDebugger source request).interrupted = s.interrupted := by
  unfold startDebugger
  split <;> rfl

theorem interrupted_installMissing (name : String) :
    (s.installMissing name).2.interrupted = s.interrupted := by
  unfold installMissing
  dsimp only
  split <;> rfl

theorem interrupted_restarting (source : SourceUnit) (request : RunRequest) (name : String) :
    (s.restarting source request name).interrupted = s.interrupted :=
  (interrupted_startDebugger source request).trans (interrupted_installMissing name)

/-- A run that waits does so at a question of its program, and is not interrupted. -/
def Attentive (s₀ : Session) (source : SourceUnit) (p : Progress) : Prop :=
  p.result = none → s₀.Works p.session ∧ p.session.interrupted = false ∧
    ∃ f, p.session.flight = some f ∧ f.source = source ∧ Waits s₀ source f.wait p.session

theorem attentive_finish (s : Session) (e : AttemptEnd) :
    Attentive s₀ source (s.finish source e) := by
  intro hr
  cases e <;> cases hr

theorem proceed_attentive (request : RunRequest) (files : List (String × String)) (retries : Nat)
    {halt : Halt} {st : Stage} (h : Announces s₀ source (halt, st)) :
    Attentive s₀ source (proceed source request files retries halt st) := by
  refine proceed_induction (A := fun _ _ x => Announces s₀ source x)
    (P := Attentive s₀ source) ?_ ?_ ?_ ?_ ?_ h
  · intro retries files w st ⟨hwaits, hw, hi⟩ _
    exact ⟨works.trans hw (works.of_eq rfl rfl rfl rfl), hi, _, rfl, rfl, hwaits⟩
  · intro retries files f st _ hr
    cases hr
  · exact fun _ _ => attentive_finish _ _
  · exact fun _ _ _ => attentive_finish _ _
  · intro retries files x name m st ⟨hw, hi⟩ _ _
    exact attempt_announces (works.trans hw (works.restarting source request name))
      ((interrupted_restarting source request name).trans hi) source request

theorem start_attentive (s : Session) (source : SourceUnit) (request : RunRequest) :
    Attentive s source (s.start source request) := by
  have hw : s.Works ((s.opening request.mode).startDebugger source request) :=
    works.trans (works.opening request.mode) (works.startDebugger source request)
  rw [start_eq]
  refine proceed_attentive request _ 1 (attempt_announces hw ?_ source request)
  rw [interrupted_startDebugger]
  exact interrupted_enter .compiling

/-! ## Moves -/

/-- How an attempt ends that a signal has stopped. -/
def endOf : Signal → AttemptEnd
  | .interrupt => .interrupted
  | .quit => .quit

/-- A run whose dialogue a signal has ended is closed; it is not started again. -/
theorem resume_stopped (f : Flight) {sig : Signal} (m : Machine)
    (h : s.interrupted = true → sig = .interrupt) :
    s.resume f (.done (.error (.stop sig)) m) = s.finish f.source (endOf sig) := by
  have halts : s.haltOf (.stopped sig) = .ends (endOf sig) := by
    cases sig with
    | interrupt => simp [haltOf, AttemptEnd.ofRun?, endOf]
    | quit =>
      have hi : s.interrupted = false := Bool.eq_false_iff.mpr fun hi => by cases h hi
      simp [haltOf, AttemptEnd.ofRun?, endOf, hi]
  unfold resume converse
  simp only [RunEnd.ofResult, halts]
  cases f.retries with
  | zero => rfl
  | succ retries => cases sig <;> rfl

theorem resume_attentive {f : Flight} {d₀ d : Dialogue (Except Exit Value)} (hw : s₀.Works s)
    (hi : s.interrupted = false) (hd₀ : Executes s₀ f.source d₀) (hd : d₀.Leads d) :
    Attentive s₀ f.source (s.resume f d) :=
  proceed_attentive _ _ _ (converse_announces _ _ hd₀ ⟨hd, hw, hi⟩)

/-- A move keeps a run, as long as it waits, at questions of its program. -/
theorem move_attentive {p : Progress} (v : Move) (h : Attentive s₀ source p) :
    Attentive s₀ source (p.move v) := by
  obtain ⟨s, result⟩ := p
  cases result with
  | some r => exact h
  | none =>
    obtain ⟨hwork, hi, f, hf, rfl, hwaits⟩ := h rfl
    obtain ⟨d, m, q, resume, shown, earlier, hd, hleads, hw, hshown⟩ := id hwaits
    have hrunning : s₀.Works (s.enter .running) := works.trans hwork (works.enter .running)
    have hi' : (s.enter .running).interrupted = false := (interrupted_enter _).trans hi
    have stopped {t : Session} {sig : Signal} (ht : t.interrupted = true → sig = .interrupt) :
        (t.resume f (resume (.error sig))).result ≠ none := by
      obtain ⟨m', hstop, -⟩ := hd.stop hleads sig
      rw [hstop, resume_stopped f m' ht]
      cases sig <;> nofun
    have hmoved := move_cases hf v
    generalize Progress.move ⟨s, none⟩ v = p at hmoved
    cases hmoved with
    | ignored => exact h
    | files files =>
      exact fun _ => ⟨works.trans hwork (works.of_eq rfl rfl rfl rfl), hi, f, hf, rfl, hwaits⟩
    | interrupt =>
      rw [hw.interrupt]
      exact fun hr => absurd hr (stopped fun _ => rfl)
    | line hfw line =>
      rw [hfw] at hw
      cases hw
      exact resume_attentive hrunning hi' hd (hleads.reply line)
    | elapse hfw =>
      rw [hfw] at hw
      cases hw
      exact resume_attentive hwork hi hd (hleads.reply ())
    | goOn hfw hc =>
      rw [hfw] at hw
      cases hw
      exact resume_attentive (works.trans hrunning (works.of_eq rfl rfl rfl rfl)) hi' hd
        (hleads.reply ())
    | quit hfw =>
      rw [hfw] at hw
      cases hw
      refine fun hr => absurd hr (stopped fun ht => ?_)
      cases hi'.symm.trans ht

theorem play_attentive {p : Progress} (h : Attentive s₀ source p) (vs : List Move) :
    Attentive s₀ source (p.play vs) :=
  Progress.play_induction (fun v => move_attentive v) h vs

/-! ## The end of the run -/

/-- The run was closed with one more message, and without another attempt: no module was asked for,
and none was installed. -/
structure Concludes (s₀ s s' : Session) (last : Message) : Prop where
  published : s₀.published s' = s₀.published s ++ [last]
  notices : ∀ n ∈ s.since s', n = .publish last ∨ ∃ next, n = .enter next
  registry : s'.registry = s.registry

/-- A session that did no more than to change its state is closed. -/
theorem close_concludes {t : Session} (hg : s₀.Grows s) (enters : List Notice)
    (ht : t.notices = enters ++ s.notices) (henters : ∀ n ∈ enters, ∃ next, n = .enter next)
    (hr : t.registry = s.registry) (last : Message) (next : ExecutionState) (o : Outcome) :
    Concludes s₀ s (t.close last next o).session last := by
  obtain ⟨new, hnew, hnexts⟩ := notices_enter (t.publish last) next
  have hclosed : (t.close last next o).session.notices =
      (new ++ .publish last :: enters) ++ s.notices := by
    simp only [close, hnew]
    simp only [publish, note, ht, List.append_assoc, List.cons_append]
  have hsilent : enters.filterMap Notice.message? = [] := by
    rw [List.filterMap_eq_nil_iff]
    intro n hn
    obtain ⟨next, rfl⟩ := henters n hn
    rfl
  refine ⟨?_, ?_, (registry_enter next).trans hr⟩
  · rw [hg.published ⟨_, hclosed.symm⟩]
    unfold Session.published
    rw [since_eq hclosed, List.filterMap_reverse, List.filterMap_append, List.filterMap_cons,
      filterMap_enters hnexts, hsilent]
    rfl
  · intro n hn
    rw [since_eq hclosed, List.mem_reverse, List.mem_append, List.mem_cons] at hn
    rcases hn with hn | rfl | hn
    · exact .inr ⟨next, hnexts n hn⟩
    · exact .inl rfl
    · exact .inr (henters n hn)

theorem wait_of_isPaused {p : Progress} {f : Flight} (hf : p.session.flight = some f)
    (h : p.isPaused = true) : ∃ resume, f.wait = .debug resume := by
  unfold Progress.isPaused at h
  rw [hf] at h
  obtain ⟨_, _, _, _, _, w⟩ := f
  split at h
  · next heq =>
    cases heq
    exact ⟨_, rfl⟩
  · cases h

/-- An interrupt ends a run that waits. -/
theorem move_interrupt_finish {f : Flight} (hf : s.flight = some f) {q : Query}
    {resume : Except Signal q.Answer → Dialogue (Except Exit Value)} {shown : Message}
    (hw : f.wait.IsFor q resume shown) {m : Machine}
    (hstop : resume (.error .interrupt) = .done (.error (.stop .interrupt)) m) :
    Progress.move ⟨s, none⟩ (.command .interrupt) =
      { s with interrupted := true }.finish f.source .interrupted := by
  rw [move_interrupt hf, hw.interrupt, hstop]
  exact resume_stopped f m fun _ => rfl

/-- A quit ends a run that is paused, unless it was interrupted before. -/
theorem move_quit_finish {f : Flight} (hf : s.flight = some f)
    {paused : Except Signal Unit → Dialogue (Except Exit Value)} (hfw : f.wait = .debug paused)
    (hi : s.interrupted = false) {q : Query}
    {resume : Except Signal q.Answer → Dialogue (Except Exit Value)} {shown : Message}
    (hw : Wait.IsFor (.debug paused) q resume shown) {m : Machine}
    (hstop : resume (.error .quit) = .done (.error (.stop .quit)) m) :
    Progress.move ⟨s, none⟩ (.command (.debug .quit)) =
      { s.enter .running with debugger := .inactive }.finish f.source .quit := by
  rw [move_quit hf hfw]
  cases hw
  rw [hstop]
  refine resume_stopped f m fun h => ?_
  cases ((interrupted_enter _).trans hi).symm.trans h

end Session

open Session in
/-- Wherever a run waits, it does so at a question of its program, whose message is the last one it
published, and every run of the request that heeds the same moves before has published the same up
to there. An interrupt then ends the script at the question, with nothing executed after it, and the
run with one more message; so does a quit at a pause of the debugger. -/
theorem interrupt_ends_wait (s : Session) (request : RunRequest) (p : Progress)
    (hp : s.run request = .ok p) (vs : List Move) (hwaits : (p.play vs).result = none) :
    let waiting := (p.play vs).session
    let interrupted := p.play (vs ++ [.command .interrupt])
    let ended := p.play (vs ++ [.command (.debug .quit)])
    (∃ f d m q resume shown earlier, waiting.flight = some f ∧
      s.Executes (s.sourceFor request) d ∧ d.Leads (.ask m q resume) ∧ f.wait.IsFor q resume shown ∧
      s.published waiting = earlier ++ [shown] ∧
      ∀ sig, ∃ m', resume (.error sig) = .done (.error (.stop sig)) m' ∧ m.Unwound m') ∧
    (∀ ws, p.heeded vs <+: p.heeded ws →
      s.published waiting <+: s.published (p.play ws).session) ∧
    (interrupted.result = some (.ok .interrupted) ∧
      Concludes s waiting interrupted.session
        ⟨.interrupt, .text "KeyboardInterrupt", ContentType.plain⟩) ∧
    ((p.play vs).isPaused = true → ended.result = some (.ok (.completed .nil)) ∧
      Concludes s waiting ended.session ⟨.finish, .text "null", ContentType.json⟩) := by
  intro waiting interrupted ended
  have hattentive := play_attentive
    (start_attentive { s with source := s.sourceFor request } (s.sourceFor request) request) vs
  rw [← run_eq hp] at hattentive
  obtain ⟨hwork, hi, f, hf, hsource, d, m, q, resume, shown, earlier, hd, hleads, hw, hshown⟩ :=
    hattentive hwaits
  have hgrows : s.Grows waiting := hwork.grows
  have hmove (v : Move) : p.play (vs ++ [v]) = Progress.move ⟨waiting, none⟩ v := by
    have hq : p.play vs = ⟨waiting, none⟩ := by rw [← hwaits]
    rw [Progress.play_append, hq]
    rfl
  refine ⟨⟨f, d, m, q, resume, shown, earlier, hf, hd, hleads, hw, hshown, hd.stop hleads⟩, ?_, ?_,
    ?_⟩
  · intro ws hws
    obtain ⟨rest, hrest⟩ := Progress.play_of_prefix hws
    rw [hrest, hgrows.published (works.play (p.play vs) rest).grows]
    exact List.prefix_append _ _
  · obtain ⟨m', hstop, -⟩ := hd.stop hleads .interrupt
    simp only [interrupted, hmove]
    rw [move_interrupt_finish hf hw hstop]
    exact ⟨rfl, close_concludes (t := { waiting with interrupted := true }) hgrows [] rfl nofun rfl
      _ _ _⟩
  · intro hpaused
    obtain ⟨m', hstop, -⟩ := hd.stop hleads .quit
    obtain ⟨resume', hfw⟩ := wait_of_isPaused hf hpaused
    obtain ⟨enters, henters, hnexts⟩ := notices_enter waiting .running
    simp only [ended, hmove]
    rw [move_quit_finish hf hfw hi (hfw ▸ hw) hstop]
    exact ⟨rfl, close_concludes (t := { waiting.enter .running with debugger := .inactive }) hgrows
      _ henters (fun n hn => ⟨_, hnexts n hn⟩) (registry_enter _) _ _ _⟩

namespace Interrupting

open RunClosing (session)

/-- A handler of every exception is around the request for a line. -/
def source : String := "(try (input) (except Exception (print \"caught\")))"

def request : RunRequest := ⟨some source, none, .debug, [1], []⟩

/-- The run is paused before its only line. -/
def paused : Progress :=
  { session with source := session.source.replace source "main.scm" }.start
    (session.source.replace source "main.scm") request

def step : Move := .command (.debug .step)

/-- After a step the run waits for a line; it is interrupted there, and goes on if there is one. At
the pause before, a quit ends it. -/
theorem interrupt_ends_wait_guarded :
    ((paused.play [step, .command .interrupt]).result = some (.ok .interrupted) ∧
      session.published (paused.play [step, .command .interrupt]).session =
        session.published (paused.play [step]).session ++
          [⟨.interrupt, .text "KeyboardInterrupt", ContentType.plain⟩] ∧
      session.published (paused.play [step]).session <+:
        session.published (paused.play [step, .elapse, .command (.input "a")]).session) ∧
    (paused.play [.command (.debug .quit)]).result = some (.ok (.completed .nil)) ∧
      session.published (paused.play [.command (.debug .quit)]).session =
        session.published paused.session ++ [⟨.finish, .text "null", ContentType.json⟩] := by
  have hpaused : paused.isPaused = true := by decide +kernel
  have hfirst : (paused.play []).result = none := Option.isNone_iff_eq_none.mp (by decide +kernel)
  have hsecond : (paused.play [step]).result = none :=
    Option.isNone_iff_eq_none.mp (by decide +kernel)
  have hheeded : paused.heeded [step] <+: paused.heeded [step, .elapse, .command (.input "a")] := by
    have hstep : paused.heeds step = true := by decide +kernel
    simp only [Progress.heeded.eq_2 paused, if_pos hstep]
    exact List.cons_prefix_cons.mpr ⟨rfl, List.nil_prefix⟩
  obtain ⟨-, -, -, hquit⟩ := interrupt_ends_wait session request paused rfl [] hfirst
  simp only [Progress.play_nil, List.nil_append] at hquit
  obtain ⟨-, hsame, ⟨hresult, hlast⟩, -⟩ :=
    interrupt_ends_wait session request paused rfl [step] hsecond
  obtain ⟨hended, hnull⟩ := hquit hpaused
  exact ⟨⟨hresult, hlast.published, hsame _ hheeded⟩, hended, hnull.published⟩

end Interrupting
end Lispbox
