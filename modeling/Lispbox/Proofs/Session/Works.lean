import Lispbox.Proofs.Session.Moves
import Lispbox.Proofs.Session.Standard

/-!
# What is done to a session

Whatever a session does is recorded and stays so (`Session.Grows`). What a run publishes is its
first and its last message, the messages of events, and what it says about modules
(`Message.Occurs`).

What a run does to its session is put together from a few steps. A relation that the steps of a
conversation are in (`Session.Conversational`) holds from the beginning to the end of one; if
questions to the resolver and the modules that it finds are in the relation too
(`Session.Lasting`), it holds over attempts, runs and moves. So a relation between sessions is
proved for the steps, and for runs it follows.

* `Conversational.converse`, `Conversational.finish`: conversations, and the ends of runs.
* `Lasting.attempt`, `Lasting.start`, `Lasting.play`: attempts, runs, and the moves of runs.
* `works`: a run only adds to what was done, and keeps the settings, the source for the next run,
  and standard modules.
-/
namespace Lispbox

/-- The resolver is asked. -/
def Notice.isConsultation : Notice → Bool
  | .prefetch _ | .resolve _ => true
  | .publish _ | .enter _ => false

/-- The last message, the result and the state of a run belong to each other. -/
inductive Closing : Message → Except RunFault Outcome → ExecutionState → Prop where
  | completed (v : Value) : Closing (.finish v) (.ok (.completed v)) .finished
  | compileFailed (e : CompileError) : Closing (.compileError e) (.ok (.compileFailed e)) .errored
  | failed (x : Explanation) : Closing (.explanation x) (.ok (.failed x)) .errored
  | interrupted : Closing (.interrupt interruptReason) (.ok .interrupted) .interrupted
  | unknownEvent (u : UnknownEvent) :
    Closing (.unknownEvent u) (.error (.unknownEvent u)) .errored

theorem Closing.isTerminal {m : Message} {r : Except RunFault Outcome} {st : ExecutionState}
    (h : Closing m r st) : m.kind.isTerminal = true := by
  cases h <;> rfl

/-- The messages that a session publishes. -/
inductive Message.Occurs : Message → Prop where
  | start (mode : RunMode) : Occurs (.start mode)
  | loading (modules : List String) (status : LoadingStatus) : Occurs (.loading modules status)
  | event {e : Event} {m : Message} (h : Message.ofEvent e = .ok (some m)) : Occurs m
  | last {m : Message} {r : Except RunFault Outcome} {st : ExecutionState} (h : Closing m r st) :
    Occurs m

namespace Session

variable {s₀ s s' s'' : Session}

/-! ## What was done -/

/-- What was done since an earlier time, in order. -/
def since (s₀ s : Session) : List Notice :=
  (s.notices.take (s.notices.length - s₀.notices.length)).reverse

/-- The messages that were published since an earlier time, in order. -/
def published (s₀ s : Session) : List Message := (s₀.since s).filterMap Notice.message?

theorem since_eq {new : List Notice} (h : s.notices = new ++ s₀.notices) :
    s₀.since s = new.reverse := by
  simp [since, h]

theorem enter_state (s : Session) (next : ExecutionState) : (s.enter next).state = next := by
  unfold enter
  split
  · next h => exact h
  · rfl

/-- A change of the state is at most one notice. -/
theorem notices_enter (s : Session) (next : ExecutionState) :
    ∃ new, (s.enter next).notices = new ++ s.notices ∧ ∀ n ∈ new, n = .enter next := by
  unfold enter
  split
  · exact ⟨[], rfl, by simp⟩
  · exact ⟨[.enter next], rfl, by simp⟩

theorem filterMap_enters {next : ExecutionState} {new : List Notice}
    (h : ∀ n ∈ new, n = .enter next) : new.filterMap Notice.message? = [] := by
  rw [List.filterMap_eq_nil_iff]
  intro n hn
  rw [h n hn]
  rfl

/-- What a run that is opened adds to a session. -/
theorem notices_opening (s : Session) (mode : RunMode) :
    ∃ new, (s.opening mode).notices = .publish (.start mode) :: (new ++ s.notices) ∧
      ∀ n ∈ new, n = .enter .compiling := by
  obtain ⟨new, hnew, henters⟩ :=
    notices_enter { s with mailbox := [], interrupted := false } .compiling
  exact ⟨new, by simp only [opening, publish, note, hnew], henters⟩

/-- What was done stays recorded. -/
def Grows (s s' : Session) : Prop := s.notices <:+ s'.notices

theorem Grows.refl (s : Session) : s.Grows s := List.suffix_refl _

theorem Grows.trans (h : s.Grows s') (h' : s'.Grows s'') : s.Grows s'' :=
  List.IsSuffix.trans h h'

theorem Grows.of_eq (h : s'.notices = s.notices) : s.Grows s' := ⟨[], h.symm⟩

theorem grows_note (n : Notice) : s.Grows (s.note n) := List.suffix_cons n s.notices

theorem grows_enter (next : ExecutionState) : s.Grows (s.enter next) := by
  obtain ⟨new, hnew, -⟩ := notices_enter s next
  exact ⟨new, hnew.symm⟩

theorem Grows.since (h : s₀.Grows s) (h' : s.Grows s') :
    s₀.since s' = s₀.since s ++ s.since s' := by
  obtain ⟨new, hnew⟩ := h
  obtain ⟨new', hnew'⟩ := h'
  have hall : s'.notices = (new' ++ new) ++ s₀.notices := by
    rw [← hnew', ← hnew, List.append_assoc]
  rw [since_eq hnew.symm, since_eq hnew'.symm, since_eq hall, List.reverse_append]

theorem Grows.published (h : s₀.Grows s) (h' : s.Grows s') :
    s₀.published s' = s₀.published s ++ s.published s' := by
  unfold Session.published
  rw [h.since h', List.filterMap_append]

variable {e : Event} {u : UnknownEvent} {m : Message}

theorem deliver_shown (h : Message.ofEvent e = .ok (some m)) :
    s.deliver e = (.ok (), s.publish m) := by
  simp only [deliver, h]

theorem deliver_hidden (h : Message.ofEvent e = .ok none) : s.deliver e = (.ok (), s) := by
  simp only [deliver, h]

theorem deliver_unknown (h : Message.ofEvent e = .error u) :
    s.deliver e = (.error u, { s with interrupted := true }.publish (.unknownEvent u)) := by
  simp only [deliver, h]

/-! ## Conversations -/

/-- The steps of a conversation are in the relation; what is not recorded may change at will, but
the settings, the source and the modules stay. -/
structure Conversational (R : Session → Session → Prop) : Prop where
  of_eq {s s' : Session} (hn : s'.notices = s.notices) (hs : s'.setup = s.setup)
    (hu : s'.source = s.source) (hr : s'.registry = s.registry) : R s s'
  trans {s s' s'' : Session} (h : R s s') (h' : R s' s'') : R s s''
  enter {s : Session} (next : ExecutionState) : R s (s.enter next)
  publish {s : Session} {m : Message} (h : m.Occurs) : R s (s.publish m)

variable {R : Session → Session → Prop} {source : SourceUnit} {request : RunRequest}

namespace Conversational

theorem refl (h : Conversational R) (s : Session) : R s s := h.of_eq rfl rfl rfl rfl

theorem deliver (h : Conversational R) (e : Event) : R s (s.deliver e).2 := by
  cases he : Message.ofEvent e with
  | error u =>
    rw [deliver_unknown he]
    have hinterrupted : R s { s with interrupted := true } := h.of_eq rfl rfl rfl rfl
    exact h.trans hinterrupted (h.publish (.last (.unknownEvent u)))
  | ok shown =>
    cases shown with
    | none =>
      rw [deliver_hidden he]
      exact h.refl s
    | some m =>
      rw [deliver_shown he]
      exact h.publish (.event he)

theorem opening (h : Conversational R) (mode : RunMode) : R s (s.opening mode) := by
  have hcleared : R s { s with mailbox := [], interrupted := false } := h.of_eq rfl rfl rfl rfl
  exact h.trans hcleared (h.trans (h.enter .compiling) (h.publish (.start mode)))

theorem startDebugger (h : Conversational R) (source : SourceUnit) (request : RunRequest) :
    R s (s.startDebugger source request) := by
  unfold Session.startDebugger
  split
  · exact h.of_eq rfl rfl rfl rfl
  · exact h.refl s

theorem react (h : Conversational R) (debugging : Bool) (files : List (String × String))
    (st : Stage) (q : Query) : R st.session (st.react debugging files q).2.session := by
  unfold Stage.react
  split
  · exact h.refl _
  · cases q with
    | poll => exact h.refl _
    | readFile name => exact h.refl _
    | line file n =>
      have hreach : R st.session
          { st.session with debugger := (st.session.debugger.reach file n).2 } :=
        h.of_eq rfl rfl rfl rfl
      unfold Stage.attend
      dsimp only
      split
      · exact h.refl _
      · split
        · exact h.trans hreach (h.trans (h.deliver (.debugPause n)) (h.enter .debugPaused))
        · exact hreach
    | emit e =>
      unfold Stage.attend
      dsimp only
      split <;> exact h.deliver e
    | input prompt =>
      have hasked : R st.session (st.session.deliver (.inputRequest prompt)).2 :=
        h.deliver (.inputRequest prompt)
      unfold Stage.attend
      dsimp only
      split
      · exact hasked
      · exact h.trans hasked (h.enter .suspended)
    | sleep duration =>
      unfold Stage.attend
      dsimp only
      split <;> exact h.deliver (.sleep duration)

/-- A conversation. -/
theorem converse (h : Conversational R) (debugging : Bool) (files : List (String × String))
    (d : Dialogue (Except Exit Value)) (st : Stage) :
    R st.session (converse debugging files d st).2.session := by
  refine converse_induction (I := fun _ st' => R st.session st'.session)
    (Q := fun x => R st.session x.2.session) id id ?_ (h.refl st.session)
  intro m q resume st' hst
  have hreact := h.react debugging files st' q
  unfold Keeps
  split
  · next hr =>
    rw [hr] at hreact
    exact h.trans hst hreact
  · next hr =>
    rw [hr] at hreact
    exact h.trans hst hreact
  · next hr =>
    rw [hr] at hreact
    exact h.trans hst hreact

theorem close (h : Conversational R) {m : Message} {next : ExecutionState} {o : Outcome}
    (hm : Closing m (.ok o) next) : R s (s.close m next o).session :=
  h.trans (h.publish (.last hm)) (h.trans (h.enter next) (h.of_eq rfl rfl rfl rfl))

theorem finish (h : Conversational R) (source : SourceUnit) (e : AttemptEnd) :
    R s (s.finish source e).session := by
  cases e with
  | compileFailed e => exact h.close (.compileFailed e)
  | completed v => exact h.close (.completed v)
  | raised e => exact h.close (.failed _)
  | interrupted => exact h.close .interrupted
  | quit => exact h.close (.completed .nil)

theorem fail (h : Conversational R) (f : RunFault) : R s (s.fail f).session :=
  h.trans (h.enter .errored) (h.of_eq rfl rfl rfl rfl)

end Conversational

/-! ## Runs -/

/-- Questions to the resolver, and the modules that it finds, are in the relation too. -/
structure Lasting (R : Session → Session → Prop) : Prop extends Conversational R where
  consult {s : Session} {n : Notice} (h : n.isConsultation = true) : R s (s.note n)
  install {s : Session} {name : String} {m : Module} (h : s.setup.resolver.resolve name = .ok m) :
    R s { s with registry := s.registry.install m }
  installAll {s : Session} (names : List String) :
    R s { s with
      registry := (s.setup.resolver.prefetch names).foldl Registry.install s.registry }

namespace Lasting

theorem prefetch (h : Lasting R) (p : Program) : R s (s.prefetch p) := by
  unfold Session.prefetch
  dsimp only
  split
  · exact h.refl s
  · have hasked :
        R s (s.note (.prefetch (p.imports.filter fun name => !s.registry.contains name))) :=
      h.consult rfl
    have hinstalled := h.trans hasked (h.installAll (p.imports.filter fun name =>
      !s.registry.contains name))
    split
    · exact hasked
    · next modules hm => exact h.trans hinstalled (h.publish (.loading _ _))

theorem running (h : Lasting R) (p : Program) : R s ((s.prefetch p).enter .running) :=
  h.trans (h.prefetch p) (h.enter .running)

theorem installMissing (h : Lasting R) (name : String) : R s (s.installMissing name).2 := by
  have hasked : R s (s.asking name) := h.trans (h.publish (.loading _ _)) (h.consult rfl)
  cases hm : s.setup.resolver.resolve name with
  | error err =>
    rw [installMissing_of_error hm]
    exact h.trans hasked (h.publish (.loading _ _))
  | ok m =>
    rw [installMissing_of_ok hm]
    have hfound : (s.asking name).setup.resolver.resolve name = .ok m := hm
    exact h.trans hasked (h.trans (h.install hfound) (h.publish (.loading _ _)))

theorem restarting (h : Lasting R) (source : SourceUnit) (request : RunRequest) (name : String) :
    R s (s.restarting source request name) :=
  h.trans (h.installMissing name) (h.startDebugger source request)

variable [Supply]

theorem attempt (h : Lasting R) (s : Session) (source : SourceUnit) (request : RunRequest) :
    R s (s.attempt source request).2.session := by
  cases hc : compile source.text source.file s.setup.config.recursionLimit with
  | error e =>
    rw [attempt_of_error hc]
    exact h.refl s
  | ok p =>
    rw [attempt_of_ok hc]
    exact h.trans (h.running p) (h.converse _ _ _ ⟨_, request.stdin⟩)

theorem proceed (h : Lasting R) (source : SourceUnit) (request : RunRequest)
    (files : List (String × String)) (retries : Nat) (halt : Halt) (st : Stage) :
    R st.session (proceed source request files retries halt st).session := by
  refine proceed_induction (A := fun _ _ x => R st.session x.2.session)
    (P := fun p => R st.session p.session) ?_ ?_ ?_ ?_ ?_ (h.refl st.session)
  · exact fun hs => h.trans hs (h.of_eq rfl rfl rfl rfl)
  · exact fun hs => h.trans hs (h.fail _)
  · exact fun hs _ => h.trans hs (h.finish source _)
  · exact fun hs _ _ => h.trans hs (h.trans (h.installMissing _) (h.finish source _))
  · exact fun hs _ _ => h.trans hs (h.trans (h.restarting source request _) (h.attempt _ _ _))

theorem start (h : Lasting R) (s : Session) (source : SourceUnit) (request : RunRequest) :
    R s (s.start source request).session := by
  rw [start_eq]
  have hstarted := h.trans (h.opening (s := s) request.mode) (h.startDebugger source request)
  exact h.trans hstarted (h.trans (h.attempt _ source request) (h.proceed _ _ _ _ _ _))

theorem resume (h : Lasting R) (f : Flight) (d : Dialogue (Except Exit Value)) :
    R s (s.resume f d).session :=
  h.trans (h.converse _ _ d ⟨s, f.stdin⟩) (h.proceed _ _ _ _ _ _)

/-- A move of a run. -/
theorem move (h : Lasting R) (p : Progress) (v : Move) : R p.session (p.move v).session := by
  obtain ⟨s, result⟩ := p
  cases result with
  | some r => exact h.refl s
  | none =>
    cases hf : s.flight with
    | none =>
      unfold Progress.move
      cases v with
      | provideFiles files => exact h.of_eq rfl rfl rfl rfl
      | elapse =>
        simp only [elapse, hf]
        exact h.refl s
      | command c =>
        simp only [command, hf]
        exact h.of_eq rfl rfl rfl rfl
    | some f =>
      have hrunning : R s (s.enter .running) := h.enter .running
      have hmoved := move_cases hf v
      generalize Progress.move ⟨s, none⟩ v = p at hmoved
      cases hmoved with
      | ignored => exact h.refl s
      | files files => exact h.of_eq rfl rfl rfl rfl
      | interrupt =>
        have hinterrupted : R s { s with interrupted := true } := h.of_eq rfl rfl rfl rfl
        exact h.trans hinterrupted (h.resume f _)
      | line => exact h.trans hrunning (h.resume f _)
      | elapse => exact h.resume f _
      | @goOn _ _ _ d =>
        have hdebugger : R (s.enter .running) { s.enter .running with debugger := d } :=
          h.of_eq rfl rfl rfl rfl
        exact h.trans hrunning (h.trans hdebugger (h.resume f _))
      | quit =>
        have hdebugger : R (s.enter .running) { s.enter .running with debugger := .inactive } :=
          h.of_eq rfl rfl rfl rfl
        exact h.trans hrunning (h.trans hdebugger (h.resume f _))

/-- All moves of a run. -/
theorem play (h : Lasting R) (p : Progress) (vs : List Move) : R p.session (p.play vs).session :=
  Progress.play_induction (P := fun q => R p.session q.session)
    (fun v hq => h.trans hq (h.move _ v)) (h.refl p.session) vs

end Lasting

/-! ## What stays -/

/-- What a run does to its session: it adds to what was done. The settings and the source for the
next run stay, and standard modules are still all there are. -/
structure Works (s s' : Session) : Prop where
  grows : s.Grows s'
  setup : s'.setup = s.setup
  source : s'.source = s.source
  standard : s.AllStandard → s'.AllStandard

theorem works_note (n : Notice) : s.Works (s.note n) :=
  ⟨grows_note n, rfl, rfl, fun h => ⟨h.registry, h.resolver⟩⟩

theorem works : Lasting Works where
  of_eq hn hs hu hr := ⟨.of_eq hn, hs, hu, fun h => ⟨hr ▸ h.registry, hs ▸ h.resolver⟩⟩
  trans h h' := ⟨h.grows.trans h'.grows, h'.setup.trans h.setup, h'.source.trans h.source,
    fun hs => h'.standard (h.standard hs)⟩
  enter {s} next := by
    have hsame : (s.enter next).setup = s.setup ∧ (s.enter next).source = s.source ∧
        (s.enter next).registry = s.registry := by
      unfold enter
      split <;> exact ⟨rfl, rfl, rfl⟩
    obtain ⟨hs, hu, hr⟩ := hsame
    exact ⟨grows_enter next, hs, hu, fun h => ⟨hr ▸ h.registry, hs ▸ h.resolver⟩⟩
  publish _ := works_note _
  consult _ := works_note _
  install hm := ⟨.of_eq rfl, rfl, rfl, fun h =>
    ⟨h.registry.install (h.resolver.1 _ _ hm), h.resolver⟩⟩
  installAll names := ⟨.of_eq rfl, rfl, rfl, fun h =>
    ⟨h.registry.installAll (h.resolver.2 names), h.resolver⟩⟩

end Session
end Lispbox
