import Lispbox.Session.Run

/-!
# The moves of a run

A run that waits is moved on by commands, by the end of a pause and by new files (`Progress.play`).
It goes on at a move that ends its wait, and takes note of new files; all other moves it ignores
(`Progress.heeds`). What it comes to depends on the moves that it heeds alone (`Progress.heeded`),
so of two runs that heed the same moves at first, one is where the other was.

A run is one attempt after another, an attempt is a conversation between a script and its session,
and a conversation is one answer after another. The inductions are done once, here; an invariant of
runs gives its steps.

* `move_ignored`, `play_heeded`: what is not heeded changes nothing.
* `move_cases`: what a move makes of a run that waits.
* `play_of_prefix`: a run that heeds more moves than another one has gone on from there.
* `converse_induction`: what holds from one answer to the next, and where a conversation halts.
* `converse_congr`: conversations side by side.
* `proceed_induction`: what holds where an attempt halts, and of the run then.
* `Progress.play_induction`: what every move keeps.
-/
namespace Lispbox

/-- What happens to a session while a run waits. -/
inductive Move where
  | command (c : Command)
  /-- The pause that the run waits for is over. -/
  | elapse
  | provideFiles (files : List (String × String))

/-- The command ends the wait. -/
def Wait.endsAt : Wait → Command → Bool
  | _, .interrupt => true
  | .input _, .input _ => true
  | .debug _, .debug _ => true
  | _, _ => false

/-- The script pauses. -/
def Wait.isSleep : Wait → Bool
  | .sleep _ _ => true
  | .input _ | .debug _ => false

/-- The move ends the wait of a run, or provides it with files. -/
def Progress.heeds (p : Progress) (v : Move) : Bool :=
  p.result.isNone &&
    match v with
    | .command c => p.session.flight.all fun f => f.wait.endsAt c
    | .elapse => p.session.flight.any fun f => f.wait.isSleep
    | .provideFiles _ => true

namespace Session

variable {s : Session} {f : Flight}

theorem heeds_waiting (hf : s.flight = some f) (v : Move) :
    Progress.heeds ⟨s, none⟩ v =
      match v with
      | .command c => f.wait.endsAt c
      | .elapse => f.wait.isSleep
      | .provideFiles _ => true := by
  cases v <;> simp [Progress.heeds, hf]

/-! ## Conversations -/

/-- What follows from a reaction: the conversation goes on with an answer, or it halts. -/
def Keeps (I : Dialogue (Except Exit Value) → Stage → Prop) (Q : Halt × Stage → Prop) {q : Query}
    (resume : Except Signal q.Answer → Dialogue (Except Exit Value)) : Reaction q × Stage → Prop
  | (.reply a, st) => I (resume a) st
  | (.wait w, st) => Q (.waits (w resume), st)
  | (.fault u, st) => Q (.faults (.unknownEvent u), st)

/-- A conversation is one answer after another. -/
theorem converse_induction {debugging : Bool} {files : List (String × String)}
    {I : Dialogue (Except Exit Value) → Stage → Prop} {Q : Halt × Stage → Prop}
    (done : ∀ {r m st}, I (.done r m) st → Q (st.session.haltOf (.ofResult (.ok r)), st))
    (abort : ∀ {a m st}, I (.abort a m) st → Q (st.session.haltOf (.ofResult (.error a)), st))
    (ask : ∀ {m q resume st}, I (.ask m q resume) st →
      Keeps I Q resume (st.react debugging files q))
    {d : Dialogue (Except Exit Value)} {st : Stage} (h : I d st) :
    Q (converse debugging files d st) := by
  induction d generalizing st with
  | done r m => exact done h
  | abort a m => exact abort h
  | ask m q resume ih =>
    have hreact := ask h
    unfold converse
    split
    · next a st' hr =>
      rw [hr] at hreact
      exact ih a hreact
    · next w st' hr =>
      rw [hr] at hreact
      exact hreact
    · next u st' hr =>
      rw [hr] at hreact
      exact hreact

/-- Two conversations that get the same answers halt in the same way. -/
theorem converse_congr {debugging debugging' : Bool} {files files' : List (String × String)}
    {J : Stage → Stage → Prop}
    (halt : ∀ {a b : Stage} (e : RunEnd), J a b → b.session.haltOf e = a.session.haltOf e)
    (react : ∀ {a b : Stage} (q : Query), J a b →
      (b.react debugging' files' q).1 = (a.react debugging files q).1 ∧
        J (a.react debugging files q).2 (b.react debugging' files' q).2)
    (d : Dialogue (Except Exit Value)) {a b : Stage} (h : J a b) :
    (converse debugging' files' d b).1 = (converse debugging files d a).1 ∧
      J (converse debugging files d a).2 (converse debugging' files' d b).2 := by
  induction d generalizing a b with
  | done r m => exact ⟨halt _ h, h⟩
  | abort e m => exact ⟨halt _ h, h⟩
  | ask m q resume ih =>
    obtain ⟨hsame, hnext⟩ := react q h
    unfold converse
    cases ha : a.react debugging files q with
    | mk r a' =>
      cases hb : b.react debugging' files' q with
      | mk r' b' =>
        rw [ha, hb] at hsame hnext
        obtain rfl : r' = r := hsame
        cases r' with
        | reply answer => exact ih answer hnext
        | wait w => exact ⟨rfl, hnext⟩
        | fault e => exact ⟨rfl, hnext⟩

/-- A run whose dialogue is over does not wait. -/
theorem haltOf_over (s : Session) (e : RunEnd) (w : Wait) : s.haltOf e ≠ .waits w := by
  unfold haltOf
  split <;> nofun

/-! ## Missing modules -/

/-- The session that has asked for a module. -/
def asking (s : Session) (name : String) : Session :=
  (s.publish (.loading [name] .loading)).note (.resolve name)

theorem installMissing_of_ok {name : String} {m : Module}
    (h : s.setup.resolver.resolve name = .ok m) :
    s.installMissing name =
      (true, { s.asking name with registry := s.registry.install m }.publish
        (.loading [name] .loaded)) := by
  simp only [installMissing, asking, publish, note, h]

theorem installMissing_of_error {name : String} {e : ResolveFault}
    (h : s.setup.resolver.resolve name = .error e) :
    s.installMissing name = (false, (s.asking name).publish (.loading [name] .failed)) := by
  simp only [installMissing, asking, publish, note, h]

end Session

/-! ## Moves -/

variable [Supply]

/-- A command that does not end the wait is ignored. -/
theorem Session.command_ignored {s : Session} {f : Flight} {c : Command} (hf : s.flight = some f)
    (h : f.wait.endsAt c = false) : s.command c = ⟨s, none⟩ := by
  unfold command
  rw [hf]
  dsimp only
  split
  · cases hw : f.wait <;> rw [hw] at h <;> cases h
  · next hw =>
    rw [hw] at h
    cases h
  · next hw =>
    rw [hw] at h
    cases h
  · rfl

namespace Progress

/-- A run that is over stays as it is. -/
def move (p : Progress) (v : Move) : Progress :=
  match p.result with
  | some _ => p
  | none =>
    match v with
    | .command c => p.session.command c
    | .elapse => p.session.elapse
    | .provideFiles files => ⟨p.session.provideFiles files, none⟩

/-- One move after another. -/
def play (p : Progress) (vs : List Move) : Progress := vs.foldl move p

/-- The moves that a run heeds, in order. -/
def heeded (p : Progress) : List Move → List Move
  | [] => []
  | v :: vs => if p.heeds v then v :: (p.move v).heeded vs else p.heeded vs

variable {p : Progress} {v : Move} {vs ws : List Move}

theorem move_ignored (h : p.heeds v = false) : p.move v = p := by
  obtain ⟨s, result⟩ := p
  cases result with
  | some r => rfl
  | none =>
    cases v with
    | provideFiles files => cases h
    | elapse =>
      cases hf : s.flight with
      | none => simp only [move, Session.elapse, hf]
      | some f =>
        cases hw : f.wait with
        | input resume => simp only [move, Session.elapse, hf, hw]
        | debug resume => simp only [move, Session.elapse, hf, hw]
        | sleep duration resume => simp [heeds, hf, hw, Wait.isSleep] at h
    | command c =>
      cases hf : s.flight with
      | none => simp [heeds, hf] at h
      | some f =>
        refine Session.command_ignored hf ?_
        simpa [heeds, hf] using h

theorem play_nil (p : Progress) : p.play [] = p := rfl

theorem play_append (p : Progress) (vs ws : List Move) :
    p.play (vs ++ ws) = (p.play vs).play ws :=
  List.foldl_append

theorem play_heeded (p : Progress) (vs : List Move) : p.play (p.heeded vs) = p.play vs := by
  induction vs generalizing p with
  | nil => rfl
  | cons v vs ih =>
    have hmove : p.play (v :: vs) = (p.move v).play vs := rfl
    unfold heeded
    split
    · exact ih (p.move v)
    · next h => rw [hmove, move_ignored (Bool.eq_false_iff.mpr h), ih p]

theorem play_of_prefix (h : p.heeded vs <+: p.heeded ws) :
    ∃ rest, p.play ws = (p.play vs).play rest := by
  obtain ⟨rest, hrest⟩ := h
  exact ⟨rest, by rw [← play_heeded p ws, ← hrest, play_append, play_heeded]⟩

/-- What every move keeps. -/
theorem play_induction {P : Progress → Prop}
    (step : ∀ {q : Progress} (v : Move), P q → P (q.move v)) (h : P p) (vs : List Move) :
    P (p.play vs) := by
  induction vs generalizing p with
  | nil => exact h
  | cons v vs ih => exact ih (step v h)

theorem move_over {r : Except RunFault Outcome} (hr : p.result = some r) (v : Move) :
    p.move v = p := by
  unfold move
  rw [hr]

theorem play_over {r : Except RunFault Outcome} (hr : p.result = some r) (vs : List Move) :
    p.play vs = p := by
  induction vs with
  | nil => rfl
  | cons v vs ih => exact (congrArg (play · vs) (move_over hr v)).trans ih

end Progress

namespace Session

variable {s : Session} {f : Flight}

/-! ## What a move does -/

/-- What a move makes of a session with a run that waits. -/
inductive Moved (s : Session) (f : Flight) : Move → Progress → Prop where
  | ignored {v : Move} (h : Progress.heeds ⟨s, none⟩ v = false) : Moved s f v ⟨s, none⟩
  | files (files : List (String × String)) :
    Moved s f (.provideFiles files) ⟨s.provideFiles files, none⟩
  | interrupt :
    Moved s f (.command .interrupt) ({ s with interrupted := true }.resume f f.wait.interrupt)
  | line {resume : Except Signal String → Dialogue (Except Exit Value)}
    (hw : f.wait = .input resume) (line : String) :
    Moved s f (.command (.input line)) ((s.enter .running).resume f (resume (.ok line)))
  | elapse {duration : Nat} {resume : Except Signal Unit → Dialogue (Except Exit Value)}
    (hw : f.wait = .sleep duration resume) : Moved s f .elapse (s.resume f (resume (.ok ())))
  | goOn {resume : Except Signal Unit → Dialogue (Except Exit Value)}
    (hw : f.wait = .debug resume) {c : DebugCommand} {d : Debugger}
    (hc : (s.enter .running).debugger.resume c = some d) :
    Moved s f (.command (.debug c))
      ({ s.enter .running with debugger := d }.resume f (resume (.ok ())))
  | quit {resume : Except Signal Unit → Dialogue (Except Exit Value)}
    (hw : f.wait = .debug resume) :
    Moved s f (.command (.debug .quit))
      ({ s.enter .running with debugger := .inactive }.resume f (resume (.error .quit)))

theorem move_interrupt (hf : s.flight = some f) :
    Progress.move ⟨s, none⟩ (.command .interrupt) =
      { s with interrupted := true }.resume f f.wait.interrupt := by
  simp only [Progress.move, command, hf]

theorem move_line (hf : s.flight = some f)
    {resume : Except Signal String → Dialogue (Except Exit Value)} (hw : f.wait = .input resume)
    (line : String) :
    Progress.move ⟨s, none⟩ (.command (.input line)) =
      (s.enter .running).resume f (resume (.ok line)) := by
  simp only [Progress.move, command, hf, hw]

theorem move_elapse (hf : s.flight = some f) {duration : Nat}
    {resume : Except Signal Unit → Dialogue (Except Exit Value)}
    (hw : f.wait = .sleep duration resume) :
    Progress.move ⟨s, none⟩ .elapse = s.resume f (resume (.ok ())) := by
  simp only [Progress.move, elapse, hf, hw]

theorem move_goOn (hf : s.flight = some f)
    {resume : Except Signal Unit → Dialogue (Except Exit Value)} (hw : f.wait = .debug resume)
    {c : DebugCommand} {d : Debugger} (hc : (s.enter .running).debugger.resume c = some d) :
    Progress.move ⟨s, none⟩ (.command (.debug c)) =
      { s.enter .running with debugger := d }.resume f (resume (.ok ())) := by
  simp only [Progress.move, command, hf, hw, hc]

theorem move_quit (hf : s.flight = some f)
    {resume : Except Signal Unit → Dialogue (Except Exit Value)} (hw : f.wait = .debug resume) :
    Progress.move ⟨s, none⟩ (.command (.debug .quit)) =
      { s.enter .running with debugger := .inactive }.resume f (resume (.error .quit)) := by
  simp only [Progress.move, command, hf, hw, Debugger.resume, Debugger.stop]

theorem move_cases (hf : s.flight = some f) (v : Move) :
    Moved s f v (Progress.move ⟨s, none⟩ v) := by
  cases hheeds : Progress.heeds ⟨s, none⟩ v with
  | false =>
    rw [Progress.move_ignored hheeds]
    exact .ignored hheeds
  | true =>
    rw [heeds_waiting hf] at hheeds
    cases v with
    | provideFiles files => exact .files files
    | elapse =>
      cases hw : f.wait with
      | sleep duration resume => exact move_elapse hf hw ▸ .elapse hw
      | input resume => simp [hw, Wait.isSleep] at hheeds
      | debug resume => simp [hw, Wait.isSleep] at hheeds
    | command c =>
      cases c with
      | interrupt => exact move_interrupt hf ▸ .interrupt
      | input line =>
        cases hw : f.wait with
        | input resume => exact move_line hf hw line ▸ .line hw line
        | sleep duration resume => simp [hw, Wait.endsAt] at hheeds
        | debug resume => simp [hw, Wait.endsAt] at hheeds
      | debug c =>
        cases hw : f.wait with
        | input resume => simp [hw, Wait.endsAt] at hheeds
        | sleep duration resume => simp [hw, Wait.endsAt] at hheeds
        | debug resume =>
          cases c with
          | quit => exact move_quit hf hw ▸ .quit hw
          | continue_ =>
            have hc : (s.enter .running).debugger.resume .continue_ = some _ := rfl
            exact move_goOn hf hw hc ▸ .goOn hw hc
          | step =>
            have hc : (s.enter .running).debugger.resume .step = some _ := rfl
            exact move_goOn hf hw hc ▸ .goOn hw hc

/-! ## Attempts -/

variable {source : SourceUnit} {request : RunRequest}

theorem attempt_of_error {e : CompileError}
    (hc : compile source.text source.file s.setup.config.recursionLimit = .error e)
    (request : RunRequest) :
    s.attempt source request = (.ends (.compileFailed e), ⟨s, request.stdin⟩) := by
  unfold attempt
  dsimp only
  rw [hc]

/-- A program is executed with the modules that are there after the resolver was asked. -/
theorem attempt_of_ok {p : Program}
    (hc : compile source.text source.file s.setup.config.recursionLimit = .ok p)
    (request : RunRequest) :
    s.attempt source request =
      converse (request.mode == .debug) ((s.prefetch p).enter .running).files
        (p.dialogue ⟨((s.prefetch p).enter .running).registry, s.setup.config.recursionLimit⟩
          ((s.prefetch p).enter .running).setup.fuel)
        ⟨(s.prefetch p).enter .running, request.stdin⟩ := by
  unfold attempt
  dsimp only
  rw [hc]

theorem proceed_waits (source : SourceUnit) (request : RunRequest) (files : List (String × String))
    (retries : Nat) (w : Wait) (st : Stage) :
    proceed source request files retries (.waits w) st =
      ⟨{ st.session with
        flight := some ⟨source, request, retries, files, st.stdin, w⟩ }, none⟩ := by
  cases retries <;> rfl

theorem proceed_faults (source : SourceUnit) (request : RunRequest) (files : List (String × String))
    (retries : Nat) (f : RunFault) (st : Stage) :
    proceed source request files retries (.faults f) st = st.session.fail f := by
  cases retries <;> rfl

theorem proceed_ends {e : AttemptEnd} {retries : Nat}
    (h : retries = 0 ∨ ∀ x name, e = .raised x → x.missingModule ≠ some name)
    (source : SourceUnit) (request : RunRequest) (files : List (String × String)) (st : Stage) :
    proceed source request files retries (.ends e) st = st.session.finish source e := by
  cases retries with
  | zero => rfl
  | succ retries =>
    cases e with
    | raised x =>
      have hnone : x.missingModule = none :=
        Option.eq_none_iff_forall_ne_some.mpr fun name => h.resolve_left nofun x name rfl
      simp only [proceed, hnone]
    | _ => rfl

/-- An attempt is the last one unless it ended for want of a module. -/
theorem proceed_ends_cases (e : AttemptEnd) :
    (∀ source request files retries st,
      proceed source request files retries (.ends e) st = st.session.finish source e) ∨
      ∃ x name, e = .raised x ∧ x.missingModule = some name := by
  by_cases hlacks : ∃ x name, e = .raised x ∧ x.missingModule = some name
  · exact .inr hlacks
  · exact .inl fun _ _ _ _ _ =>
      proceed_ends (.inr fun x name he hname => hlacks ⟨x, name, he, hname⟩) _ _ _ _

/-- A module that is not found ends the run. -/
theorem proceed_of_unfound {name : String} {x : Exception} {err : ResolveFault} {st : Stage}
    (hx : x.missingModule = some name) (hm : st.session.setup.resolver.resolve name = .error err)
    (source : SourceUnit) (request : RunRequest) (files : List (String × String)) (retries : Nat) :
    proceed source request files (retries + 1) (.ends (.raised x)) st =
      (st.session.installMissing name).2.finish source (.raised x) := by
  simp only [proceed, hx, installMissing_of_error hm, Bool.false_eq_true, if_false]

/-- The session that a run is started again in. -/
def restarting (s : Session) (source : SourceUnit) (request : RunRequest) (name : String) :
    Session := (s.installMissing name).2.startDebugger source request

/-- A module that is found is installed, and the run is started again. -/
theorem proceed_of_found {name : String} {x : Exception} {m : Module} {st : Stage}
    (hx : x.missingModule = some name) (hm : st.session.setup.resolver.resolve name = .ok m)
    (source : SourceUnit) (request : RunRequest) (files : List (String × String)) (retries : Nat) :
    proceed source request files (retries + 1) (.ends (.raised x)) st =
      proceed source request (st.session.restarting source request name).files retries
        ((st.session.restarting source request name).attempt source request).1
        ((st.session.restarting source request name).attempt source request).2 := by
  simp only [proceed, hx, restarting, installMissing_of_ok hm, if_true]

/-- A run is one attempt after another. Where an attempt halts, `A` holds with the retries that are
left and the files of the attempt. -/
theorem proceed_induction {A : Nat → List (String × String) → Halt × Stage → Prop}
    {P : Progress → Prop}
    (waits : ∀ {retries files w st}, A retries files (.waits w, st) →
      P ⟨{ st.session with
        flight := some ⟨source, request, retries, files, st.stdin, w⟩ }, none⟩)
    (fails : ∀ {retries files f st}, A retries files (.faults f, st) → P (st.session.fail f))
    (ends : ∀ {retries files e st}, A retries files (.ends e, st) →
      (retries = 0 ∨ ∀ x name, e = .raised x → x.missingModule ≠ some name) →
      P (st.session.finish source e))
    (unfound : ∀ {retries files x name err st}, A (retries + 1) files (.ends (.raised x), st) →
      x.missingModule = some name → st.session.setup.resolver.resolve name = .error err →
      P ((st.session.installMissing name).2.finish source (.raised x)))
    (again : ∀ {retries files x name m st}, A (retries + 1) files (.ends (.raised x), st) →
      x.missingModule = some name → st.session.setup.resolver.resolve name = .ok m →
      A retries (st.session.restarting source request name).files
        ((st.session.restarting source request name).attempt source request))
    {retries : Nat} {files : List (String × String)} {halt : Halt} {st : Stage}
    (h : A retries files (halt, st)) : P (proceed source request files retries halt st) := by
  induction retries generalizing files halt st with
  | zero =>
    cases halt with
    | waits w => exact waits h
    | faults f => exact fails h
    | ends e => exact ends h (.inl rfl)
  | succ retries ih =>
    cases halt with
    | waits w => exact waits h
    | faults f => exact fails h
    | ends e =>
      by_cases hlacks : ∃ x name, e = .raised x ∧ x.missingModule = some name
      · obtain ⟨x, name, rfl, hx⟩ := hlacks
        cases hm : st.session.setup.resolver.resolve name with
        | ok m =>
          rw [proceed_of_found hx hm]
          exact ih (again h hx hm)
        | error err =>
          rw [proceed_of_unfound hx hm]
          exact unfound h hx hm
      · have hlast : retries + 1 = 0 ∨ ∀ x name, e = .raised x → x.missingModule ≠ some name :=
          .inr fun x name he hname => hlacks ⟨x, name, he, hname⟩
        rw [proceed_ends hlast]
        exact ends h hlast

/-! ## Runs -/

/-- The session when the first message of a run is out. -/
def opening (s : Session) (mode : RunMode) : Session :=
  ({ s with mailbox := [], interrupted := false }.enter .compiling).publish (.start mode)

/-- A run is a first attempt and what follows from it. -/
theorem start_eq (s : Session) (source : SourceUnit) (request : RunRequest) :
    s.start source request =
      proceed source request ((s.opening request.mode).startDebugger source request).files 1
        (((s.opening request.mode).startDebugger source request).attempt source request).1
        (((s.opening request.mode).startDebugger source request).attempt source request).2 :=
  rfl

/-- The source of a run. -/
def sourceFor (s : Session) (request : RunRequest) : SourceUnit :=
  match request.source with
  | some text => s.source.replace text (request.file.getD s.source.file)
  | none => s.source

/-- A run that is accepted is started with its source in place. -/
theorem run_eq {request : RunRequest} {p : Progress} (h : s.run request = .ok p) :
    p = { s with source := s.sourceFor request }.start (s.sourceFor request) request := by
  unfold run at h
  unfold sourceFor
  split at h
  · cases h
  · cases hs : request.source with
    | some text =>
      rw [hs] at h
      cases h
      rfl
    | none =>
      rw [hs] at h
      cases h
      rfl

/-- Without a run in flight a run is accepted. -/
theorem run_of_idle (h : s.flight = none) (request : RunRequest) : ∃ p, s.run request = .ok p := by
  unfold run
  rw [h]
  cases request.source with
  | some text => exact ⟨_, rfl⟩
  | none => exact ⟨_, rfl⟩

theorem idle_of_run {request : RunRequest} {p : Progress} (h : s.run request = .ok p) :
    s.flight = none := by
  cases hf : s.flight with
  | none => rfl
  | some f =>
    rw [run_busy hf] at h
    cases h

end Session
end Lispbox
