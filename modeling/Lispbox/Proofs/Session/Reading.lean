import Lispbox.Proofs.Session.Feeding
import Lispbox.Proofs.Session.Rebasing

/-!
# The lines that a script reads

The requests for lines are counted along the dialogue of the program, from its start to the place
where a run is (`Dialogue.Reads`): there the run waits, or there it is over (`Progress.IsAt`). Which
line answers which request is the business of the session, which has lines of the request at hand
and lines that are entered. The invariant of a run is that all of these, in order, are the answers
so far and what is left of the request (`Session.Reading`); a move that enters a line adds one
(`move_reading`).

* `attempt_reads`, `move_answered`: an attempt comes to a place of its dialogue, and what a move
  does to a run that waits there.
* `input_batched`: lines with the request, lines on demand, and any mixture of both.
-/
namespace Lispbox

/-- The answer to a question, other than for a line, if nobody stops the script. -/
inductive Query.Grants (files : List (String × String)) : (q : Query) → q.Answer → Prop where
  | poll : Grants files .poll ()
  | line (file : String) (n : Nat) : Grants files (.line file n) ()
  | emit (e : Event) : Grants files (.emit e) ()
  | sleep (duration : Nat) : Grants files (.sleep duration) ()
  | file (name : String) : Grants files (.readFile name) (files.lookup name)

/-- The dialogue comes to the later one, and on the way these requests for lines are answered with
these lines. -/
inductive Dialogue.Reads {ρ : Type} (files : List (String × String)) (d : Dialogue ρ) :
    List (String × String) → Dialogue ρ → Prop where
  | refl : Reads files d [] d
  | line {asked : List (String × String)} {m : Machine} {prompt : String}
    {resume : Except Signal String → Dialogue ρ}
    (h : Reads files d asked (.ask m (.input prompt) resume)) (line : String) :
    Reads files d (asked ++ [(prompt, line)]) (resume (.ok line))
  | granted {asked : List (String × String)} {m : Machine} {q : Query}
    {resume : Except Signal q.Answer → Dialogue ρ} (h : Reads files d asked (.ask m q resume))
    {a : q.Answer} (ha : q.Grants files a) : Reads files d asked (resume (.ok a))

theorem Dialogue.Reads.leads {ρ : Type} {files : List (String × String)} {d d' : Dialogue ρ}
    {asked : List (String × String)} (h : d.Reads files asked d') : d.Leads d' := by
  induction h with
  | refl => exact .refl
  | line h line ih => exact ih.reply line
  | granted h ha ih => exact ih.reply _

/-- A run whose dialogue has come to this place, and no further, is over with this. -/
inductive Dialogue.Concludes (file : String) (x : Explainer) :
    Dialogue (Except Exit Value) → Except RunFault Outcome → Prop where
  | done {r : Except Exit Value} {m : Machine} {o : Outcome}
    (ho : Outcome.ofEnd? file x (.ofResult (.ok r)) = some o) : Concludes file x (.done r m) (.ok o)
  | abort {a : Abort} {m : Machine} {o : Outcome}
    (ho : Outcome.ofEnd? file x (.ofResult (.error a)) = some o) :
    Concludes file x (.abort a m) (.ok o)
  | exhausted (m : Machine) : Concludes file x (.abort .exhausted m) (.error .exhausted)
  | unknownEvent {m : Machine} {e : Event} {u : UnknownEvent} (hu : Message.ofEvent e = .error u)
    (resume : Except Signal (Query.Answer (.emit e)) → Dialogue (Except Exit Value)) :
    Concludes file x (.ask m (.emit e) resume) (.error (.unknownEvent u))
  /-- A signal is given in place of the answer. -/
  | stopped {m m' : Machine} {q : Query} {sig : Signal} {o : Outcome}
    {resume : Except Signal q.Answer → Dialogue (Except Exit Value)}
    (hstop : resume (.error sig) = .done (.error (.stop sig)) m')
    (ho : Outcome.ofEnd? file x (.stopped sig) = some o) :
    Concludes file x (.ask m q resume) (.ok o)

/-- The run waits at this place of its dialogue, or it is over there. -/
inductive Progress.IsAt (file : String) (x : Explainer) (p : Progress) :
    Dialogue (Except Exit Value) → Prop where
  | waits {f : Flight} {m : Machine} {q : Query} {shown : Message}
    {resume : Except Signal q.Answer → Dialogue (Except Exit Value)} (hr : p.result = none)
    (hf : p.session.flight = some f) (hw : f.wait.IsFor q resume shown) :
    IsAt file x p (.ask m q resume)
  | ended {d : Dialogue (Except Exit Value)} {r : Except RunFault Outcome}
    (hr : p.result = some r) (hd : d.Concludes file x r) : IsAt file x p d

namespace Session

variable {s t : Session} {source : SourceUnit} {request : RunRequest} {program : Program}
  {registry : Registry} {files : List (String × String)} {stdin given : List String}
  {d₀ d : Dialogue (Except Exit Value)} {asked : List (String × String)}

/-! ## Conversations -/

/-- A question of a session that is not interrupted: a line is taken if one is there, and anything
else is granted, at once or after a wait. -/
inductive Attended (files : List (String × String)) (stdin : List String) :
    (q : Query) → Reaction q × Stage → Prop where
  | line {prompt line : String} {rest : List String} {s : Session} (hin : stdin = line :: rest)
    (hi : s.interrupted = false) :
    Attended files stdin (.input prompt) (.reply (.ok line), ⟨s, rest⟩)
  | granted {q : Query} {a : q.Answer} {s : Session} (ha : q.Grants files a)
    (hi : s.interrupted = false) : Attended files stdin q (.reply (.ok a), ⟨s, stdin⟩)
  | waits {q : Query} {w : (Except Signal q.Answer → Dialogue (Except Exit Value)) → Wait}
    {s : Session} (hw : ∀ resume, ∃ shown, (w resume).IsFor q resume shown)
    (hi : s.interrupted = false) (hin : ∀ prompt, q = .input prompt → stdin = []) :
    Attended files stdin q (.wait w, ⟨s, stdin⟩)
  | fault {e : Event} {u : UnknownEvent} {st : Stage} (hu : Message.ofEvent e = .error u) :
    Attended files stdin (.emit e) (.fault u, st)

theorem react_attended (debugging : Bool) (files : List (String × String))
    (hi : s.interrupted = false) (stdin : List String) (q : Query) :
    Attended files stdin q ((Stage.mk s stdin).react debugging files q) := by
  have hrunning : (s.interrupted && q.mayStop) = false := by rw [hi]; rfl
  unfold Stage.react
  rw [hrunning, if_neg Bool.false_ne_true]
  cases q with
  | poll => exact .granted .poll hi
  | readFile name => exact .granted (.file name) hi
  | line file n =>
    unfold Stage.attend
    cases debugging with
    | false => exact .granted (.line file n) hi
    | true =>
      dsimp only
      cases (s.debugger.reach file n).1 with
      | false => exact .granted (.line file n) hi
      | true =>
        have hadds := adds_pause (s := s) (s.debugger.reach file n).2 n
        exact .waits (fun _ => ⟨_, .debug⟩) (hadds.interrupted.trans hi) nofun
  | emit e =>
    dsimp only [Stage.attend]
    cases he : Message.ofEvent e with
    | error u =>
      rw [deliver_unknown he]
      exact .fault he
    | ok shown =>
      obtain ⟨hok, hadds⟩ := adds_deliver (s := s) he
      rw [hok]
      exact .granted (.emit e) (hadds.interrupted.trans hi)
  | input prompt =>
    have hadds := (adds_deliver (s := s) (e := .inputRequest prompt) rfl).2
    dsimp only [Stage.attend]
    cases stdin with
    | cons line rest => exact .line rfl (hadds.interrupted.trans hi)
    | nil =>
      have hsuspended := hadds.trans (adds_enter .suspended)
      exact .waits (fun _ => ⟨_, .input⟩) (hsuspended.interrupted.trans hi) fun _ _ => rfl
  | sleep duration =>
    have hadds := (adds_deliver (s := s) (e := .sleep duration) rfl).2
    dsimp only [Stage.attend]
    split
    · exact .waits (fun _ => ⟨_, .sleep⟩) (hadds.interrupted.trans hi) nofun
    · exact .granted (.sleep duration) (hadds.interrupted.trans hi)

/-- Where a conversation has come to from the start of the dialogue, and how it goes on from there:
it waits, or the run is over unless it is started again. -/
def ReadsTo (file : String) (x : Explainer) (files : List (String × String))
    (d₀ : Dialogue (Except Exit Value)) (given : List String) : Halt × Stage → Prop
  | (.waits w, st) => st.session.interrupted = false ∧ ∃ asked m q resume shown,
    d₀.Reads files asked (.ask m q resume) ∧ w.IsFor q resume shown ∧
      given = asked.map Prod.snd ++ st.stdin ∧ ∀ prompt, q = .input prompt → st.stdin = []
  | (.ends e, _) => ∃ asked left d e', d₀.Reads files asked d ∧
    given = asked.map Prod.snd ++ left ∧ AttemptEnd.ofRun? e' = some e ∧
      ∀ o, Outcome.ofEnd? file x e' = some o → d.Concludes file x (.ok o)
  | (.faults f, _) => ∃ asked left d, d₀.Reads files asked d ∧
    given = asked.map Prod.snd ++ left ∧ d.Concludes file x (.error f)

theorem haltOf_running {e : RunEnd} {a : AttemptEnd} (hi : s.interrupted = false)
    (ha : AttemptEnd.ofRun? e = some a) : s.haltOf e = .ends a := by
  unfold haltOf
  rw [ha, hi]
  rfl

/-- How far the dialogue is, and which lines are left. -/
def ReadsOn (files : List (String × String)) (d₀ : Dialogue (Except Exit Value))
    (given : List String) (d : Dialogue (Except Exit Value)) (st : Stage) : Prop :=
  st.session.interrupted = false ∧
    ∃ asked, d₀.Reads files asked d ∧ given = asked.map Prod.snd ++ st.stdin

theorem react_reads (debugging : Bool) (file : String) (x : Explainer) {m : Machine} {q : Query}
    {resume : Except Signal q.Answer → Dialogue (Except Exit Value)} {st : Stage}
    (h : ReadsOn files d₀ given (.ask m q resume) st) :
    Keeps (ReadsOn files d₀ given) (ReadsTo file x files d₀ given) resume
      (st.react debugging files q) := by
  obtain ⟨s, stdin⟩ := st
  obtain ⟨hi, asked, hreads, hgiven⟩ := h
  have hattended := react_attended debugging files hi stdin q
  generalize (Stage.mk s stdin).react debugging files q = r at hattended
  cases hattended with
  | @line prompt line rest s' hin hi' =>
    refine ⟨hi', asked ++ [(prompt, line)], hreads.line line, ?_⟩
    rw [hgiven, hin]
    simp
  | granted ha hi' => exact ⟨hi', asked, hreads.granted ha, hgiven⟩
  | waits hw hi' hin =>
    obtain ⟨shown, hfor⟩ := hw resume
    exact ⟨hi', asked, m, q, resume, shown, hreads, hfor, hgiven, hin⟩
  | fault hu => exact ⟨asked, stdin, _, hreads, hgiven, .unknownEvent hu resume⟩

theorem converse_reads (debugging : Bool) (file : String) (x : Explainer)
    (hreads : d₀.Reads files asked d) (hgiven : given = asked.map Prod.snd ++ stdin)
    (hi : s.interrupted = false) :
    ReadsTo file x files d₀ given (converse debugging files d ⟨s, stdin⟩) := by
  refine converse_induction (I := ReadsOn files d₀ given) ?_ ?_ (react_reads debugging file x)
    ⟨hi, asked, hreads, hgiven⟩
  · intro r m st ⟨hi, asked, hreads, hgiven⟩
    obtain ⟨a, ha⟩ : ∃ a, AttemptEnd.ofRun? (.ofResult (.ok r)) = some a := by
      match r with
      | .ok v => exact ⟨_, rfl⟩
      | .error (.leave v) => exact ⟨_, rfl⟩
      | .error (.raise e) => exact ⟨_, rfl⟩
      | .error (.stop .interrupt) => exact ⟨_, rfl⟩
      | .error (.stop .quit) => exact ⟨_, rfl⟩
    rw [haltOf_running hi ha]
    exact ⟨asked, st.stdin, _, _, hreads, hgiven, ha, fun o ho => .done ho⟩
  · intro a m st ⟨hi, asked, hreads, hgiven⟩
    cases a with
    | exhausted => exact ⟨asked, st.stdin, _, hreads, hgiven, .exhausted m⟩
    | crashed reason =>
      rw [haltOf_running hi rfl]
      exact ⟨asked, st.stdin, _, _, hreads, hgiven, rfl, fun o ho => .abort ho⟩

/-- A session with the settings and the files of an earlier one, and with these modules. -/
structure Equipped (s : Session) (registry : Registry) (t : Session) : Prop where
  setup : t.setup = s.setup
  files : t.files = s.files
  registry : t.registry = registry

theorem Equipped.unaided {u : Session} (h : s.Equipped registry t) (hu : t.Unaided u)
    (hf : u.files = t.files) : s.Equipped registry u :=
  ⟨hu.setup.trans h.setup, hf.trans h.files, hu.registry.trans h.registry⟩

/-- An attempt executes the program with the modules that are there. -/
theorem attempt_reads {u : Registry}
    (hc : compile source.text source.file s.setup.config.recursionLimit = .ok program)
    (he : s.Equipped u t) (hi : t.interrupted = false)
    (hregistry : (t.prefetch program).registry = registry) (request : RunRequest) :
    ReadsTo source.file s.setup.explainer s.files (s.dialogueOf program registry) request.stdin
        (t.attempt source request) ∧
      s.Equipped registry (t.attempt source request).2.session := by
  have hsetup : ((t.prefetch program).enter .running).setup = s.setup :=
    (works.running program).setup.trans he.setup
  have hfiles : ((t.prefetch program).enter .running).files = s.files :=
    (files_enter _).trans ((files_prefetch program).trans he.files)
  have hmodules : ((t.prefetch program).enter .running).registry = registry :=
    (registry_enter _).trans hregistry
  have hrunning : ((t.prefetch program).enter .running).interrupted = false :=
    (interrupted_enter _).trans ((interrupted_prefetch program).trans hi)
  have hattempt : t.attempt source request =
      converse (request.mode == .debug) s.files (s.dialogueOf program registry)
        ⟨(t.prefetch program).enter .running, request.stdin⟩ := by
    rw [← he.setup] at hc
    rw [attempt_of_ok hc, hfiles, hmodules, hsetup, he.setup]
    rfl
  rw [hattempt]
  refine ⟨converse_reads _ _ _ .refl rfl hrunning, ?_⟩
  exact Equipped.unaided ⟨hsetup, hfiles, hmodules⟩
    (unaided.converse _ _ _ ⟨_, request.stdin⟩) (files_converse _ _ _ ⟨_, request.stdin⟩)

/-- The first attempt of a run. -/
theorem launched_equipped (s : Session) (source : SourceUnit) (request : RunRequest) :
    s.Equipped s.registry (s.launched source request) :=
  ⟨(quiet_launched s source request).setup,
    (files_startDebugger source request).trans (files_opening request.mode),
    (registry_startDebugger source request).trans (registry_opening request.mode)⟩

theorem start_reads
    (hc : compile source.text source.file s.setup.config.recursionLimit = .ok program)
    (request : RunRequest) :
    ReadsTo source.file s.setup.explainer s.files
        (s.dialogueOf program (s.prefetch program).registry) request.stdin
        ((s.launched source request).attempt source request) ∧
      s.Equipped (s.prefetch program).registry
        ((s.launched source request).attempt source request).2.session ∧
      s.start source request = proceed source request s.files 1
        ((s.launched source request).attempt source request).1
        ((s.launched source request).attempt source request).2 := by
  have he := launched_equipped s source request
  have hi : (s.launched source request).interrupted = false :=
    (interrupted_startDebugger source request).trans (interrupted_enter .compiling)
  obtain ⟨hreads, hequipped⟩ :=
    attempt_reads hc he hi (registry_prefetch he.registry he.setup program) request
  refine ⟨hreads, hequipped, ?_⟩
  rw [start_eq, ← he.files]
  rfl

/-! ## Ends -/

/-- A run that is over with the end of its dialogue. -/
theorem finish_concludes {e' : RunEnd} {e : AttemptEnd} (ht : t.setup = s.setup)
    (he : AttemptEnd.ofRun? e' = some e)
    (hd : ∀ o, Outcome.ofEnd? source.file s.setup.explainer e' = some o →
      d.Concludes source.file s.setup.explainer (.ok o)) :
    ∃ r, (t.finish source e).result = some r ∧
      d.Concludes source.file s.setup.explainer r := by
  obtain ⟨o, last, ho, hr, -, -⟩ := finish_shows (s := t) source he
  rw [ht] at ho
  exact ⟨_, hr, hd o ho⟩

/-- A run that a signal ends at a question. -/
theorem stop_concludes {f : Flight} {m m' : Machine} {q : Query} {sig : Signal}
    {resume : Except Signal q.Answer → Dialogue (Except Exit Value)} (ht : t.setup = s.setup)
    (hstop : resume (.error sig) = .done (.error (.stop sig)) m')
    (hsig : t.interrupted = true → sig = .interrupt) :
    ∃ r, (t.resume f (resume (.error sig))).result = some r ∧
      (Dialogue.ask m q resume).Concludes f.source.file s.setup.explainer r := by
  have hend : AttemptEnd.ofRun? (.stopped sig) = some (endOf sig) := by cases sig <;> rfl
  rw [hstop, resume_stopped f m' hsig]
  exact finish_concludes ht hend fun o ho => .stopped hstop ho

/-! ## Answers -/

theorem takes_of_ignored {p : Progress} {v : Move} (h : p.heeds v = false) : p.takes v = [] := by
  unfold Progress.takes
  split
  · next hr hf =>
    simp [Progress.heeds, hr, hf, Wait.endsAt] at h
  · rfl

/-- Only a line that is entered counts. -/
theorem takes_of_other {p : Progress} {v : Move} (h : ∀ line, v ≠ .command (.input line)) :
    p.takes v = [] := by
  unfold Progress.takes
  split
  · exact absurd rfl (h _)
  · rfl

/-- What a move does to a run that waits at a question, and the lines that it enters: it is ignored,
it provides files, the run goes on after the answer, or a signal ends it. -/
inductive Answered (files : List (String × String)) (d₀ : Dialogue (Except Exit Value))
    (t : Session) (f : Flight) (asked : List (String × String)) {q : Query}
    (resume : Except Signal q.Answer → Dialogue (Except Exit Value)) :
    Move → List String → Progress → Prop where
  | ignored (v : Move) : Answered files d₀ t f asked resume v [] ⟨t, none⟩
  | files (provided : List (String × String)) :
    Answered files d₀ t f asked resume (.provideFiles provided) [] ⟨t.provideFiles provided, none⟩
  | line {prompt : String} (hq : q = .input prompt) {u : Session} (hu : t.Unaided u)
    (hfiles : u.files = t.files) (hi : u.interrupted = false) (line : String)
    {d : Dialogue (Except Exit Value)} (hreads : d₀.Reads files (asked ++ [(prompt, line)]) d) :
    Answered files d₀ t f asked resume (.command (.input line)) [line] (u.resume f d)
  | granted {v : Move} {u : Session} (hu : t.Unaided u) (hfiles : u.files = t.files)
    (hi : u.interrupted = false) {d : Dialogue (Except Exit Value)}
    (hreads : d₀.Reads files asked d) : Answered files d₀ t f asked resume v [] (u.resume f d)
  | stops {v : Move} {u : Session} {sig : Signal} {m : Machine} (hsetup : u.setup = t.setup)
    (hstop : resume (.error sig) = .done (.error (.stop sig)) m)
    (hsig : u.interrupted = true → sig = .interrupt) :
    Answered files d₀ t f asked resume v [] (u.resume f (resume (.error sig)))

theorem move_answered {f : Flight} {m : Machine} {q : Query} {shown : Message}
    {resume : Except Signal q.Answer → Dialogue (Except Exit Value)} (hd₀ : Executes s source d₀)
    (hf : t.flight = some f) (hi : t.interrupted = false)
    (hreads : d₀.Reads files asked (.ask m q resume)) (hw : f.wait.IsFor q resume shown)
    (v : Move) :
    Answered files d₀ t f asked resume v (Progress.takes ⟨t, none⟩ v)
      (Progress.move ⟨t, none⟩ v) := by
  have hrunning := unaided.enter (s := t) .running
  have hi' : (t.enter .running).interrupted = false := (interrupted_enter _).trans hi
  have hmoved := move_cases hf v
  obtain ⟨_, _, _, _, _, w⟩ := f
  generalize hp : Progress.move ⟨t, none⟩ v = p at hmoved
  cases hmoved with
  | ignored hheeds =>
    rw [takes_of_ignored hheeds]
    exact .ignored v
  | files provided =>
    rw [takes_of_other (fun _ hv => by cases hv)]
    exact .files provided
  | interrupt =>
    obtain ⟨m', hstop, -⟩ := hd₀.stop hreads.leads .interrupt
    rw [takes_of_other (fun _ hv => by cases hv), hw.interrupt]
    exact .stops (u := { t with interrupted := true }) rfl hstop fun _ => rfl
  | @line entered hwait line =>
    obtain rfl : w = .input entered := hwait
    have htakes : Progress.takes ⟨t, none⟩ (.command (.input line)) = [line] := by
      unfold Progress.takes
      rw [hf]
    rw [htakes]
    cases hw
    exact .line rfl hrunning (files_enter _) hi' line (hreads.line line)
  | elapse hwait =>
    rw [takes_of_other (fun _ hv => by cases hv)]
    obtain rfl : w = _ := hwait
    cases hw
    exact .granted (.refl t) rfl hi (hreads.granted (.sleep _))
  | @goOn _ hwait c debugger hc =>
    rw [takes_of_other (fun _ hv => by cases hv)]
    obtain rfl : w = _ := hwait
    cases hw
    exact .granted (u := { t.enter .running with debugger := debugger })
      (hrunning.trans (.of_eq rfl rfl rfl)) (files_enter .running) hi' (hreads.granted (.line _ _))
  | quit hwait =>
    rw [takes_of_other (fun _ hv => by cases hv)]
    obtain rfl : w = _ := hwait
    cases hw
    obtain ⟨m', hstop, -⟩ := hd₀.stop hreads.leads .quit
    refine .stops (u := { t.enter .running with debugger := .inactive }) hrunning.setup hstop
      fun ht => ?_
    cases hi'.symm.trans ht

/-! ## Runs -/

/-- How far a run has come in the dialogue, and which of the lines that it was given it has read. -/
inductive Reading (s : Session) (source : SourceUnit) (request : RunRequest)
    (d₀ : Dialogue (Except Exit Value)) (given : List String) : Progress → Prop where
  | waits {t : Session} {stdin : List String} {w : Wait} {asked : List (String × String)}
    {m : Machine} {q : Query} {resume : Except Signal q.Answer → Dialogue (Except Exit Value)}
    {shown : Message} (hf : t.flight = some ⟨source, request, 1, s.files, stdin, w⟩)
    (hs : s.Quiet t) (hi : t.interrupted = false)
    (hreads : d₀.Reads s.files asked (.ask m q resume)) (hw : w.IsFor q resume shown)
    (hgiven : given = asked.map Prod.snd ++ stdin)
    (hin : ∀ prompt, q = .input prompt → stdin = []) :
    Reading s source request d₀ given ⟨t, none⟩
  | ended {p : Progress} {r : Except RunFault Outcome} {asked : List (String × String)}
    {left : List String} {d : Dialogue (Except Exit Value)} (hr : p.result = some r)
    (hreads : d₀.Reads s.files asked d) (hd : d.Concludes source.file s.setup.explainer r)
    (hgiven : given = asked.map Prod.snd ++ left) : Reading s source request d₀ given p
  /-- It was started again. -/
  | again {p : Progress} {name : String} {m : Module}
    (hm : s.setup.resolver.resolve name = .ok m) (hg : s.Grows p.session)
    (hasked : .resolve name ∈ s.since p.session) : Reading s source request d₀ given p

theorem proceed_reading {halt : Halt} {st : Stage}
    (h : ReadsTo source.file s.setup.explainer s.files d₀ given (halt, st))
    (hs : s.Quiet st.session) :
    Reading s source request d₀ given (proceed source request s.files 1 halt st) := by
  cases halt with
  | waits w =>
    obtain ⟨hi, asked, m, q, resume, shown, hreads, hw, hgiven, hin⟩ := h
    exact .waits (t := { st.session with flight := _ }) rfl (hs.trans (.of_eq rfl rfl)) hi hreads hw
      hgiven hin
  | faults f =>
    obtain ⟨asked, left, d, hreads, hgiven, hd⟩ := h
    exact .ended rfl hreads hd hgiven
  | ends e =>
    obtain ⟨asked, left, d, e', hreads, hgiven, he', hd⟩ := h
    have finished {t : Session} (ht : t.setup = s.setup) :
        Reading s source request d₀ given (t.finish source e) := by
      obtain ⟨r, hr, hconcludes⟩ := finish_concludes (t := t) ht he' hd
      exact .ended hr hreads hconcludes hgiven
    rcases proceed_ends_cases e with hlast | ⟨e, name, rfl, he⟩
    · rw [hlast]
      exact finished hs.setup
    · cases hm : s.setup.resolver.resolve name with
      | ok m =>
        obtain ⟨hgrows, hasked⟩ := resolve_asked hs source request he s.files
        exact .again hm hgrows hasked
      | error err =>
        rw [proceed_of_unfound he (hs.setup ▸ hm)]
        exact finished ((works.installMissing name).setup.trans hs.setup)

theorem resume_reading (hs : s.Quiet t) (hi : t.interrupted = false)
    (hreads : d₀.Reads s.files asked d) (hgiven : given = asked.map Prod.snd ++ stdin) (w : Wait) :
    Reading s source request d₀ given (t.resume ⟨source, request, 1, s.files, stdin, w⟩ d) :=
  proceed_reading (converse_reads (request.mode == .debug) source.file s.setup.explainer hreads
    hgiven hi) (hs.trans (unaided.converse (request.mode == .debug) s.files d ⟨t, stdin⟩).quiet)

/-! ## Moves -/

theorem move_reading {p : Progress} (hd₀ : Executes s source d₀)
    (h : Reading s source request d₀ given p) (v : Move) :
    Reading s source request d₀ (given ++ p.takes v) (p.move v) := by
  cases h with
  | ended hr hreads hd hgiven =>
    rw [Progress.move_over hr v, Progress.takes_over hr v, List.append_nil]
    exact .ended hr hreads hd hgiven
  | again hm hg hasked =>
    have hgrows := (works.move p v).grows
    refine .again hm (hg.trans hgrows) ?_
    rw [hg.since hgrows]
    exact List.mem_append_left _ hasked
  | @waits t stdin w asked m q resume shown hf hs hi hreads hw hgiven hin =>
    have hanswered := move_answered hd₀ hf hi hreads hw v
    generalize Progress.takes ⟨t, none⟩ v = lines, Progress.move ⟨t, none⟩ v = p at hanswered ⊢
    cases hanswered with
    | ignored =>
      rw [List.append_nil]
      exact .waits hf hs hi hreads hw hgiven hin
    | files provided =>
      rw [List.append_nil]
      exact .waits (t := t.provideFiles provided) hf (hs.trans (.of_eq rfl rfl)) hi hreads hw hgiven
        hin
    | line hq hu hfiles hi line hreads =>
      obtain rfl : stdin = [] := hin _ hq
      refine resume_reading (hs.trans hu.quiet) hi hreads ?_ w
      rw [hgiven]
      simp
    | granted hu hfiles hi hreads =>
      rw [List.append_nil]
      exact resume_reading (hs.trans hu.quiet) hi hreads hgiven w
    | stops hsetup hstop hsig =>
      obtain ⟨r, hr, hd⟩ := stop_concludes (hsetup.trans hs.setup) hstop hsig
      rw [List.append_nil]
      exact .ended hr hreads hd hgiven

theorem play_reading {p : Progress} (hd₀ : Executes s source d₀)
    (h : Reading s source request d₀ given p) (vs : List Move) :
    Reading s source request d₀ (given ++ p.entered vs) (p.play vs) :=
  Progress.play_induction_entered (C := fun _ => True) (P := Reading s source request d₀)
    (fun v _ h => move_reading hd₀ h v) given h fun _ _ => trivial

/-! ## Whole runs -/

theorem start_reading
    (hc : compile source.text source.file s.setup.config.recursionLimit = .ok program)
    (request : RunRequest) :
    Reading s source request (s.dialogueOf program (s.prefetch program).registry) request.stdin
      (s.start source request) := by
  obtain ⟨hreads, -, hstart⟩ := start_reads hc request
  rw [hstart]
  exact proceed_reading hreads
    ((quiet_launched s source request).trans (quiet_attempt _ _ _))

/-- A run that was not started again is at a place of the dialogue, and the answers up to there are
the first of the lines that it was given. -/
theorem Reading.isAt {p : Progress} (h : Reading s source request d₀ given p)
    (hp : s.Unfound p.session) : ∃ asked d, d₀.Reads s.files asked d ∧
      p.IsAt source.file s.setup.explainer d ∧ asked.map Prod.snd <+: given := by
  cases h with
  | waits hf hs hi hreads hw hgiven hin =>
    exact ⟨_, _, hreads, .waits rfl hf hw, _, hgiven.symm⟩
  | ended hr hreads hd hgiven => exact ⟨_, _, hreads, .ended hr hd, _, hgiven.symm⟩
  | again hm hg hasked => exact absurd hasked (hp.unfound _ _ hm)

/-- Of two lists, one of which goes on where the other one ends, both have the same entries. -/
theorem getElem?_of_comparable {given lines : List String} {j : Nat} {line : String}
    (h : given <+: lines ∨ lines <+: given) (hline : given[j]? = some line)
    (hj : j < lines.length) : lines[j]? = some line := by
  rcases h with ⟨more, rfl⟩ | ⟨more, rfl⟩
  · obtain ⟨hlt, -⟩ := List.getElem?_eq_some_iff.mp hline
    rwa [List.getElem?_append_left hlt]
  · rwa [List.getElem?_append_left hj] at hline

/-- A run that is fed with the rest of the lines reads all of them in order. -/
theorem fed_in_order {few rest : List String} {p : Progress}
    (hc : compile source.text source.file s.setup.config.recursionLimit = .ok program)
    (hp : p = s.start source (request.withStdin few)) {vs : List Move}
    (hover : s.Unfound (p.play (p.feeding rest vs)).session) :
    ∃ asked d,
      (s.dialogueOf program (s.prefetch program).registry).Reads s.files asked d ∧
      (p.play (p.feeding rest vs)).IsAt source.file s.setup.explainer d ∧
      ∀ (j : Nat) prompt line, asked[j]? = some (prompt, line) → j < (few ++ rest).length →
        (few ++ rest)[j]? = some line := by
  have hreading := play_reading ⟨program, _, hc, rfl⟩
    (start_reading hc (request.withStdin few)) (p.feeding rest vs)
  rw [← hp] at hreading
  obtain ⟨asked, d, hreads, hat, hprefix⟩ := hreading.isAt hover
  refine ⟨asked, d, hreads, hat, fun j prompt line hasked hj => ?_⟩
  have hgiven : (few ++ p.entered (p.feeding rest vs))[j]? = some line := by
    obtain ⟨left, hleft⟩ := hprefix
    have hanswers : (asked.map Prod.snd)[j]? = some line := by
      rw [List.getElem?_map, hasked]
      rfl
    obtain ⟨hlt, -⟩ := List.getElem?_eq_some_iff.mp hanswers
    change ((request.withStdin few).stdin ++ p.entered (p.feeding rest vs))[j]? = some line
    rw [← hleft, List.getElem?_append_left hlt, hanswers]
  refine getElem?_of_comparable ?_ hgiven hj
  rw [List.prefix_append_right_inj, List.prefix_append_right_inj]
  exact p.entered_feeding rest vs

end Session

open Session in
/-- Of a request for a run it does not matter which of the lines come with it, as long as the others
are entered one by one whenever the run is suspended. Unless it is started again with a new module,
the run publishes the same and comes to the same as with all lines from the start, and as with none;
and the script reads the lines in order, in each of these runs. -/
theorem input_batched (s : Session) (request : RunRequest) (lines : List String) (k : Nat)
    (mixed : Progress) (hmixed : s.run (request.withStdin (lines.take k)) = .ok mixed)
    (vs : List Move)
    (hretry : ∀ name m,
      .resolve name ∈ s.since (mixed.play (mixed.feeding (lines.drop k) vs)).session →
      s.setup.resolver.resolve name ≠ .ok m) :
    ∃ batch interactive, s.run (request.withStdin lines) = .ok batch ∧
      s.run (request.withStdin []) = .ok interactive ∧
      let p := mixed.play (mixed.feeding (lines.drop k) vs)
      let b := batch.play vs
      let i := interactive.play (interactive.feeding lines vs)
      (p.result = b.result ∧ i.result = b.result) ∧
      (s.published p.session = s.published b.session ∧
        s.published i.session = s.published b.session) ∧
      ∀ program, compile (s.sourceFor request).text (s.sourceFor request).file
          s.setup.config.recursionLimit = .ok program →
        ∀ q ∈ [p, b, i], ∃ asked d,
          (s.dialogueOf program (s.prefetch program).registry).Reads s.files asked d ∧
          q.IsAt (s.sourceFor request).file s.setup.explainer d ∧
          ∀ (j : Nat) prompt line, asked[j]? = some (prompt, line) → j < lines.length →
            lines[j]? = some line := by
  have hidle := idle_of_run hmixed
  obtain ⟨batch, hbatch⟩ := run_of_idle hidle (request.withStdin lines)
  obtain ⟨interactive, hinteractive⟩ := run_of_idle hidle (request.withStdin [])
  refine ⟨batch, interactive, hbatch, hinteractive, ?_⟩
  intro p b i
  let s' : Session := { s with source := s.sourceFor request }
  have hsplit : lines.take k ++ lines.drop k = lines := List.take_append_drop k lines
  have hm : mixed = s'.start (s.sourceFor request) (request.withStdin (lines.take k)) :=
    run_eq hmixed
  have hb : batch = s'.start (s.sourceFor request) (request.withStdin lines) := run_eq hbatch
  have hi : interactive = s'.start (s.sourceFor request) (request.withStdin []) :=
    run_eq hinteractive
  have abreast {few rest : List String} (hlines : few ++ rest = lines) {q : Progress}
      (hq : q = s'.start (s.sourceFor request) (request.withStdin few)) :
      ∃ left, Abreast (s'.launched (s.sourceFor request) request) s' (s.sourceFor request) request
        few lines left (q.play (q.feeding rest vs)) b := by
    have htrails := start_trails s' (s.sourceFor request) request few rest
    rw [hlines, ← hq, ← hb] at htrails
    exact feeding_abreast htrails vs
  obtain ⟨_, hpb⟩ := abreast hsplit hm
  obtain ⟨_, hib⟩ := abreast (List.nil_append lines) hi
  rcases hpb.agree with ⟨hpr, hpm, hpu, hbu⟩ | ⟨name, m, hfound, hasked, -⟩
  · rcases hib.agree with ⟨hir, him, hiu, -⟩ | ⟨name, m, hfound, -, hasked⟩
    · refine ⟨⟨hpr, hir⟩, ⟨hpm, him⟩, fun program hc q hq => ?_⟩
      have hregistry : (s'.prefetch program).registry = (s.prefetch program).registry :=
        registry_prefetch (s := s) (t := s') rfl rfl program
      have hp := fed_in_order (s := s') hc hm hpu
      have hi := fed_in_order (s := s') hc hi hiu
      have hbu' : s'.Unfound (batch.play (batch.feeding [] vs)).session := by
        rw [Progress.feeding_nil]
        exact hbu
      have hb := fed_in_order (s := s') hc hb hbu'
      rw [hregistry] at hp hi hb
      rw [hsplit] at hp
      rw [List.nil_append] at hi
      rw [List.append_nil, Progress.feeding_nil] at hb
      simp only [List.mem_cons, List.not_mem_nil, or_false] at hq
      rcases hq with rfl | rfl | rfl
      · exact hp
      · exact hb
      · exact hi
    · exact absurd hasked (hbu.unfound name m hfound)
  · exact absurd hfound (hretry name m hasked)

namespace Batching

open RunClosing (session)

/-- Two lines are asked for. -/
def request : RunRequest := ⟨some "(input)(input)", none, .plain, [], []⟩

def lines : List String := ["a", "b"]

/-- The first line comes with the request, and the run waits for the other one. -/
def mixed : Progress :=
  { session with source := session.source.replace "(input)(input)" "main.scm" }.start
    (session.source.replace "(input)(input)" "main.scm") (request.withStdin (lines.take 1))

theorem input_batched_two : mixed.isSuspended = true ∧ ∃ batch interactive,
    session.run (request.withStdin lines) = .ok batch ∧
      session.run (request.withStdin []) = .ok interactive ∧
      (mixed.play (mixed.feeding (lines.drop 1) [])).result = (batch.play []).result ∧
      session.published (interactive.play (interactive.feeding lines [])).session =
        session.published (batch.play []).session := by
  have hsuspended : mixed.isSuspended = true := by decide +kernel
  obtain ⟨batch, interactive, hbatch, hinteractive, ⟨hresult, -⟩, ⟨-, hpublished⟩, -⟩ :=
    input_batched session request lines 1 mixed rfl [] fun name m _ => nofun
  exact ⟨hsuspended, batch, interactive, hbatch, hinteractive, hresult, hpublished⟩

end Batching
end Lispbox
