import Lispbox.Proofs.Session.Asking
import Lispbox.Proofs.Session.Consulted

/-!
# When the resolver is asked

What is known of a run at any time is `Session.Consulting`: what the resolver was asked so far, and
that the last attempt is the one that the run executes, unless a signal has stopped it. It holds
when the run is started, and each move of the user keeps it.

* `proceed_consulting`, `move_consulting`: what follows from the end of an attempt, and from a move.
* `signal_unaided`: a signal ends a run, and the resolver is not asked.
* `resolver_consulted`: what the resolver is asked in a run, and the modules afterwards.
-/
namespace Lispbox
namespace Session

variable {s₀ s s' : Session} {source : SourceUnit} {request : RunRequest} {p : Program}
  {more : Nat} {lines : List String} {log : List Notice} {rs : List Registry} {r : Registry}
  {a : Attempt} {name : String}

/-! ## The ends of attempts -/

/-- How far a run has come to which the lines were entered; it may have been stopped. -/
inductive Consulting (s₀ : Session) (source : SourceUnit) (request : RunRequest) (p : Program)
    (lines : List String) (isStopped : Prop) : Progress → Prop where
  | waits {s : Session} {more : Nat} {log : List Notice} {rs : List Registry} {a : Attempt}
    {stdin : List String} {w : Wait} {polls : Nat} {events : List LogEntry}
    (h : s₀.Tried request p more lines log rs a) (hs : s₀.Inquired log a.registry s)
    (hf : s.flight = some ⟨source, request, more, a.files, stdin, w⟩)
    (hw : Rests a.files (s₀.dialogueOf p a.registry) (request.stdin ++ a.entered) stdin polls events
      w) :
    Consulting s₀ source request p lines isStopped ⟨s, none⟩
  | ended {s : Session} {r : Except RunFault Outcome} {log : List Notice} {rs : List Registry}
    {a : Attempt} (h : s₀.Consulted request p lines log rs a) (hs : s₀.Inquired log a.registry s)
    (hr : s₀.Ends source request p a log r ∨ isStopped) :
    Consulting s₀ source request p lines isStopped ⟨s, some r⟩

theorem Consulting.mono {isStopped isStopped' : Prop} (h : isStopped → isStopped') {q : Progress}
    (hq : Consulting s₀ source request p lines isStopped q) :
    Consulting s₀ source request p lines isStopped' q := by
  cases hq with
  | waits ht hs hf hw => exact .waits ht hs hf hw
  | ended hc hs hr => exact .ended hc hs (hr.imp_right h)

variable {isStopped : Prop}

/-- An attempt that ends with an exception that names a module lacks the module. -/
theorem lacks_of_raised {e : Exception} (h : s₀.ending request p a = .ended (.raised e))
    (he : e.missingModule = some name) : s₀.Lacks request p a name :=
  ⟨e, h, he, raised_misses _ _ _ _ h⟩

/-- An exception that names a module is not one of a crash. -/
theorem raised_of_named {x : RunEnd} {e : Exception}
    (h : AttemptEnd.ofRun? x = some (.raised e)) (he : e.missingModule = some name) :
    x = .ended (.raised e) := by
  match x, h with
  | .ended (.raised _), rfl => rfl
  | .ended (.crashed _), rfl => cases he

/-- A run is finished as its last attempt has ended. -/
theorem finish_consulting (h : s₀.Consulted request p lines log rs a)
    (hs : s₀.Inquired log a.registry s) {e : AttemptEnd}
    (he : AttemptEnd.ofRun? (s₀.ending request p a) = some e)
    (hasked : (∃ name, s₀.Lacks request p a name) → ∃ name, .resolve name ∈ log) :
    Consulting s₀ source request p lines isStopped (s.finish source e) := by
  obtain ⟨o, last, ho, hr, -⟩ := finish_shows (s := s) source he
  have hfinished := hs.unaided (unaided.finish source e)
  have hends : s₀.Ends source request p a log (.ok o) := by
    rintro _ ⟨⟩
    rw [hs.setup] at ho
    exact ⟨ho, hasked⟩
  have hq : s.finish source e = ⟨(s.finish source e).session, some (.ok o)⟩ := by rw [← hr]
  rw [hq]
  exact .ended h hfinished (.inl hends)

/-- Where an attempt halts with its files, after which more attempts may follow. -/
def Halting (s₀ : Session) (request : RunRequest) (p : Program) (lines : List String)
    (more : Nat) (files : List (String × String)) (x : Halt × Stage) : Prop :=
  ∃ log rs a, s₀.Tried request p more lines log rs a ∧ files = a.files ∧
    s₀.Inquired log a.registry x.2.session ∧
    Lands a.files (s₀.dialogueOf p a.registry) (request.stdin ++ a.entered) x ∧
    ∀ e, x.1 = .ends (.raised e) → x.2.session.interrupted = false

/-- Only the first attempt is followed by another one. -/
theorem Tried.succ (h : s₀.Tried request p (more + 1) lines log rs a) :
    s₀.Tried request p 1 lines log rs a ∧ more = 0 := by
  cases h with
  | first h => exact ⟨.first h, rfl⟩

/-- The attempt lacked nothing, or the resolver was asked for what it lacked. -/
theorem Tried.asked (h : s₀.Tried request p more lines log rs a) {e : AttemptEnd}
    (he : AttemptEnd.ofRun? (s₀.ending request p a) = some e)
    (hlast : more = 0 ∨ ∀ x name, e = .raised x → x.missingModule ≠ some name)
    (hlacks : ∃ name, s₀.Lacks request p a name) : ∃ name, .resolve name ∈ log := by
  cases h with
  | @second _ _ _ _ _ name => exact ⟨name, by simp⟩
  | first h =>
    obtain ⟨name, x, hx, hmissing, -⟩ := hlacks
    rw [hx] at he
    cases he
    exact absurd hmissing (hlast.resolve_left Nat.one_ne_zero x name rfl)

/-- A run is started again with the module that it lacked. -/
theorem restarting_halting
    (hc : compile source.text source.file s₀.setup.config.recursionLimit = .ok p)
    (h : s₀.Tried request p 1 lines log rs a) (hs : s₀.Inquired log a.registry s)
    (hl : s₀.Lacks request p a name) {m : Module} (hm : s₀.setup.resolver.resolve name = .ok m)
    (hi : s.interrupted = false) :
    s₀.Halting request p lines 0 (s.restarting source request name).files
      ((s.restarting source request name).attempt source request) := by
  have hstarted := (installMissing_found hs hm).unaided (unaided.startDebugger source request)
  have hclear := (interrupted_restarting source request name).trans hi
  obtain ⟨asked, r', hprefetched, hinquired, hlands⟩ := attempt_lands hstarted hclear hc request
  have hsecond := Tried.second h hl hm hprefetched (s.restarting source request name).files []
  rw [List.append_nil] at hsecond
  rw [List.append_assoc] at hinquired
  rw [← List.append_nil request.stdin] at hlands
  exact ⟨_, _, _, hsecond, rfl, hinquired, hlands, fun e he => attempt_raised (Prod.ext he rfl)⟩

/-- Where an attempt halts. -/
theorem proceed_consulting
    (hc : compile source.text source.file s₀.setup.config.recursionLimit = .ok p)
    {files : List (String × String)} {halt : Halt} {st : Stage}
    (h : s₀.Halting request p lines more files (halt, st)) :
    Consulting s₀ source request p lines isStopped
      (proceed source request files more halt st) := by
  refine proceed_induction (A := s₀.Halting request p lines) ?_ ?_ ?_ ?_ ?_ h
  · rintro more files w st ⟨log, rs, a, h, rfl, hs, ⟨polls, events, hw⟩, -⟩
    exact .waits h (hs.unaided (.of_eq rfl rfl rfl)) rfl hw
  · rintro more files f st ⟨log, rs, a, h, -, hs, -⟩
    exact .ended (.tried h) (hs.unaided (unaided.fail f)) (.inl nofun)
  · rintro more files e st ⟨log, rs, a, h, -, hs, hl, -⟩ hlast
    exact finish_consulting (.tried h) hs hl (h.asked hl hlast)
  · rintro more files x name err st ⟨log, rs, a, h, -, hs, hl, -⟩ hx hm
    have hlacks := lacks_of_raised (raised_of_named hl hx) hx
    have herr : s₀.setup.resolver.resolve name = .error err := hs.setup ▸ hm
    exact finish_consulting (.failed h.succ.1 hlacks herr) (installMissing_refused hs herr) hl
      fun _ => ⟨name, by simp⟩
  · rintro more files x name m st ⟨log, rs, a, h, -, hs, hl, hi⟩ hx hm
    have hlacks := lacks_of_raised (raised_of_named hl hx) hx
    obtain ⟨hfirst, rfl⟩ := h.succ
    exact restarting_halting hc hfirst hs hlacks (hs.setup ▸ hm) (hi x rfl)

/-- An attempt goes on. -/
theorem resume_consulting
    (hc : compile source.text source.file s₀.setup.config.recursionLimit = .ok p)
    (h : s₀.Tried request p more lines log rs a) (hs : s₀.Inquired log a.registry s)
    {d : Dialogue (Except Exit Value)} {stdin : List String} {polls : Nat} {events : List LogEntry}
    (hr : Reaches a.files (s₀.dialogueOf p a.registry) (request.stdin ++ a.entered) d stdin polls
      events) (hi : s.interrupted = false) (w : Wait) :
    Consulting s₀ source request p lines isStopped
      (s.resume ⟨source, request, more, a.files, stdin, w⟩ d) := by
  have hreaches : Reaches a.files (s₀.dialogueOf p a.registry) (request.stdin ++ a.entered) d
    (Stage.mk s stdin).stdin polls events := hr
  have hinquired := hs.unaided (unaided.converse (request.mode == .debug) a.files d ⟨s, stdin⟩)
  exact proceed_consulting hc ⟨log, rs, a, h, rfl, hinquired, converse_lands _ hreaches hi,
    fun e he => converse_raised (Prod.ext he rfl)⟩

/-- A signal ends the wait of a run, and the run. -/
theorem stop_consulting (h : s₀.Tried request p more lines log rs a)
    (hs : s₀.Inquired log a.registry s) (hstopped : isStopped) (sig : Signal) :
    Consulting s₀ source request p lines isStopped (s.finish source (endOf sig)) := by
  have hfinished := hs.unaided (unaided.finish source (endOf sig))
  cases sig with
  | interrupt => exact .ended (.tried h) hfinished (.inr hstopped)
  | quit => exact .ended (.tried h) hfinished (.inr hstopped)

/-! ## Moves -/

/-- A run takes a line where it waits for one, and nothing else. -/
theorem takes_waiting {f : Flight} (hf : s.flight = some f) (v : Move)
    (h : ∀ resume line, f.wait = .input resume → v ≠ .command (.input line)) :
    Progress.takes ⟨s, none⟩ v = [] := by
  unfold Progress.takes
  split
  · next heq =>
    rw [hf] at heq
    cases heq
    exact absurd rfl (h _ _ rfl)
  · rfl

theorem move_consulting
    (hc : compile source.text source.file s₀.setup.config.recursionLimit = .ok p)
    {s₁ : Session} {q : Progress} (hattentive : Attentive s₁ source q)
    (h : Consulting s₀ source request p lines isStopped q) (v : Move) :
    Consulting s₀ source request p (lines ++ q.takes v) (isStopped ∨ q.Signals v) (q.move v) := by
  cases h with
  | @ended s r log rs a h hs hr =>
    rw [Progress.move_over rfl v, Progress.takes_over rfl v, List.append_nil]
    exact .ended h hs (hr.imp_right .inl)
  | @waits s more log rs a stdin w polls events h hs hf hw =>
    obtain ⟨-, hi, f, hf', hsource, d, m, q, resume, shown, earlier, hd, hleads, hfor, -⟩ :=
      hattentive rfl
    rw [hf] at hf'
    cases hf'
    have hrunning := hs.unaided (unaided.enter .running)
    have hclear : (s.enter .running).interrupted = false := (interrupted_enter _).trans hi
    have untaken {v : Move} (hv : ∀ line, v ≠ .command (.input line)) :
        lines ++ Progress.takes ⟨s, none⟩ v = lines := by
      rw [takes_waiting hf v fun _ line _ => hv line, List.append_nil]
    have stopped {t : Session} {sig : Signal} {v : Move} (hv : Progress.Signals ⟨s, none⟩ v)
        (ht : s.Unaided t) (hsig : t.interrupted = true → sig = .interrupt) :
        Consulting s₀ source request p lines (isStopped ∨ Progress.Signals ⟨s, none⟩ v)
          (t.resume ⟨source, request, more, a.files, stdin, w⟩ (resume (.error sig))) := by
      obtain ⟨m', hstop, -⟩ := hd.stop hleads sig
      rw [hstop, resume_stopped _ m' hsig]
      exact stop_consulting h (hs.unaided ht) (.inr hv) sig
    have hmoved := move_cases hf v
    generalize Progress.move ⟨s, none⟩ v = q' at hmoved
    cases hmoved with
    | ignored hheeds =>
      rw [takes_waiting hf v, List.append_nil]
      · exact .waits h hs hf hw
      · rintro resume line rfl rfl
        rw [heeds_waiting hf] at hheeds
        cases hheeds
    | files files =>
      rw [untaken (by simp)]
      exact .waits (s := s.provideFiles files) h (hs.unaided (.of_eq rfl rfl rfl)) hf hw
    | interrupt =>
      rw [untaken (by simp), hfor.interrupt]
      exact stopped ⟨rfl, .inl rfl⟩ (.of_eq rfl rfl rfl) fun _ => rfl
    | quit hfw =>
      obtain rfl : w = .debug _ := hfw
      cases hfor
      rw [untaken (by simp)]
      have hpaused : Progress.isPaused ⟨s, none⟩ = true := by
        unfold Progress.isPaused
        rw [hf]
      refine stopped ⟨rfl, .inr ⟨rfl, hpaused⟩⟩ ((unaided.enter .running).trans ?_) fun ht => ?_
      · exact .of_eq rfl rfl rfl
      · cases hclear.symm.trans ht
    | elapse hfw =>
      obtain rfl : w = .sleep _ _ := hfw
      rw [untaken (by simp)]
      exact resume_consulting hc h hs hw hi _
    | goOn hfw hcommand =>
      obtain rfl : w = .debug _ := hfw
      rw [untaken (by simp)]
      refine resume_consulting hc h (hrunning.unaided ?_) hw ?_ _
      · exact .of_eq rfl rfl rfl
      · exact hclear
    | line hfw line =>
      obtain rfl : w = .input _ := hfw
      obtain ⟨rfl, hw⟩ := hw
      have htakes : Progress.takes ⟨s, none⟩ (.command (.input line)) = [line] := by
        unfold Progress.takes
        rw [hf]
      have hnext := hw line
      rw [List.append_assoc] at hnext
      rw [htakes]
      exact resume_consulting hc (h.enter [line]) hrunning hnext hclear _

theorem play_consulting
    (hc : compile source.text source.file s₀.setup.config.recursionLimit = .ok p)
    {s₁ : Session} {q : Progress} (hattentive : Attentive s₁ source q)
    (h : Consulting s₀ source request p lines isStopped q) (vs : List Move) :
    Consulting s₀ source request p (lines ++ q.entered vs) (isStopped ∨ q.IsStopped vs)
      (q.play vs) := by
  induction vs generalizing q lines isStopped with
  | nil =>
    rw [Progress.entered, List.append_nil]
    exact h.mono .inl
  | cons v vs ih =>
    rw [Progress.entered, ← List.append_assoc]
    refine (ih (move_attentive v hattentive) (move_consulting hc hattentive h v)).mono ?_
    rintro ((h | h) | ⟨us, v', ws, rfl, h⟩)
    · exact .inl h
    · exact .inr ⟨[], v, vs, rfl, h⟩
    · exact .inr ⟨v :: us, v', ws, rfl, h⟩

theorem start_consulting
    (hc : compile source.text source.file s₀.setup.config.recursionLimit = .ok p)
    (hs : s₀.Inquired [] s₀.registry s) (hfiles : s.files = s₀.files) (request : RunRequest) :
    Consulting s₀ source request p [] False (s.start source request) := by
  have hopened := (hs.unaided (unaided.opening request.mode)).unaided
    (unaided.startDebugger source request)
  have hclear : ((s.opening request.mode).startDebugger source request).interrupted = false := by
    rw [interrupted_startDebugger]
    exact interrupted_enter .compiling
  have hsame : ((s.opening request.mode).startDebugger source request).files = s₀.files := by
    rw [files_startDebugger, files_opening, hfiles]
  obtain ⟨asked, r, hprefetched, hinquired, hlands⟩ := attempt_lands hopened hclear hc request
  have hfirst : s₀.Tried request p 1 [] asked [s₀.registry, r] ⟨r, s₀.files, []⟩ :=
    .first hprefetched
  rw [hsame] at hlands
  rw [start_eq, hsame]
  rw [← List.append_nil request.stdin] at hlands
  exact proceed_consulting hc ⟨_, _, _, hfirst, rfl, hinquired, hlands,
    fun e he => attempt_raised (Prod.ext he rfl)⟩

/-! ## Signals -/

/-- A signal ends a run without the resolver. -/
theorem signal_unaided {s₁ : Session} {q : Progress} (hattentive : Attentive s₁ source q) {v : Move}
    (hv : q.Signals v) : q.session.Unaided (q.move v).session ∧ (q.move v).result ≠ none := by
  obtain ⟨s, result⟩ := q
  obtain ⟨hnone, hv⟩ := hv
  obtain rfl : result = none := hnone
  obtain ⟨-, hi, f, hf, -, d, m, q, resume, shown, earlier, hd, hleads, hfor, -⟩ := hattentive rfl
  rcases hv with rfl | ⟨rfl, hpaused⟩
  · obtain ⟨m', hstop, -⟩ := hd.stop hleads .interrupt
    rw [move_interrupt_finish hf hfor hstop]
    have hflagged : s.Unaided { s with interrupted := true } := .of_eq rfl rfl rfl
    exact ⟨hflagged.trans (unaided.finish _ _), nofun⟩
  · obtain ⟨m', hstop, -⟩ := hd.stop hleads .quit
    obtain ⟨paused, hfw⟩ := wait_of_isPaused hf hpaused
    rw [move_quit_finish hf hfw hi (hfw ▸ hfor) hstop]
    have hstopped : (s.enter .running).Unaided
        { s.enter .running with debugger := .inactive } := .of_eq rfl rfl rfl
    exact ⟨((unaided.enter .running).trans hstopped).trans (unaided.finish _ _), nofun⟩

/-- What is done in a run is added to what was done before. -/
theorem run_grows {q : Progress} (hq : s.run request = .ok q) : s.Grows q.session := by
  rw [run_eq hq]
  exact (works.start { s with source := s.sourceFor request } _ request).grows

/-- What is known of a run whose source compiles. -/
theorem Consulting.account {source : SourceUnit} {q : Progress}
    {isStopped : Prop} (h : Consulting s source request p lines isStopped q) :
    ∃ log rs last, s.Consulted request p lines log rs last ∧ s.consultations q.session = log ∧
      q.session.registry = last.registry ∧ s.Executed source request p last log isStopped q := by
  cases h with
  | waits h hs hf hw =>
    refine ⟨_, _, _, .tried h, hs.asked, hs.registry, fun _ => ?_, nofun⟩
    exact ⟨_, _, _, _, _, hf, hw⟩
  | ended h hs hr =>
    refine ⟨_, _, _, h, hs.asked, hs.registry, nofun, ?_⟩
    rintro _ ⟨⟩
    exact hr

end Session

open Session in
/-- Whatever is requested, whatever the resolver finds, and however the run is moved on: a source
that does not compile leads to no question to the resolver. Otherwise the resolver is asked ahead of
an attempt for the modules that the source imports and that are not installed, if there are any; and
it is asked for one more, if the first attempt ends with an exception that an import of this module
has raised and that nothing has caught. If the resolver has it, there is a second attempt, which is
the last one, however it ends. The modules afterwards are those before, with the ones that were
found; and if the resolver gives modules their names, no module is replaced. After a signal the
resolver is not asked. That only imports raise exceptions about missing modules is a property of
the native functions and of the supplied ones, which are those of `Supply.probe` here. -/
theorem resolver_consulted (s : Session) (request : RunRequest) (p : Progress)
    (hp : s.run request = .ok p) (vs : List Move) :
    let source := s.sourceFor request
    let limit := s.setup.config.recursionLimit
    let q := p.play vs
    ((∃ e, compile source.text source.file limit = .error e ∧ s.consultations q.session = [] ∧
        q.session.registry = s.registry) ∨
      ∃ program log rs last, compile source.text source.file limit = .ok program ∧
        s.Consulted request program (p.entered vs) log rs last ∧
        s.consultations q.session = log ∧ q.session.registry = last.registry ∧
        s.Executed source request program last log (p.IsStopped vs) q ∧
        (s.setup.resolver.IsFaithful → rs.Pairwise Registry.Retains)) ∧
    ∀ us v ws, vs = us ++ v :: ws → (p.play us).Signals v →
      s.consultations q.session = s.consultations (p.play us).session ∧
        q.session.registry = (p.play us).session.registry := by
  intro source limit q
  have hattentive := start_attentive { s with source := source } source request
  rw [← run_eq hp] at hattentive
  have hsourced : s.Unaided { s with source := source } := .of_eq rfl rfl rfl
  have hstart : s.Inquired [] s.registry { s with source := source } :=
    ⟨hsourced.grows, rfl, hsourced.unasked, rfl⟩
  constructor
  · cases hc : compile source.text source.file limit with
    | error e =>
      have hclosed : Session.start { s with source := source } source request = _ :=
        start_compileFailed hc
      rw [← run_eq hp] at hclosed
      have hunaided : s.Unaided p.session := by
        rw [hclosed]
        have hopened := (unaided.opening (s := { s with source := source }) request.mode).trans
          (unaided.startDebugger source request)
        exact (hsourced.trans hopened).trans (unaided.finish source (.compileFailed e))
      have hq : q = p := Progress.play_over (by rw [hclosed]; rfl) vs
      rw [hq]
      exact .inl ⟨e, rfl, hunaided.unasked, hunaided.registry⟩
    | ok program =>
      have hbegun := start_consulting hc hstart rfl request
      rw [← run_eq hp] at hbegun
      have hconsulting := (play_consulting hc hattentive hbegun vs).mono fun h => h.resolve_left id
      obtain ⟨log, rs, last, hconsulted, hlog, hregistry, hin⟩ := hconsulting.account
      exact .inr ⟨program, log, rs, last, rfl, hconsulted, hlog, hregistry, hin, hconsulted.retains⟩
  · rintro us v ws rfl hv
    obtain ⟨hunaided, hover⟩ := signal_unaided (play_attentive hattentive us) hv
    obtain ⟨r, hr⟩ := Option.ne_none_iff_exists'.mp hover
    have hq : q = (p.play us).move v := by
      rw [← Progress.play_over hr ws]
      exact Progress.play_append p us (v :: ws)
    have hgrows := (run_grows hp).trans (works.play p us).grows
    rw [hq, hgrows.consultations hunaided.grows, hunaided.unasked, List.append_nil]
    exact ⟨rfl, hunaided.registry⟩

namespace Resolving

/-- The resolver has one module, and finds nothing ahead of a run. -/
def resolver : Resolver :=
  ⟨fun name => if name = "m" then .ok ⟨"m", .native []⟩ else .error (.notFound name), fun _ => []⟩

theorem resolver_isFaithful : resolver.IsFaithful where
  resolve name m h := by
    simp only [resolver] at h
    split at h
    · next hname =>
      cases h
      exact hname.symm
    · cases h
  prefetch _ _ hm := by cases hm

def session : Session :=
  .idle ⟨RunClosing.session.setup.config, resolver, RunClosing.session.setup.explainer, 9⟩ .standard

def source : String := "(import m)(input)"

def request : RunRequest := ⟨some source, none, .plain, [], []⟩

/-- The run was started again, and waits for a line. -/
def waiting : Progress :=
  { session with source := session.source.replace source "main.scm" }.start
    (session.source.replace source "main.scm") request

def asked : List Notice := [.prefetch ["m"], .resolve "m"]

/-- The second attempt does not lack the module any more, and an interrupt of it asks for none. -/
theorem resolver_consulted_twice :
    (∃ program rs last, session.Consulted request program [] asked rs last ∧
      waiting.session.registry = last.registry ∧ rs.Pairwise Registry.Retains) ∧
    session.consultations (waiting.play [.command .interrupt]).session = asked := by
  have hasked : session.consultations waiting.session = asked := by decide +kernel
  have hwaits : waiting.result = none := Option.isNone_iff_eq_none.mp (by decide +kernel)
  have hok : (compile (session.sourceFor request).text (session.sourceFor request).file
      session.setup.config.recursionLimit).isOk = true := by decide +kernel
  constructor
  · obtain ⟨hconsulted, -⟩ := resolver_consulted session request waiting rfl []
    rw [Progress.play_nil] at hconsulted
    rcases hconsulted with ⟨e, he, -⟩ | ⟨program, log, rs, last, -, h, hlog, hregistry, -, hretains⟩
    · rw [he] at hok
      cases hok
    · rw [hasked] at hlog
      subst hlog
      exact ⟨program, rs, last, h, hregistry, hretains resolver_isFaithful⟩
  · have hsignals : (waiting.play []).Signals (.command .interrupt) := by
      rw [Progress.play_nil]
      exact ⟨hwaits, .inl rfl⟩
    obtain ⟨-, hsignal⟩ :=
      resolver_consulted session request waiting rfl [.command .interrupt]
    obtain ⟨hsame, -⟩ := hsignal [] (.command .interrupt) [] rfl hsignals
    rw [hsame, Progress.play_nil]
    exact hasked

end Resolving
end Lispbox
