import Lispbox.Proofs.Session.Asking

/-!
# Runs that are started again

Where a run is started again, nothing of the first attempt is left but the installed module: the
second attempt shows what a new run of another session shows that has the same source, modules and
files, and does not ask its own resolver for a module.

The two runs are `Twin` sessions: they agree in all that an attempt depends on, and they have
published the same, `start` of the new run aside. They part only where the new run ends for want of
a module once more: it asks its resolver, and the run that was started again is over (`Twins`).

* `converse_twin`, `attempt_twin`: conversations and attempts of twins.
* `move_twin`: a move of both runs.
* `retry_fresh`: the second attempt beside a new run.
-/
namespace Lispbox

/-- The settings agree, and so do the resolvers in what they find ahead of a run. -/
structure Setup.Agrees (a b : Setup) : Prop where
  config : b.config = a.config
  explainer : b.explainer = a.explainer
  fuel : b.fuel = a.fuel
  prefetch : b.resolver.prefetch = a.resolver.prefetch

namespace Session

variable {source v : SourceUnit} {request : RunRequest}

/-! ## Twins -/

/-- The session `x`, from `t` on, and a new run in the session `y`, from `u` on, have everything in
common that an attempt depends on, and published the same, `start` aside. -/
structure Twin (t u : Session) (mode : RunMode) (x y : Session) : Prop where
  setup : x.setup.Agrees y.setup
  registry : y.registry = x.registry
  files : y.files = x.files
  interrupted : y.interrupted = x.interrupted
  debugger : mode = .debug → y.debugger = x.debugger
  messages : ∃ ms, t.Published x ms ∧ u.Published y (ms ++ [.start mode])

variable {t u x y x' y' : Session} {mode : RunMode} {ms : List Message}

/-- Both publish the same. -/
theorem Twin.adds (h : Twin t u mode x y) (hx : Adds ms x x') (hy : Adds ms y y')
    (hd : mode = .debug → y'.debugger = x'.debugger) : Twin t u mode x' y' where
  setup := by
    rw [hx.setup, hy.setup]
    exact h.setup
  registry := by rw [hx.registry, hy.registry, h.registry]
  files := by rw [hx.files, hy.files, h.files]
  interrupted := by rw [hx.interrupted, hy.interrupted, h.interrupted]
  debugger := hd
  messages := by
    obtain ⟨ms₀, hx₀, hy₀⟩ := h.messages
    refine ⟨ms ++ ms₀, hx₀.trans hx.published, ?_⟩
    rw [List.append_assoc]
    exact hy₀.trans hy.published

theorem Twin.enter (h : Twin t u mode x y) (a b : ExecutionState) :
    Twin t u mode (x.enter a) (y.enter b) :=
  h.adds (adds_enter a) (adds_enter b) fun hmode => by
    rw [debugger_enter, debugger_enter, h.debugger hmode]

theorem Twin.publish (h : Twin t u mode x y) (m : Message) :
    Twin t u mode (x.publish m) (y.publish m) :=
  h.adds (adds_publish m) (adds_publish m) h.debugger

theorem Twin.interrupt (h : Twin t u mode x y) (b : Bool) :
    Twin t u mode { x with interrupted := b } { y with interrupted := b } :=
  ⟨h.setup, h.registry, h.files, rfl, h.debugger, h.messages⟩

theorem Twin.withDebuggers (h : Twin t u mode x y) {d d' : Debugger} (hd : mode = .debug → d' = d) :
    Twin t u mode { x with debugger := d } { y with debugger := d' } :=
  ⟨h.setup, h.registry, h.files, h.interrupted, hd, h.messages⟩

theorem Twin.deliver (h : Twin t u mode x y) (e : Event) :
    (y.deliver e).1 = (x.deliver e).1 ∧ Twin t u mode (x.deliver e).2 (y.deliver e).2 := by
  unfold Session.deliver
  split
  · exact ⟨rfl, h.publish _⟩
  · exact ⟨rfl, h⟩
  · exact ⟨rfl, (h.interrupt true).publish _⟩

/-! ## Conversations -/

/-- The stages of two attempts. -/
structure TwinStages (t u : Session) (mode : RunMode) (a b : Stage) : Prop where
  session : Twin t u mode a.session b.session
  stdin : b.stdin = a.stdin

variable {a b : Stage}

theorem attend_twin (h : TwinStages t u mode a b) (files : List (String × String)) (q : Query) :
    (b.attend (mode == .debug) files q).1 = (a.attend (mode == .debug) files q).1 ∧
      TwinStages t u mode (a.attend (mode == .debug) files q).2
        (b.attend (mode == .debug) files q).2 := by
  obtain ⟨x, lines⟩ := a
  obtain ⟨y, stdin⟩ := b
  obtain ⟨h, hstdin⟩ := h
  obtain rfl : stdin = lines := hstdin
  cases q with
  | poll => exact ⟨rfl, h, rfl⟩
  | readFile name => exact ⟨rfl, h, rfl⟩
  | line file n =>
    cases mode with
    | plain => exact ⟨rfl, h, rfl⟩
    | debug =>
      have hd : y.debugger = x.debugger := h.debugger rfl
      cases hr : x.debugger.reach file n with
      | mk paused d =>
        have hreached : Twin t u .debug { x with debugger := d } { y with debugger := d } :=
          h.withDebuggers fun _ => rfl
        simp only [Stage.attend, hd, hr, BEq.rfl, Bool.not_true, Bool.false_eq_true, if_false]
        cases paused with
        | false => exact ⟨rfl, hreached, rfl⟩
        | true => exact ⟨rfl, (hreached.deliver (.debugPause n)).2.enter _ _, rfl⟩
  | emit e =>
    obtain ⟨hsame, hout⟩ := h.deliver e
    cases hx : x.deliver e with
    | mk r x' =>
      cases hy : y.deliver e with
      | mk r' y' =>
        rw [hx, hy] at hsame hout
        obtain rfl : r' = r := hsame
        simp only [Stage.attend, hx, hy]
        cases r' <;> exact ⟨rfl, hout, rfl⟩
  | input prompt =>
    have hasked := (h.deliver (.inputRequest prompt)).2
    cases stdin with
    | nil => exact ⟨rfl, hasked.enter _ _, rfl⟩
    | cons line rest => exact ⟨rfl, hasked, rfl⟩
  | sleep duration =>
    have hasked := (h.deliver (.sleep duration)).2
    dsimp only [Stage.attend]
    rw [hasked.setup.config]
    split
    · exact ⟨rfl, hasked, rfl⟩
    · exact ⟨rfl, hasked, rfl⟩

theorem react_twin (h : TwinStages t u mode a b) (files : List (String × String)) (q : Query) :
    (b.react (mode == .debug) files q).1 = (a.react (mode == .debug) files q).1 ∧
      TwinStages t u mode (a.react (mode == .debug) files q).2
        (b.react (mode == .debug) files q).2 := by
  unfold Stage.react
  rw [h.session.interrupted]
  split
  · exact ⟨rfl, h⟩
  · exact attend_twin h files q

theorem converse_twin (h : TwinStages t u mode a b) (files : List (String × String))
    (d : Dialogue (Except Exit Value)) :
    (converse (mode == .debug) files d b).1 = (converse (mode == .debug) files d a).1 ∧
      TwinStages t u mode (converse (mode == .debug) files d a).2
        (converse (mode == .debug) files d b).2 := by
  refine converse_congr (fun e h => ?_) (fun q h => react_twin h files q) d h
  unfold haltOf
  rw [h.session.interrupted]

/-! ## Attempts -/

theorem Twin.installFound (h : Twin t u mode x y) (modules : List Module) :
    Twin t u mode (x.installFound modules) (y.installFound modules) := by
  have hinstalled : Twin t u mode
      { x with registry := modules.foldl Registry.install x.registry }
      { y with registry := modules.foldl Registry.install y.registry } :=
    ⟨h.setup, by rw [h.registry], h.files, h.interrupted, h.debugger, h.messages⟩
  exact hinstalled.publish _

theorem Twin.prefetch (h : Twin t u mode x y) (p : Program) :
    Twin t u mode (x.prefetch p) (y.prefetch p) := by
  have habsent : y.absent p = x.absent p := by
    rw [absent, absent, h.registry]
  have hnoted : Twin t u mode (x.note (.prefetch (x.absent p))) (y.note (.prefetch (x.absent p))) :=
    h.adds (adds_note _) (adds_note _) h.debugger
  rw [prefetch_eq, prefetch_eq, habsent, h.setup.prefetch]
  split
  · exact h
  · split
    · exact hnoted
    · exact hnoted.installFound _

/-- The text and the file of a source are all that an attempt looks at. -/
theorem attempt_twin (h : Twin t u mode x y) (htext : v.text = source.text)
    (hfile : v.file = source.file) (hmode : request.mode = mode) :
    (y.attempt v request).1 = (x.attempt source request).1 ∧
      TwinStages t u mode (x.attempt source request).2 (y.attempt v request).2 := by
  have hlimit : y.setup.config.recursionLimit = x.setup.config.recursionLimit := by
    rw [h.setup.config]
  cases hc : compile source.text source.file x.setup.config.recursionLimit with
  | error e =>
    rw [attempt_of_error hc]
    rw [← htext, ← hfile, ← hlimit] at hc
    rw [attempt_of_error hc]
    exact ⟨rfl, h, rfl⟩
  | ok p =>
    have hrunning := (h.prefetch p).enter .running .running
    rw [attempt_of_ok hc]
    rw [← htext, ← hfile, ← hlimit] at hc
    rw [attempt_of_ok hc, hrunning.registry, hrunning.setup.fuel, hrunning.files, hlimit, hmode]
    exact converse_twin (a := ⟨_, request.stdin⟩) (b := ⟨_, request.stdin⟩) ⟨hrunning, rfl⟩ _ _

/-! ## Two runs -/

/-- The second attempt of a run, and a new run in the session `u`. -/
inductive Twins (t u : Session) (source v : SourceUnit) (request : RunRequest) :
    Progress → Progress → Prop where
  | waits {x y : Session} (h : Twin t u request.mode x y) (hu : u.Quiet y)
    {files : List (String × String)} {stdin : List String} {w : Wait}
    (hx : x.flight = some ⟨source, request, 0, files, stdin, w⟩)
    (hy : y.flight = some ⟨v, request, 1, files, stdin, w⟩) :
    Twins t u source v request ⟨x, none⟩ ⟨y, none⟩
  | ended {x y : Session} {r : Except RunFault Outcome} {ms : List Message}
    (hx : t.Published x ms) (hy : u.Published y (ms ++ [.start request.mode])) (hu : u.Quiet y) :
    Twins t u source v request ⟨x, some r⟩ ⟨y, some r⟩
  /-- The new run asks its resolver for a module, and the other one is over. -/
  | parted {x : Session} {py : Progress} {e : Exception} {name : String} {ms : List Message}
    (he : e.missingModule = some name)
    (hx : t.Published x (.explanation (e.explain source.file u.setup.explainer) :: ms))
    (hasked : .resolve name ∈ u.since py.session)
    (hy : .start request.mode :: ms.reverse ++ [.loading [name] .loading] <+:
      u.published py.session) (hu : u.Grows py.session) :
    Twins t u source v request
      ⟨x, some (.ok (.failed (e.explain source.file u.setup.explainer)))⟩ py

theorem close_twin (h : Twin t u request.mode x y) (hu : u.Quiet y) (m : Message)
    (next : ExecutionState) (o : Outcome) :
    Twins t u source v request (x.close m next o) (y.close m next o) := by
  obtain ⟨ms, hx, hy⟩ := ((h.publish m).enter next next).messages
  have hclosed := (quiet_publish m).trans (quiet_enter (s := y.publish m) next)
  exact .ended hx hy (hu.trans (hclosed.trans (.of_eq rfl rfl)))

theorem finish_twin (h : Twin t u request.mode x y) (hu : u.Quiet y) (hfile : v.file = source.file)
    (e : AttemptEnd) : Twins t u source v request (x.finish source e) (y.finish v e) := by
  cases e with
  | raised e =>
    simp only [finish, hfile, h.setup.explainer]
    exact close_twin h hu _ _ _
  | compileFailed e => exact close_twin h hu _ _ _
  | completed v => exact close_twin h hu _ _ _
  | interrupted => exact close_twin h hu _ _ _
  | quit => exact close_twin h hu _ _ _

theorem fail_twin (h : Twin t u request.mode x y) (hu : u.Quiet y) (f : RunFault) :
    Twins t u source v request (x.fail f) (y.fail f) := by
  obtain ⟨ms, hx, hy⟩ := (h.enter .errored .errored).messages
  exact .ended hx hy (hu.trans (unaided.fail f).quiet)

/-- A first attempt that ends for want of a module is followed by the question to the resolver. -/
theorem asking_grows (source : SourceUnit) (request : RunRequest) {e : Exception}
    {name : String} (he : e.missingModule = some name)
    (files : List (String × String)) (st : Stage) :
    (st.session.asking name).Grows
      (proceed source request files 1 (.ends (.raised e)) st).session := by
  cases hm : st.session.setup.resolver.resolve name with
  | error err =>
    rw [proceed_of_unfound he hm, installMissing_of_error hm]
    exact (grows_note _).trans (works.finish source _).grows
  | ok m =>
    have hinstalled : (st.session.asking name).Grows (st.session.installMissing name).2 := by
      rw [installMissing_of_ok hm]
      exact grows_note (s := { st.session.asking name with registry := _ }) _
    rw [proceed_of_found he hm]
    exact hinstalled.trans (works.trans (works.startDebugger source request)
      (works.trans (works.attempt _ source request) (works.proceed _ _ _ _ _ _))).grows

/-- The two runs part. -/
theorem parted_twin (h : Twin t u request.mode a.session b.session) (hu : u.Quiet b.session)
    {e : Exception} {name : String} (he : e.missingModule = some name)
    (files : List (String × String)) :
    Twins t u source v request (a.session.finish source (.raised e))
      (proceed v request files 1 (.ends (.raised e)) b) := by
  have hexplainer : a.session.setup.explainer = u.setup.explainer := by
    rw [← hu.setup, h.setup.explainer]
  have hgrows := asking_grows v request he files b
  have hasking : u.Grows (b.session.asking name) := hu.grows.trans ⟨[_, _], rfl⟩
  have hasked : (b.session.asking name).asked = [name] ++ u.asked := congrArg (name :: ·) hu.asked
  obtain ⟨ms, hx, hy⟩ := h.messages
  have hexplained := hx.trans ((adds_publish (.explanation
    (e.explain source.file a.session.setup.explainer))).trans (adds_enter .errored)).published
  have hpublished := hy.trans ((adds_publish (s := b.session) (.loading [name] .loading)).trans
    (adds_note (.resolve name))).published
  simp only [finish]
  rw [hexplainer] at hexplained ⊢
  refine .parted he hexplained ?_ ?_ (hasking.trans hgrows)
  · rw [hasking.since hgrows, List.mem_append]
    exact .inl ((resolve_mem_since hasking).mpr ⟨[name], hasked, List.mem_singleton.mpr rfl⟩)
  · rw [hasking.published hgrows]
    have heq : u.published (b.session.asking name) =
        .start request.mode :: ms.reverse ++ [.loading [name] .loading] := by
      rw [asking, hpublished.eq]
      simp [Notice.message?]
    rw [heq]
    exact List.prefix_append _ _

theorem proceed_twin (h : TwinStages t u request.mode a b) (hu : u.Quiet b.session)
    (hfile : v.file = source.file) (files : List (String × String)) (halt : Halt) :
    Twins t u source v request (proceed source request files 0 halt a)
      (proceed v request files 1 halt b) := by
  obtain ⟨x, lines⟩ := a
  obtain ⟨y, stdin⟩ := b
  obtain ⟨h, hstdin⟩ := h
  obtain rfl : stdin = lines := hstdin
  cases halt with
  | waits w =>
    refine .waits (x := { x with flight := _ }) (y := { y with flight := _ }) ?_ ?_ rfl rfl
    · exact ⟨h.setup, h.registry, h.files, h.interrupted, h.debugger, h.messages⟩
    · exact hu.trans (.of_eq rfl rfl)
  | faults f => exact fail_twin h hu f
  | ends e =>
    rcases proceed_ends_cases e with hlast | ⟨e, name, rfl, he⟩
    · rw [hlast, hlast]
      exact finish_twin h hu hfile e
    · exact parted_twin (a := ⟨x, stdin⟩) (b := ⟨y, stdin⟩) h hu he files

theorem resume_twin (h : Twin t u request.mode x y) (hu : u.Quiet y) (hfile : v.file = source.file)
    (files : List (String × String)) (stdin : List String) (w : Wait)
    (d : Dialogue (Except Exit Value)) :
    Twins t u source v request (x.resume ⟨source, request, 0, files, stdin, w⟩ d)
      (y.resume ⟨v, request, 1, files, stdin, w⟩ d) := by
  have hquiet := hu.trans (unaided.converse (request.mode == .debug) files d ⟨y, stdin⟩).quiet
  obtain ⟨hhalt, hstages⟩ :=
    converse_twin (a := ⟨x, stdin⟩) (b := ⟨y, stdin⟩) ⟨h, rfl⟩ files d
  unfold resume
  dsimp only
  rw [hhalt]
  exact proceed_twin hstages hquiet hfile files _

/-- A move of both runs. -/
theorem move_twin {px py : Progress} (h : Twins t u source v request px py)
    (hfile : v.file = source.file) (mv : Move) :
    Twins t u source v request (px.move mv) (py.move mv) := by
  cases h with
  | ended hx hy hu => exact .ended hx hy hu
  | parted he hx hasked hy hu =>
    have hgrows := (works.move py mv).grows
    refine .parted he hx ?_ ?_ (hu.trans hgrows)
    · rw [hu.since hgrows]
      exact List.mem_append_left _ hasked
    · rw [hu.published hgrows]
      exact hy.trans (List.prefix_append _ _)
  | @waits x y h hu files stdin w hx hy =>
    have hrunning := h.enter .running .running
    have hquiet := hu.trans (quiet_enter .running)
    have hmoved := move_cases hx mv
    generalize Progress.move ⟨x, none⟩ mv = px at hmoved
    cases hmoved with
    | ignored hheeds =>
      rw [heeds_waiting hx, ← heeds_waiting (f := ⟨v, request, 1, files, stdin, w⟩) hy] at hheeds
      rw [Progress.move_ignored hheeds]
      exact .waits h hu hx hy
    | files provided =>
      refine .waits (x := x.provideFiles provided) (y := y.provideFiles provided) ?_ ?_ hx hy
      · exact ⟨h.setup, h.registry, rfl, h.interrupted, h.debugger, h.messages⟩
      · exact hu.trans (.of_eq rfl rfl)
    | interrupt =>
      rw [move_interrupt hy]
      refine resume_twin (h.interrupt true) ?_ hfile _ _ _ _
      exact hu.trans (.of_eq rfl rfl)
    | line hw line =>
      rw [move_line hy hw]
      exact resume_twin hrunning hquiet hfile _ _ _ _
    | elapse hw =>
      rw [move_elapse hy hw]
      exact resume_twin h hu hfile _ _ _ _
    | @goOn _ hw c d hc =>
      obtain ⟨d', hc', hd⟩ : ∃ d', (y.enter .running).debugger.resume c = some d' ∧
          (request.mode = .debug → d' = d) := by
        cases c with
        | quit => cases hc
        | continue_ | step =>
          refine ⟨_, rfl, fun hmode => ?_⟩
          rw [hrunning.debugger hmode]
          exact Option.some.inj hc
      rw [move_goOn hy hw hc']
      refine resume_twin (hrunning.withDebuggers hd) ?_ hfile _ _ _ _
      exact hquiet.trans (.of_eq rfl rfl)
    | quit hw =>
      rw [move_quit hy hw]
      refine resume_twin (hrunning.withDebuggers fun _ => rfl) ?_ hfile _ _ _ _
      exact hquiet.trans (.of_eq rfl rfl)

theorem play_twin {px py : Progress} (h : Twins t u source v request px py)
    (hfile : v.file = source.file) (mvs : List Move) :
    Twins t u source v request (px.play mvs) (py.play mvs) := by
  induction mvs generalizing px py with
  | nil => exact h
  | cons mv mvs ih => exact ih (move_twin h hfile mv)

/-- A new run has published `start`, and nothing of the first attempt is left where the second one
begins. -/
theorem opening_twin (hsetup : t.setup.Agrees u.setup) (hregistry : u.registry = t.registry)
    (hfiles : u.files = t.files) (hrunning : t.interrupted = false) (htext : v.text = source.text)
    (hfile : v.file = source.file)
    (hd : request.mode = .debug → t.debugger = Debugger.start source request.breakpoints) :
    Twin t u request.mode t
      (({ u with source := v }.opening request.mode).startDebugger v request) := by
  have hsame : Debugger.start v request.breakpoints =
      Debugger.start source request.breakpoints := by
    obtain ⟨text, file, revision⟩ := v
    obtain rfl : text = source.text := htext
    obtain rfl : file = source.file := hfile
    rfl
  have hsettings := (works.trans (works.opening (s := { u with source := v }) request.mode)
    (works.startDebugger v request)).setup
  refine ⟨?_, ?_, ?_, ?_, ?_, [], ⟨[], rfl, rfl⟩, ?_⟩
  · rw [hsettings]
    exact hsetup
  · rw [registry_startDebugger, registry_opening, hregistry]
  · rw [files_startDebugger, files_opening, hfiles]
  · rw [hrunning]
    unfold startDebugger
    split <;> exact interrupted_enter .compiling
  · intro hmode
    rw [debugger_startDebugger v hmode, hsame, hd hmode]
  · have hpublished := published_opening { u with source := v } request.mode
    unfold startDebugger
    split <;> exact hpublished

/-- The run that was started again, and a new run of the request. -/
theorem Retry.twins {s₀ : Session} {name : String} {m : Module} {first : Session}
    {p q : Progress} (h : Retry s₀ source request name m first t p)
    (hq : u.run request = .ok q) (hsetup : t.setup.Agrees u.setup)
    (hregistry : u.registry = t.registry) (hfiles : u.files = t.files)
    (htext : (u.sourceFor request).text = source.text)
    (hfile : (u.sourceFor request).file = source.file) :
    Twins t u source (u.sourceFor request) request p q := by
  have htwin := opening_twin hsetup hregistry hfiles h.running htext hfile h.debugger
  have hsourced : u.Quiet { u with source := u.sourceFor request } := .of_eq rfl rfl
  have hquiet : u.Quiet (({ u with source := u.sourceFor request }.opening
      request.mode).startDebugger (u.sourceFor request) request) :=
    hsourced.trans ((unaided.opening _).trans (unaided.startDebugger _ _)).quiet
  obtain ⟨hhalt, hstages⟩ := attempt_twin htwin htext hfile rfl
  rw [h.again, run_eq hq, start_eq, hhalt, htwin.files]
  exact proceed_twin hstages (hquiet.trans (quiet_attempt _ _ _)) hfile _ _

end Session

open Session in
/-- A run whose resolver was asked for a module, and has it, was started again at some move. From
then on it publishes and comes to what a new run of the request does, after `start`, in any session
of the same source, modules, files and settings, whatever the two are moved on by; only where the
new run asks its own resolver, which is when it ends for want of a module, is the other one over
with that exception. -/
theorem retry_fresh (s : Session) (request : RunRequest) (p : Progress)
    (hp : s.run request = .ok p) (vs : List Move) (name : String) (m : Module)
    (hm : s.setup.resolver.resolve name = .ok m)
    (hasked : .resolve name ∈ s.since (p.play vs).session) :
    let source := s.sourceFor request
    ∃ us ws first t, vs = us ++ ws ∧ s.Retry source request name m first t (p.play us) ∧
      ∀ fresh : Session, fresh.flight = none → t.setup.Agrees fresh.setup →
        fresh.registry = t.registry → fresh.files = t.files →
        (fresh.sourceFor request).text = source.text →
        (fresh.sourceFor request).file = source.file →
        ∃ q, fresh.run request = .ok q ∧ ∀ later,
          let again := (p.play us).play later
          let anew := q.play later
          (anew.result = again.result ∧
            fresh.published anew.session = .start request.mode :: t.published again.session ∧
            ∀ name, .resolve name ∉ fresh.since anew.session) ∨
          ∃ (e : Exception) (name : String) (ms : List Message), e.missingModule = some name ∧
            .resolve name ∈ fresh.since anew.session ∧
            again.result = some (.ok (.failed (e.explain source.file s.setup.explainer))) ∧
            t.published again.session =
              ms ++ [.explanation (e.explain source.file s.setup.explainer)] ∧
            .start request.mode :: ms ++ [.loading [name] .loading] <+:
              fresh.published anew.session := by
  intro source
  have hquiet : s.Quiet { s with source := source } := .of_eq rfl rfl
  have hbegun := start_begun hquiet source request
  rw [← run_eq hp] at hbegun
  obtain ⟨us, ws, first, t, hvs, hretry⟩ := retry_decomposes hbegun hm hasked
  refine ⟨us, ws, first, t, hvs, hretry, ?_⟩
  intro fresh hidle hsetup hregistry hfiles htext hfile
  obtain ⟨q, hq⟩ : ∃ q, fresh.run request = .ok q := run_of_idle hidle request
  refine ⟨q, hq, fun later => ?_⟩
  have hexplainer : fresh.setup.explainer = s.setup.explainer := by
    rw [hsetup.explainer, hretry.setup]
  have htwins := hretry.twins hq hsetup hregistry hfiles htext hfile
  have hlater := play_twin htwins hfile later
  dsimp only
  generalize (p.play us).play later = again at hlater
  generalize q.play later = anew at hlater
  cases hlater with
  | waits h hu =>
    obtain ⟨ms, hx, hy⟩ := h.messages
    exact .inl ⟨rfl, by rw [hx.eq, hy.eq]; simp, hu.resolve_not_mem⟩
  | ended hx hy hu => exact .inl ⟨rfl, by rw [hx.eq, hy.eq]; simp, hu.resolve_not_mem⟩
  | @parted _ _ e name ms he hx hasked hy =>
    rw [hexplainer] at hx ⊢
    refine .inr ⟨e, name, ms.reverse, he, hasked, rfl, ?_, hy⟩
    rw [hx.eq, List.reverse_cons]

namespace Retrying

/-- A module without members. -/
def module : Module := ⟨"m", .native []⟩

/-- The resolver has the module, but finds nothing ahead of a run. -/
def session : Session :=
  .idle ⟨RunClosing.session.setup.config, ⟨fun _ => .ok module, fun _ => []⟩,
    RunClosing.session.setup.explainer, 9⟩ .standard

def request : RunRequest := ⟨some "(import m)(input)", none, .plain, [], []⟩

/-- The run was started again, and waits for a line. -/
def waiting : Progress :=
  { session with source := session.source.replace "(import m)(input)" "main.scm" }.start
    (session.source.replace "(import m)(input)" "main.scm") request

/-- The line is entered. -/
def moves : List Move := [.command (.input "a")]

def isCompleted : Option (Except RunFault Outcome) → Bool
  | some (.ok (.completed _)) => true
  | _ => false

/-- A new session with some modules and files. -/
def fresh (registry : Registry) (files : List (String × String)) : Session :=
  { Session.idle session.setup registry with files := files }

/-- The new session has the module from the start. -/
theorem retry_fresh_import : isCompleted (waiting.play moves).result = true ∧ ∃ first t q,
    session.Retry (session.sourceFor request) request "m" module first t waiting ∧
      (fresh t.registry t.files).run request = .ok q ∧
      (q.play moves).result = (waiting.play moves).result ∧
      (fresh t.registry t.files).published (q.play moves).session =
        .start .plain :: t.published (waiting.play moves).session := by
  have hasked : .resolve "m" ∈ session.since (waiting.play []).session := by decide +kernel
  have hcompleted : isCompleted (waiting.play moves).result = true := by decide +kernel
  obtain ⟨us, ws, first, t, hvs, hretry, hfresh⟩ :=
    retry_fresh session request waiting rfl [] "m" module rfl hasked
  obtain ⟨rfl, rfl⟩ := List.append_eq_nil_iff.mp hvs.symm
  simp only [Progress.play_nil] at hretry hfresh
  have hsetup : t.setup.Agrees session.setup := by
    rw [hretry.setup]
    exact ⟨rfl, rfl, rfl, rfl⟩
  obtain ⟨q, hq, hlater⟩ := hfresh (fresh t.registry t.files) rfl hsetup rfl rfl rfl rfl
  refine ⟨hcompleted, first, t, q, hretry, hq, ?_⟩
  rcases hlater moves with ⟨hresult, hpublished, -⟩ | ⟨e, name, ms, -, -, hresult, -⟩
  · exact ⟨hresult, hpublished⟩
  · rw [hresult] at hcompleted
    cases hcompleted

end Retrying
end Lispbox
