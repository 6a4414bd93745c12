import Lispbox.Proofs.Session.Interrupts
import Lispbox.Proofs.Session.Pauses
import Lispbox.Proofs.Session.Unaided

/-!
# When the resolver is asked for a module

Attempts ask the resolver for no module by its name, whatever becomes of them (`Session.Quiet`). It
is asked between two attempts: if the first one ended for want of a module, and the resolver has the
module, the run is started again (`Session.Retry`), and from then on the resolver is not asked
(`Session.IsLast`).

* `proceed_begun`, `move_begun`: how far a run is whose first attempt is under way.
* `retry_decomposes`: if the resolver was asked for a module that it has, the run was started again
  at one of its moves.
-/
namespace Lispbox

/-- The module that the resolver is asked for. -/
def Notice.resolve? : Notice → Option String
  | .resolve name => some name
  | _ => none

namespace Session

variable {s₀ s s' s'' : Session} {source : SourceUnit} {request : RunRequest}

/-! ## What the resolver is asked for -/

/-- The modules that the resolver was asked for, one by one, the latest first. -/
def asked (s : Session) : List String := s.notices.filterMap Notice.resolve?

/-- Things were done, but the resolver was not asked for a module by its name. -/
structure Quiet (s s' : Session) : Prop where
  grows : s.Grows s'
  setup : s'.setup = s.setup
  asked : s'.asked = s.asked

theorem Quiet.of_eq (hn : s'.notices = s.notices) (hs : s'.setup = s.setup) : s.Quiet s' :=
  ⟨.of_eq hn, hs, congrArg (List.filterMap Notice.resolve?) hn⟩

theorem Quiet.refl (s : Session) : s.Quiet s := .of_eq rfl rfl

theorem Quiet.trans (h : s.Quiet s') (h' : s'.Quiet s'') : s.Quiet s'' :=
  ⟨h.grows.trans h'.grows, h'.setup.trans h.setup, h'.asked.trans h.asked⟩

theorem quiet_note {n : Notice} (h : n.resolve? = none) : s.Quiet (s.note n) :=
  ⟨grows_note n, rfl, List.filterMap_cons_none h⟩

theorem quiet_publish (m : Message) : s.Quiet (s.publish m) := quiet_note rfl

/-- Who does not ask the resolver at all does not ask it for a module by its name. -/
theorem Unaided.quiet (h : s.Unaided s') : s.Quiet s' := by
  obtain ⟨new, hnew⟩ := id h.grows
  have hnone : ∀ n ∈ new, n.resolve? = none := by
    intro n hn
    have hunasked := h.unasked
    rw [consultations, since_eq hnew.symm, List.filter_eq_nil_iff] at hunasked
    cases n with
    | resolve name => exact absurd rfl (hunasked _ (List.mem_reverse.mpr hn))
    | _ => rfl
  refine ⟨h.grows, h.setup, ?_⟩
  rw [Session.asked, ← hnew, List.filterMap_append, List.filterMap_eq_nil_iff.mpr hnone]
  rfl

theorem quiet_enter (next : ExecutionState) : s.Quiet (s.enter next) := (unaided.enter next).quiet

theorem quiet_installFound (modules : List Module) : s.Quiet (s.installFound modules) := by
  have hinstalled : s.Quiet
      { s with registry := modules.foldl Registry.install s.registry } := .of_eq rfl rfl
  exact hinstalled.trans (quiet_publish _)

theorem quiet_prefetch (p : Program) : s.Quiet (s.prefetch p) := by
  rw [prefetch_eq]
  split
  · exact .refl s
  · split
    · exact quiet_note rfl
    · exact (quiet_note rfl).trans (quiet_installFound _)

/-- An attempt asks for no module by its name. -/
theorem quiet_attempt (s : Session) (source : SourceUnit) (request : RunRequest) :
    s.Quiet (s.attempt source request).2.session := by
  cases hc : compile source.text source.file s.setup.config.recursionLimit with
  | error e =>
    rw [attempt_of_error hc]
    exact .refl s
  | ok p =>
    rw [attempt_of_ok hc]
    refine Quiet.trans ?_ ((unaided.converse _ _ _ _).quiet)
    exact (quiet_prefetch p).trans (quiet_enter .running)

theorem asked_installMissing (name : String) :
    (s.installMissing name).2.asked = name :: s.asked := by
  unfold installMissing
  dsimp only
  split <;> rfl

theorem resolve_mem_since {name : String} (h : s₀.Grows s) :
    .resolve name ∈ s₀.since s ↔ ∃ names, s.asked = names ++ s₀.asked ∧ name ∈ names := by
  obtain ⟨new, hnew⟩ := h
  have hasked : s.asked = new.filterMap Notice.resolve? ++ s₀.asked := by
    unfold asked
    rw [← hnew, List.filterMap_append]
  have hmem : name ∈ new.filterMap Notice.resolve? ↔ .resolve name ∈ new := by
    rw [List.mem_filterMap]
    constructor
    · rintro ⟨n, hn, hname⟩
      cases n <;> cases hname
      exact hn
    · exact fun hn => ⟨_, hn, rfl⟩
  rw [since_eq hnew.symm, List.mem_reverse, ← hmem]
  constructor
  · exact fun hn => ⟨_, hasked, hn⟩
  · rintro ⟨names, hnames, hn⟩
    rw [hasked] at hnames
    exact List.append_cancel_right hnames ▸ hn

theorem Quiet.resolve_not_mem (h : s₀.Quiet s) (name : String) : .resolve name ∉ s₀.since s := by
  intro hmem
  obtain ⟨names, hnames, hname⟩ := (resolve_mem_since h.grows).mp hmem
  rw [h.asked] at hnames
  rw [List.self_eq_append_left.mp hnames] at hname
  cases hname

/-! ## The first attempt -/

/-- The first attempt ended, in the session `first`, for want of a module that the resolver has. The
run is started again in the session `t`, from the beginning. -/
structure Retry (s₀ : Session) (source : SourceUnit) (request : RunRequest) (name : String)
    (m : Module) (first t : Session) (p : Progress) : Prop where
  ended : ∃ e stdin files, e.missingModule = some name ∧
    p = proceed source request files 1 (.ends (.raised e)) ⟨first, stdin⟩
  quiet : s₀.Quiet first
  found : s₀.setup.resolver.resolve name = .ok m
  notices : t.notices = .publish (.loading [name] .loaded) :: .resolve name ::
    .publish (.loading [name] .loading) :: first.notices
  setup : t.setup = s₀.setup
  registry : t.registry = first.registry.install m
  files : t.files = first.files
  running : t.interrupted = false
  debugger : request.mode = .debug → t.debugger = Debugger.start source request.breakpoints
  again : p = proceed source request t.files 0 (t.attempt source request).1
    (t.attempt source request).2

/-- How far a run is whose first attempt is under way. -/
inductive Begun (s₀ : Session) (source : SourceUnit) (request : RunRequest) : Progress → Prop where
  | waits {s : Session} (h : s₀.Quiet s) {files : List (String × String)}
    {stdin : List String} {w : Wait} (hf : s.flight = some ⟨source, request, 1, files, stdin, w⟩) :
    Begun s₀ source request ⟨s, none⟩
  /-- The run is over, and the resolver had none of the modules it was asked for. -/
  | ended {s : Session} {r : Except RunFault Outcome}
    (h : ∀ name m, s₀.setup.resolver.resolve name = .ok m → .resolve name ∉ s₀.since s) :
    Begun s₀ source request ⟨s, some r⟩
  | again {name : String} {m : Module} {first t : Session} {p : Progress}
    (h : Retry s₀ source request name m first t p) : Begun s₀ source request p

/-- An exception that is not caught ends an attempt only if the session is not interrupted. -/
theorem converse_raised {debugging : Bool} {files : List (String × String)}
    {d : Dialogue (Except Exit Value)} {st st' : Stage} {e : Exception}
    (h : converse debugging files d st = (.ends (.raised e), st')) :
    st'.session.interrupted = false := by
  have last (st : Stage) (e' : RunEnd) (h : st.session.haltOf e' = .ends (.raised e)) :
      st.session.interrupted = false := by
    unfold haltOf at h
    split at h
    · cases h
    · split at h
      · cases h
      · next hi => exact Bool.eq_false_iff.mpr hi
  have hends : (converse debugging files d st).1 = .ends (.raised e) →
      (converse debugging files d st).2.session.interrupted = false := by
    refine converse_induction (I := fun _ _ => True)
      (Q := fun x => x.1 = .ends (.raised e) → x.2.session.interrupted = false)
      (fun _ => last _ _) (fun _ => last _ _) ?_ trivial
    intro m q resume st _
    unfold Keeps
    split
    · trivial
    · exact nofun
    · exact nofun
  rw [h] at hends
  exact hends rfl

theorem attempt_raised {e : Exception} {st : Stage}
    (h : s.attempt source request = (.ends (.raised e), st)) : st.session.interrupted = false := by
  cases hc : compile source.text source.file s.setup.config.recursionLimit with
  | error err =>
    rw [attempt_of_error hc] at h
    cases h
  | ok p =>
    rw [attempt_of_ok hc] at h
    exact converse_raised h

/-- A module that is found is installed, and the run is started again. -/
theorem retry_of_missing {name : String} {m : Module} {e : Exception} {st : Stage}
    (hs : s₀.Quiet st.session) (he : e.missingModule = some name)
    (hi : st.session.interrupted = false) (hm : s₀.setup.resolver.resolve name = .ok m)
    (files : List (String × String)) :
    Retry s₀ source request name m st.session (st.session.restarting source request name)
      (proceed source request files 1 (.ends (.raised e)) st) := by
  have hfound := hs.setup.symm ▸ hm
  have hinstall := installMissing_of_ok hfound
  refine ⟨⟨e, st.stdin, files, he, rfl⟩, hs, hm, ?_, ?_, ?_, ?_, ?_, ?_,
    proceed_of_found he hfound source request files 0⟩
  · rw [restarting, hinstall]
    unfold startDebugger
    split <;> rfl
  · exact (works.restarting source request name).setup.trans hs.setup
  · rw [restarting, registry_startDebugger, hinstall]
    rfl
  · rw [restarting, files_startDebugger, hinstall]
    rfl
  · exact (interrupted_restarting source request name).trans hi
  · exact fun hmode => debugger_startDebugger source hmode

/-- A run is over that asked for certain modules, none of which the resolver has. -/
theorem over_begun {t : Session} (hg : s₀.Grows t) (names : List String)
    (ha : t.asked = names ++ s₀.asked)
    (hnames : ∀ name ∈ names, ∀ m, s₀.setup.resolver.resolve name ≠ .ok m)
    (r : Except RunFault Outcome) : Begun s₀ source request ⟨t, some r⟩ := by
  refine .ended fun name m hm hmem => ?_
  obtain ⟨names', hnames', hname⟩ := (resolve_mem_since hg).mp hmem
  rw [ha] at hnames'
  rw [← List.append_cancel_right hnames'] at hname
  exact hnames name hname m hm

theorem finish_begun (hg : s₀.Grows s) (names : List String) (ha : s.asked = names ++ s₀.asked)
    (hnames : ∀ name ∈ names, ∀ m, s₀.setup.resolver.resolve name ≠ .ok m) (e : AttemptEnd) :
    Begun s₀ source request (s.finish source e) := by
  have hfinish := (unaided.finish (s := s) source e).quiet
  have hgrows := hg.trans hfinish.grows
  have hasked := hfinish.asked.trans ha
  cases e <;> exact over_begun hgrows names hasked hnames _

theorem proceed_begun (files : List (String × String)) {halt : Halt} {st : Stage}
    (hs : s₀.Quiet st.session)
    (hi : ∀ e, halt = .ends (.raised e) → st.session.interrupted = false) :
    Begun s₀ source request (proceed source request files 1 halt st) := by
  cases halt with
  | waits w =>
    exact .waits (s := { st.session with flight := _ }) (hs.trans (.of_eq rfl rfl)) rfl
  | faults f =>
    have hfail := hs.trans (unaided.fail f).quiet
    exact over_begun hfail.grows [] hfail.asked (List.forall_mem_nil _) _
  | ends e =>
    rcases proceed_ends_cases e with hlast | ⟨x, name, rfl, hx⟩
    · rw [hlast]
      exact finish_begun hs.grows [] hs.asked (List.forall_mem_nil _) e
    · cases hm : s₀.setup.resolver.resolve name with
      | ok m => exact .again (retry_of_missing hs hx (hi x rfl) hm files)
      | error err =>
        have hgrows := hs.grows.trans (works.installMissing (s := st.session) name).grows
        have hasked := asked_installMissing (s := st.session) name
        rw [hs.asked] at hasked
        rw [proceed_of_unfound hx (hs.setup ▸ hm)]
        refine finish_begun hgrows [name] hasked ?_ _
        intro name' hname'
        rw [List.mem_singleton.mp hname', hm]
        intro m h
        cases h

theorem start_begun (hs : s₀.Quiet s) (source : SourceUnit) (request : RunRequest) :
    Begun s₀ source request (s.start source request) := by
  have hs := hs.trans
    ((unaided.opening request.mode).trans (unaided.startDebugger source request)).quiet
  rw [start_eq]
  exact proceed_begun _ (hs.trans (quiet_attempt _ source request))
    fun _ he => attempt_raised (Prod.ext he rfl)

/-- The first attempt goes on. -/
theorem resume_begun (hs : s₀.Quiet s) {files : List (String × String)} {stdin : List String}
    {w : Wait} (d : Dialogue (Except Exit Value)) :
    Begun s₀ source request (s.resume ⟨source, request, 1, files, stdin, w⟩ d) :=
  proceed_begun _ (hs.trans ((unaided.converse _ _ d ⟨s, stdin⟩).quiet))
    fun _ he => converse_raised (Prod.ext he rfl)

/-- A run in its first attempt. -/
theorem move_begun (hs : s₀.Quiet s) {files : List (String × String)} {stdin : List String}
    {w : Wait} (hf : s.flight = some ⟨source, request, 1, files, stdin, w⟩) (v : Move) :
    Begun s₀ source request (Progress.move ⟨s, none⟩ v) := by
  have hrunning := hs.trans (quiet_enter .running)
  have hmoved := move_cases hf v
  generalize Progress.move ⟨s, none⟩ v = p at hmoved
  cases hmoved with
  | ignored => exact .waits hs hf
  | files files => exact .waits (s := s.provideFiles files) (hs.trans (.of_eq rfl rfl)) hf
  | interrupt =>
    refine resume_begun ?_ _
    exact hs.trans (.of_eq rfl rfl)
  | line hw line => exact resume_begun hrunning _
  | elapse hw => exact resume_begun hs _
  | goOn hw hc =>
    refine resume_begun ?_ _
    exact hrunning.trans (.of_eq rfl rfl)
  | quit hw =>
    refine resume_begun ?_ _
    exact hrunning.trans (.of_eq rfl rfl)

/-! ## The second attempt -/

/-- The run is not started again once more. -/
def IsLast (p : Progress) : Prop := ∀ f, p.session.flight = some f → f.retries = 0

theorem proceed_last (source : SourceUnit) (request : RunRequest)
    (files : List (String × String)) (halt : Halt) (st : Stage) :
    st.session.Unaided (proceed source request files 0 halt st).session ∧
      IsLast (proceed source request files 0 halt st) := by
  cases halt with
  | waits w =>
    refine ⟨.of_eq rfl rfl rfl, fun f hf => ?_⟩
    cases hf
    rfl
  | faults f => exact ⟨unaided.fail f, nofun⟩
  | ends e => exact ⟨unaided.finish source e, by cases e <;> nofun⟩

theorem resume_last (hs : s₀.Unaided s) {f : Flight} (hf : f.retries = 0)
    (d : Dialogue (Except Exit Value)) :
    s₀.Unaided (s.resume f d).session ∧ IsLast (s.resume f d) := by
  have hconverse := hs.trans (unaided.converse (f.request.mode == .debug) f.files d ⟨s, f.stdin⟩)
  unfold resume
  rw [hf]
  obtain ⟨hproceed, hlast⟩ := proceed_last f.source f.request f.files
    (converse (f.request.mode == .debug) f.files d ⟨s, f.stdin⟩).1
    (converse (f.request.mode == .debug) f.files d ⟨s, f.stdin⟩).2
  exact ⟨hconverse.trans hproceed, hlast⟩

/-- A run that is not started again asks the resolver for nothing. -/
theorem move_last {p : Progress} (hp : IsLast p) (v : Move) :
    p.session.Unaided (p.move v).session ∧ IsLast (p.move v) := by
  obtain ⟨s, result⟩ := p
  cases result with
  | some r => exact ⟨.refl _, hp⟩
  | none =>
    cases hf : s.flight with
    | none =>
      unfold Progress.move
      cases v with
      | provideFiles files => exact ⟨.of_eq rfl rfl rfl, hp⟩
      | elapse =>
        simp only [elapse, hf]
        exact ⟨.refl _, hp⟩
      | command c =>
        simp only [command, hf]
        exact ⟨.of_eq rfl rfl rfl, fun f h => by cases h⟩
    | some f =>
      have hlast : f.retries = 0 := hp f hf
      have hrunning := unaided.enter (s := s) .running
      have hmoved := move_cases hf v
      generalize Progress.move ⟨s, none⟩ v = q at hmoved
      cases hmoved with
      | ignored => exact ⟨.refl _, hp⟩
      | files files => exact ⟨.of_eq rfl rfl rfl, hp⟩
      | interrupt =>
        refine resume_last ?_ hlast _
        exact .of_eq rfl rfl rfl
      | line hw line => exact resume_last hrunning hlast _
      | elapse hw => exact resume_last (.refl s) hlast _
      | goOn hw hc =>
        refine resume_last ?_ hlast _
        exact hrunning.trans (.of_eq rfl rfl rfl)
      | quit hw =>
        refine resume_last ?_ hlast _
        exact hrunning.trans (.of_eq rfl rfl rfl)

theorem play_last {p : Progress} (hp : IsLast p) (vs : List Move) :
    p.session.Unaided (p.play vs).session :=
  (Progress.play_induction (P := fun q => p.session.Unaided q.session ∧ IsLast q)
    (fun v hq => ⟨hq.1.trans (move_last hq.2 v).1, (move_last hq.2 v).2⟩) ⟨.refl _, hp⟩ vs).1

/-- One module was asked for when the run is started again. -/
theorem Retry.asked {name : String} {m : Module} {first t : Session} {p : Progress}
    (h : Retry s₀ source request name m first t p) :
    s₀.Grows p.session ∧ p.session.asked = name :: s₀.asked ∧ IsLast p := by
  obtain ⟨hproceed, hlast⟩ := proceed_last source request t.files
    (t.attempt source request).1 (t.attempt source request).2
  have hagain := (quiet_attempt t source request).trans hproceed.quiet
  have hgrows : first.Grows t := ⟨[_, _, _], h.notices.symm⟩
  have hasked : t.asked = name :: first.asked := by
    unfold Session.asked
    rw [h.notices]
    rfl
  rw [h.again]
  refine ⟨(h.quiet.grows.trans hgrows).trans hagain.grows, ?_, hlast⟩
  rw [hagain.asked, hasked, h.quiet.asked]

/-- It is the only one, whatever follows. -/
theorem Retry.eq_of_asked {name name' : String} {m m' : Module} {first t : Session} {p : Progress}
    (h : Retry s₀ source request name m first t p) (vs : List Move)
    (hm : s₀.setup.resolver.resolve name' = .ok m')
    (hasked : .resolve name' ∈ s₀.since (p.play vs).session) : name = name' ∧ m = m' := by
  obtain ⟨hgrows, hp, hlast⟩ := h.asked
  have hplay := (play_last hlast vs).quiet
  obtain ⟨names, hnames, hname⟩ := (resolve_mem_since (hgrows.trans hplay.grows)).mp hasked
  rw [hplay.asked, hp] at hnames
  change [name] ++ s₀.asked = names ++ s₀.asked at hnames
  rw [← List.append_cancel_right hnames, List.mem_singleton] at hname
  subst hname
  rw [h.found] at hm
  exact ⟨rfl, Except.ok.inj hm⟩

/-- If the resolver was asked for a module that it has, the run was started again at some move. -/
theorem retry_decomposes {p : Progress} (hp : Begun s₀ source request p) {vs : List Move}
    {name : String} {m : Module} (hm : s₀.setup.resolver.resolve name = .ok m)
    (hasked : .resolve name ∈ s₀.since (p.play vs).session) :
    ∃ us ws first t, vs = us ++ ws ∧ Retry s₀ source request name m first t (p.play us) := by
  induction vs generalizing p with
  | nil =>
    cases hp with
    | waits hs hf => exact absurd hasked (hs.resolve_not_mem name)
    | ended h => exact absurd hasked (h name m hm)
    | again h =>
      obtain ⟨rfl, rfl⟩ := h.eq_of_asked [] hm hasked
      exact ⟨[], [], _, _, rfl, h⟩
  | cons v vs ih =>
    cases hp with
    | waits hs hf =>
      obtain ⟨us, ws, first, t, rfl, hretry⟩ := ih (move_begun hs hf v) hasked
      exact ⟨v :: us, ws, first, t, rfl, hretry⟩
    | ended h =>
      rw [Progress.play_over rfl] at hasked
      exact absurd hasked (h name m hm)
    | again h =>
      obtain ⟨rfl, rfl⟩ := h.eq_of_asked (v :: vs) hm hasked
      exact ⟨[], v :: vs, _, _, rfl, h⟩

end Session
end Lispbox
