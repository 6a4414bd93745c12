import Lispbox.Proofs.Program.Imports
import Lispbox.Proofs.Run.Missing
import Lispbox.Proofs.Session.Landing
import Lispbox.Proofs.Session.Pauses
import Lispbox.Proofs.Session.Unaided

/-!
# What the resolver is asked, and for what

Ahead of an attempt the resolver is asked for the modules that the program imports and that are not
installed (`Resolver.Prefetched`). If the first attempt ends with an exception for want of a module,
which only an import raises (`Session.Lacks`), the resolver is asked for that module, and if it has
it there is a second attempt, the last one (`Session.Tried`, `Session.Consulted`).

How an attempt ends is not read off the session: a recorder with the same modules and files, which
is given the lines that are entered during the attempt, comes to the same end (`Session.ending`). As
long as the run waits, the recorder is where the run is, so the attempt that is described is the one
that is executed (`Session.Executed`).

* `Consulted.retains`: with a resolver that keeps to the names no module is replaced.
* `prefetch_inquired`, `installMissing_found`, `installMissing_refused`: one question.
* `attempt_lands`: an attempt, with the question ahead of it.
-/
namespace Lispbox

/-! ## Modules that are kept -/

/-- Every module of the first registry is in the second one, unchanged. -/
def Registry.Retains (r r' : Registry) : Prop :=
  ∀ name m, r.get? name = some m → r'.get? name = some m

namespace Registry

variable {r r' r'' : Registry}

theorem Retains.refl (r : Registry) : r.Retains r := fun _ _ => id

theorem Retains.trans (h : r.Retains r') (h' : r'.Retains r'') : r.Retains r'' :=
  fun name m hm => h' name m (h name m hm)

/-- Nothing is lost where a module is installed that was not there. -/
theorem Retains.install (h : r.Retains r') {m : Module} (hm : r.get? m.name = none) :
    r.Retains (r'.install m) := by
  intro name x hx
  have hne : name ≠ m.name := by
    rintro rfl
    rw [hm] at hx
    cases hx
  rw [get?_install_of_ne r' hne]
  exact h name x hx

theorem Retains.installAll (h : r.Retains r') {ms : List Module}
    (hms : ∀ m ∈ ms, r.get? m.name = none) : r.Retains (ms.foldl Registry.install r') := by
  induction ms generalizing r' with
  | nil => exact h
  | cons m ms ih =>
    obtain ⟨hm, hms⟩ := List.forall_mem_cons.mp hms
    exact ih (h.install hm) hms

end Registry

/-! ## Questions -/

/-- The resolver answers with modules of the names that it is asked for. -/
structure Resolver.IsFaithful (x : Resolver) : Prop where
  resolve : ∀ name m, x.resolve name = .ok m → m.name = name
  prefetch : ∀ names, ∀ m ∈ x.prefetch names, m.name ∈ names

/-- What the resolver is asked ahead of an attempt, and the modules that are installed then: it is
asked for those that the program imports and that are not installed, if there are any, and what it
finds is installed. -/
inductive Resolver.Prefetched (x : Resolver) (p : Program) (r : Registry) :
    List Notice → Registry → Prop where
  | complete (h : r.IsAbsent p []) : x.Prefetched p r [] r
  | incomplete {names : List String} (h : r.IsAbsent p names) (hne : names ≠ []) :
    x.Prefetched p r [.prefetch names] ((x.prefetch names).foldl Registry.install r)

theorem Resolver.Prefetched.retains {x : Resolver} {p : Program} {r r' : Registry}
    {log : List Notice} (h : x.Prefetched p r log r') (hx : x.IsFaithful) : r.Retains r' := by
  cases h with
  | complete h => exact .refl r
  | incomplete h hne =>
    refine (Registry.Retains.refl r).installAll fun m hm => ?_
    exact ((h.mem m.name).mp (hx.prefetch _ m hm)).2

/-! ## Attempts -/

/-- What an attempt is executed with, and the lines that were entered during it. -/
structure Attempt where
  registry : Registry
  files : List (String × String)
  entered : List String

/-- More lines are entered. -/
def Attempt.enter (a : Attempt) (lines : List String) : Attempt :=
  { a with entered := a.entered ++ lines }

/-- The move gives a signal to a run that waits: an interrupt, or a quit at a pause of the
debugger. -/
def Progress.Signals (q : Progress) (v : Move) : Prop :=
  q.result = none ∧
    (v = .command .interrupt ∨ v = .command (.debug .quit) ∧ q.isPaused = true)

/-- One of the moves gives a signal. -/
def Progress.IsStopped (q : Progress) (vs : List Move) : Prop :=
  ∃ us v ws, vs = us ++ v :: ws ∧ (q.play us).Signals v

namespace Session

/-- How the script ends in an attempt that is not stopped. -/
def ending (s : Session) (request : RunRequest) (p : Program) (a : Attempt) : RunEnd :=
  (Recorder.execute (.full a.files) ⟨a.registry, s.setup.config.recursionLimit⟩ s.setup.fuel p
    ⟨request.stdin ++ a.entered, 0, 0, []⟩).1

/-- The attempt ends with an exception that is not caught, and that names the module: it is not
installed, and an import of it has raised the exception. -/
def Lacks (s : Session) (request : RunRequest) (p : Program) (a : Attempt) (name : String) : Prop :=
  ∃ e, s.ending request p a = .ended (.raised e) ∧ e.missingModule = some name ∧
    a.registry.Misses e

/-- The attempts of a run with these lines: what the resolver was asked until the last of them was
under way, the registries that the session had until then, and the last attempt itself. After the
first one one more attempt may follow, after the second none. -/
inductive Tried (s : Session) (request : RunRequest) (p : Program) :
    (more : Nat) → List String → List Notice → List Registry → Attempt → Prop where
  | first {lines : List String} {log : List Notice} {r : Registry}
    (h : s.setup.resolver.Prefetched p s.registry log r) :
    Tried s request p 1 lines log [s.registry, r] ⟨r, s.files, lines⟩
  /-- The resolver has the module for want of which the first attempt ended. -/
  | second {lines : List String} {log log' : List Notice} {rs : List Registry} {a : Attempt}
    {name : String} {m : Module} {r : Registry} (h : Tried s request p 1 lines log rs a)
    (hl : s.Lacks request p a name) (hm : s.setup.resolver.resolve name = .ok m)
    (h' : s.setup.resolver.Prefetched p (a.registry.install m) log' r)
    (files : List (String × String)) (later : List String) :
    Tried s request p 0 (lines ++ later) (log ++ .resolve name :: log')
      (rs ++ [a.registry.install m, r]) ⟨r, files, later⟩

/-- What the resolver was asked in a run with these lines, the registries of the session, and the
last attempt. -/
inductive Consulted (s : Session) (request : RunRequest) (p : Program) :
    List String → List Notice → List Registry → Attempt → Prop where
  | tried {more : Nat} {lines : List String} {log : List Notice} {rs : List Registry}
    {a : Attempt} (h : Tried s request p more lines log rs a) : Consulted s request p lines log rs a
  /-- The resolver does not have the module for want of which the only attempt ended. -/
  | failed {lines : List String} {log : List Notice} {rs : List Registry} {a : Attempt}
    {name : String} {e : ResolveFault} (h : Tried s request p 1 lines log rs a)
    (hl : s.Lacks request p a name) (he : s.setup.resolver.resolve name = .error e) :
    Consulted s request p lines (log ++ [.resolve name]) rs a

/-- A run that has an outcome has that of its last attempt; if the attempt lacked a module, the
resolver was asked for it. -/
def Ends (s : Session) (source : SourceUnit) (request : RunRequest) (p : Program) (a : Attempt)
    (log : List Notice) (r : Except RunFault Outcome) : Prop :=
  ∀ o, r = .ok o →
    Outcome.ofEnd? source.file s.setup.explainer (s.ending request p a) = some o ∧
      ((∃ name, s.Lacks request p a name) → ∃ name, .resolve name ∈ log)

/-- The attempt is the one that the run executes: if the run waits, a recorder of the attempt is at
the same place, and if it has ended, it has ended as the attempt does, unless it was stopped. -/
structure Executed (s : Session) (source : SourceUnit) (request : RunRequest) (p : Program)
    (a : Attempt) (log : List Notice) (isStopped : Prop) (q : Progress) : Prop where
  waits : q.result = none → ∃ more stdin w polls events,
    q.session.flight = some ⟨source, request, more, a.files, stdin, w⟩ ∧
      Rests a.files (s.dialogueOf p a.registry) (request.stdin ++ a.entered) stdin polls events w
  ends : ∀ r, q.result = some r → s.Ends source request p a log r ∨ isStopped

variable {s₀ s s' : Session} {source : SourceUnit} {request : RunRequest} {p : Program}
  {more : Nat} {lines : List String} {log : List Notice} {rs : List Registry} {r : Registry}
  {a : Attempt} {name : String}

/-- More lines are entered during the last attempt. -/
theorem Tried.enter (h : s.Tried request p more lines log rs a) (entered : List String) :
    s.Tried request p more (lines ++ entered) log rs (a.enter entered) := by
  cases h with
  | first h => exact .first h
  | second h hl hm h' files later =>
    rw [List.append_assoc]
    exact .second h hl hm h' files (later ++ entered)

/-- The module that an attempt lacks is not installed. -/
theorem Lacks.absent (h : s.Lacks request p a name) :
    a.registry.get? name = none := by
  obtain ⟨e, -, he, hmisses⟩ := h
  exact (hmisses name he).1

/-- No registry has lost a module of an earlier one. -/
theorem Tried.retains (h : s.Tried request p more lines log rs a)
    (hx : s.setup.resolver.IsFaithful) : rs.Pairwise Registry.Retains := by
  cases h with
  | first h => exact List.pairwise_pair.mpr (h.retains hx)
  | @second _ _ _ _ _ name m r' h hl hm h' files later =>
    cases h with
    | @first _ _ r h =>
      have hname : m.name = name := hx.resolve name m hm
      have hahead : s.registry.Retains r := h.retains hx
      have hfound : r.Retains (r.install m) := (Registry.Retains.refl r).install (hname ▸ hl.absent)
      have hagain : (r.install m).Retains r' := h'.retains hx
      have hlast := hfound.trans hagain
      simpa using ⟨⟨hahead, hahead.trans hfound, hahead.trans hlast⟩, ⟨hfound, hlast⟩, hagain⟩

theorem Consulted.retains (h : s.Consulted request p lines log rs a)
    (hx : s.setup.resolver.IsFaithful) : rs.Pairwise Registry.Retains := by
  cases h with
  | tried h => exact h.retains hx
  | failed h hl he => exact h.retains hx

/-! ## What is asked and installed -/

/-- This is what the resolver was asked since an earlier time, and these are the modules. -/
structure Inquired (s₀ : Session) (log : List Notice) (r : Registry) (s : Session) : Prop where
  grows : s₀.Grows s
  setup : s.setup = s₀.setup
  asked : s₀.consultations s = log
  registry : s.registry = r

theorem Inquired.unaided (h : s₀.Inquired log r s) (hu : s.Unaided s') :
    s₀.Inquired log r s' where
  grows := h.grows.trans hu.grows
  setup := hu.setup.trans h.setup
  asked := by rw [h.grows.consultations hu.grows, h.asked, hu.unasked, List.append_nil]
  registry := hu.registry.trans h.registry

/-- The resolver is asked. -/
theorem Inquired.note (h : s₀.Inquired log r s) {n : Notice} (hn : n.isConsultation = true) :
    s₀.Inquired (log ++ [n]) r (s.note n) where
  grows := h.grows.trans (grows_note n)
  setup := h.setup
  asked := by rw [h.grows.consultations (grows_note n), h.asked, consultations_note, hn]; rfl
  registry := h.registry

/-- Modules are installed. -/
theorem Inquired.install (h : s₀.Inquired log r s) (r' : Registry) :
    s₀.Inquired log r' { s with registry := r' } := by
  have hsame : s.Grows { s with registry := r' } := .of_eq rfl
  refine ⟨h.grows.trans hsame, h.setup, ?_, rfl⟩
  exact h.asked

theorem prefetch_inquired (h : s₀.Inquired log r s) (p : Program) :
    ∃ asked r', s₀.setup.resolver.Prefetched p r asked r' ∧
      s₀.Inquired (log ++ asked) r' (s.prefetch p) := by
  have habsent : r.IsAbsent p (s.absent p) := by
    rw [← h.registry]
    exact imports_absent s.registry p
  rw [prefetch_eq, h.setup]
  split
  · next hempty =>
    rw [List.isEmpty_iff.mp hempty] at habsent
    exact ⟨[], r, .complete habsent, by rwa [List.append_nil]⟩
  · next hne =>
    have hasked := h.note (n := .prefetch (s.absent p)) rfl
    have hfound := Resolver.Prefetched.incomplete (x := s₀.setup.resolver) habsent
      fun hnil => hne (List.isEmpty_iff.mpr hnil)
    refine ⟨_, _, hfound, ?_⟩
    split
    · next hnone =>
      rw [hnone]
      exact hasked
    · have hinstalled := hasked.install
        ((s₀.setup.resolver.prefetch (s.absent p)).foldl Registry.install r)
      rw [← h.registry] at hinstalled ⊢
      exact hinstalled.unaided (unaided_publish _)

/-- The resolver has the module. -/
theorem installMissing_found (h : s₀.Inquired log r s) {m : Module}
    (hm : s₀.setup.resolver.resolve name = .ok m) :
    s₀.Inquired (log ++ [.resolve name]) (r.install m) (s.installMissing name).2 := by
  rw [installMissing_of_ok (h.setup ▸ hm), ← h.registry]
  have hasked := (h.unaided (unaided_publish (.loading [name] .loading))).note
    (n := .resolve name) rfl
  exact (hasked.install _).unaided (unaided_publish _)

theorem installMissing_refused (h : s₀.Inquired log r s) {e : ResolveFault}
    (he : s₀.setup.resolver.resolve name = .error e) :
    s₀.Inquired (log ++ [.resolve name]) r (s.installMissing name).2 := by
  rw [installMissing_of_error (h.setup ▸ he)]
  have hasked := (h.unaided (unaided_publish (.loading [name] .loading))).note
    (n := .resolve name) rfl
  exact hasked.unaided (unaided_publish _)

/-- An attempt: the resolver is asked ahead of it. -/
theorem attempt_lands (h : s₀.Inquired log r s) (hi : s.interrupted = false)
    (hc : compile source.text source.file s₀.setup.config.recursionLimit = .ok p)
    (request : RunRequest) :
    ∃ asked r', s₀.setup.resolver.Prefetched p r asked r' ∧
      s₀.Inquired (log ++ asked) r' (s.attempt source request).2.session ∧
      Lands s.files (s₀.dialogueOf p r') request.stdin (s.attempt source request) := by
  obtain ⟨asked, r', hprefetched, hinquired⟩ := prefetch_inquired h p
  have hrunning := hinquired.unaided (unaided.enter .running)
  have hfiles : ((s.prefetch p).enter .running).files = s.files := by
    rw [files_enter, files_prefetch]
  have hclear : ((s.prefetch p).enter .running).interrupted = false := by
    rw [interrupted_enter, interrupted_prefetch, hi]
  refine ⟨asked, r', hprefetched, ?_⟩
  rw [← h.setup] at hc
  rw [attempt_of_ok hc, hrunning.registry, hrunning.setup, hfiles, h.setup]
  exact ⟨hrunning.unaided (unaided.converse _ _ _ ⟨_, request.stdin⟩),
    converse_lands _ ⟨dialogue_outputs _ _ p, fun more => rfl⟩ hclear⟩

end Session
end Lispbox
