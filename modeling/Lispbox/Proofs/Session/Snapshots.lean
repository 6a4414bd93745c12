import Lispbox.Proofs.Session.Reading

/-!
# The files that a run sees

Files that are provided while a run waits are there for later attempts. An attempt that is under way
keeps those it began with, so a run does not notice new files (`begun_kept`) unless it is started
again with them. Every file that a script asks for is then one of those that were there when the run
was started: that is the invariant `Session.Viewing`, which moves keep that provide no files.

* `begun_kept`: the same moves without the new files.
* `start_viewing`, `move_viewing`: where a run is in the dialogue of an attempt.
* `files_kept`: what a run and the next one see of new files.
* `Providing.second_attempt_differs`: a run that is started again sees new files.
-/
namespace Lispbox

/-- The moves without those that provide files. -/
def Move.kept (vs : List Move) : List Move := vs.filter fun v => v.files?.isNone

namespace Session

variable {s₀ s t : Session} {source : SourceUnit} {request : RunRequest} {program : Program}
  {registry : Registry} {files : List (String × String)} {p : Progress}

/-! ## Runs without the new files -/

theorem kept_cons_none {v : Move} (hv : v.files? = none) (vs : List Move) :
    Move.kept (v :: vs) = v :: Move.kept vs := by
  simp [Move.kept, hv]

theorem kept_cons_some {v : Move} (hv : v.files? = some files) (vs : List Move) :
    Move.kept (v :: vs) = Move.kept vs := by
  simp [Move.kept, hv]

/-- A move of a run that waits, beside the same move with other files, if no other attempt
follows. -/
theorem waiting_rebased {f : Flight} (hf : s.flight = some f) {v : Move} (hv : v.files? = none)
    (h : ∀ t d, s.Unaided t → Progress.move ⟨s, none⟩ v = t.resume f d →
      IsFinal (converse (f.request.mode == .debug) f.files d ⟨t, f.stdin⟩).2.session f.retries
        (converse (f.request.mode == .debug) f.files d ⟨t, f.stdin⟩).1) :
    Progress.move ⟨s.rebased files [], none⟩ v =
      (Progress.move ⟨s, none⟩ v).rebased files [] := by
  rcases move_alike hf hv with hignored | ⟨t, d, hu, hfiles, hresume⟩
  · have hsame := hignored s.files []
    rw [rebased_self] at hsame
    rw [hignored, hsame]
    rfl
  · have hsame := hresume s.files []
    rw [rebased_self, ← hfiles, rebased_self] at hsame
    rw [hresume, hsame]
    exact resume_rebased t f d (.inr (h t d hu hsame))

/-- A run that is not started again does not notice files. -/
theorem last_rebased (hp : IsLast p) {v : Move} (hv : v.files? = none) :
    (p.rebased files []).move v = (p.move v).rebased files [] := by
  obtain ⟨s, result⟩ := p
  cases result with
  | some r => rfl
  | none =>
    cases hf : s.flight with
    | some f => exact waiting_rebased hf hv fun _ _ _ _ => .inl (hp f hf)
    | none =>
      have hf' : (s.rebased files []).flight = none := hf
      cases v with
      | provideFiles files => cases hv
      | elapse => simp only [Progress.move, Progress.rebased, elapse, hf, hf']
      | command c =>
        simp only [Progress.move, Progress.rebased, command, hf, hf']
        rfl

theorem last_kept (hp : IsLast p) (vs : List Move) :
    (p.rebased files []).play (Move.kept vs) = (p.play vs).rebased files [] := by
  induction vs generalizing p with
  | nil => rfl
  | cons v vs ih =>
    have hnext := ih (move_last hp v).2
    cases hv : v.files? with
    | none =>
      rw [kept_cons_none hv]
      refine Eq.trans ?_ hnext
      exact congrArg (Progress.play · (Move.kept vs)) (last_rebased hp hv)
    | some provided =>
      rw [kept_cons_some hv]
      refine Eq.trans (congrArg (Progress.play · (Move.kept vs)) ?_) hnext
      obtain ⟨s, result⟩ := p
      cases v with
      | provideFiles files => cases result <;> rfl
      | command c => cases hv
      | elapse => cases hv

/-- A first attempt does not notice files if no second one follows. -/
theorem first_rebased (hs : s₀.Quiet s) {given : List (String × String)} {stdin : List String}
    {w : Wait} (hf : s.flight = some ⟨source, request, 1, given, stdin, w⟩) {v : Move}
    (hv : v.files? = none) (hu : s₀.Unfound (Progress.move ⟨s, none⟩ v).session) :
    Progress.move ⟨s.rebased files [], none⟩ v =
      (Progress.move ⟨s, none⟩ v).rebased files [] := by
  refine waiting_rebased hf hv fun t d ht hmove => .inr fun x name m hhalt hx hm => ?_
  have hquiet := hs.trans
    (ht.trans (unaided.converse (request.mode == .debug) given d ⟨t, stdin⟩)).quiet
  have hproceed : Progress.move ⟨s, none⟩ v = proceed source request given 1 (.ends (.raised x))
      (converse (request.mode == .debug) given d ⟨t, stdin⟩).2 := by
    rw [hmove, ← hhalt]
    rfl
  rw [hquiet.setup] at hm
  rw [hproceed] at hu
  exact hu.unfound name m hm (resolve_asked hquiet source request hx given).2

theorem not_retried (h : s₀.Quiet s) : ¬ s₀.Retried s := by
  rintro ⟨new, name, m, hnew, hmem, -⟩
  refine h.resolve_not_mem name ?_
  rw [since_eq hnew, List.mem_reverse]
  exact hmem

theorem unfound_of_not_retried (hg : s₀.Grows s) (h : ¬ s₀.Retried s) : s₀.Unfound s := by
  obtain ⟨new, hnew⟩ := id hg
  refine ⟨hg, fun name m hm hmem => h ⟨new, name, m, hnew.symm, ?_, hm⟩⟩
  rwa [since_eq hnew.symm, List.mem_reverse] at hmem

theorem Unfound.earlier (h : s₀.Unfound t) (hg : s₀.Grows s) (hg' : s.Grows t) :
    s₀.Unfound s := by
  refine ⟨hg, fun name m hm hmem => h.unfound name m hm ?_⟩
  rw [hg.since hg']
  exact List.mem_append_left _ hmem

/-- If no files are provided before a run is started again, the run does the same without any. -/
theorem begun_kept (hp : Begun s₀ source request p) (hg : s₀.Grows p.session) {vs : List Move}
    (hprovided : ∀ us provided ws, vs = us ++ .provideFiles provided :: ws →
      s₀.Retried (p.play vs).session → s₀.Retried (p.play us).session)
    (hfiles : files = p.session.files ∨ s₀.Unfound (p.play vs).session) :
    (p.rebased files []).play (Move.kept vs) = (p.play vs).rebased files [] := by
  induction vs generalizing p with
  | nil => rfl
  | cons v vs ih =>
    cases hp with
    | ended h =>
      rw [Progress.play_over rfl, Progress.play_over rfl]
    | again h =>
      obtain ⟨-, -, hlast⟩ := h.asked
      exact last_kept hlast _
    | @waits s hs _ stdin w hf =>
      have hgrows := hg.trans (works.move ⟨s, none⟩ v).grows
      have hplay := (works.play (Progress.move ⟨s, none⟩ v) vs).grows
      have hnext : ∀ us provided ws, vs = us ++ .provideFiles provided :: ws →
          s₀.Retried ((Progress.move ⟨s, none⟩ v).play vs).session →
          s₀.Retried ((Progress.move ⟨s, none⟩ v).play us).session :=
        fun us provided ws hvs => hprovided (v :: us) provided ws (congrArg (v :: ·) hvs)
      cases hv : v.files? with
      | none =>
        have hmove : Progress.move ⟨s.rebased files [], none⟩ v =
            (Progress.move ⟨s, none⟩ v).rebased files [] := by
          rcases hfiles with rfl | hu
          · exact move_rebased ⟨s, none⟩ [] hv
          · exact first_rebased hs hf hv (hu.earlier hgrows hplay)
        rw [kept_cons_none hv]
        refine Eq.trans (congrArg (Progress.play · (Move.kept vs)) hmove) ?_
        refine ih (move_begun hs hf v) hgrows hnext ?_
        exact hfiles.imp_left fun h => h.trans (files_move ⟨s, none⟩ hv).symm
      | some provided =>
        obtain ⟨rfl⟩ : v = .provideFiles provided := by
          cases v with
          | provideFiles files => cases hv; rfl
          | command c => cases hv
          | elapse => cases hv
        have hunfound : s₀.Unfound ((Progress.move ⟨s, none⟩ (.provideFiles provided)).play
            vs).session := by
          refine unfound_of_not_retried (hgrows.trans hplay) fun hretried => ?_
          exact not_retried hs (hprovided [] provided vs rfl hretried)
        rw [kept_cons_some hv]
        exact ih (move_begun hs hf _) hgrows hnext (.inr hunfound)

/-! ## Attempts -/

/-- The attempts of a run if all of them have these files: the modules that are there when they
begin, and how often the run may still be started again. A second attempt follows a first one whose
dialogue comes to an exception for want of a module that the resolver has. -/
inductive Tries (s : Session) (source : SourceUnit) (program : Program)
    (files : List (String × String)) : Registry → Nat → Prop where
  | first : Tries s source program files (s.prefetch program).registry 1
  | again {asked : List (String × String)} {d : Dialogue (Except Exit Value)} {x : Exception}
    {name : String} {m : Module}
    (hreads : (s.dialogueOf program (s.prefetch program).registry).Reads files asked d)
    (hd : d.Concludes source.file s.setup.explainer
      (.ok (.failed (x.explain source.file s.setup.explainer))))
    (hx : x.missingModule = some name) (hm : s.setup.resolver.resolve name = .ok m) :
    Tries s source program files
      ({ s with registry := (s.prefetch program).registry.install m }.prefetch program).registry 0

/-- Where a run is in the dialogue of an attempt, if all its attempts have the files that were there
when it was started. -/
inductive Viewing (s : Session) (source : SourceUnit) (request : RunRequest) (program : Program) :
    Progress → Prop where
  | waits {t : Session} {registry : Registry} {retries : Nat} {stdin : List String} {w : Wait}
    {asked : List (String × String)} {m : Machine} {q : Query}
    {resume : Except Signal q.Answer → Dialogue (Except Exit Value)} {shown : Message}
    (ht : s.Tries source program s.files registry retries)
    (hf : t.flight = some ⟨source, request, retries, s.files, stdin, w⟩)
    (he : s.Equipped registry t) (hi : t.interrupted = false)
    (hreads : (s.dialogueOf program registry).Reads s.files asked (.ask m q resume))
    (hw : w.IsFor q resume shown) : Viewing s source request program ⟨t, none⟩
  | ended {p : Progress} {r : Except RunFault Outcome} {registry : Registry} {retries : Nat}
    {asked : List (String × String)} {d : Dialogue (Except Exit Value)}
    (ht : s.Tries source program s.files registry retries) (hr : p.result = some r)
    (hreads : (s.dialogueOf program registry).Reads s.files asked d)
    (hd : d.Concludes source.file s.setup.explainer r) : Viewing s source request program p

/-- Where an attempt with the files of the session halts. -/
def Tested (s : Session) (source : SourceUnit) (program : Program) (retries : Nat)
    (files : List (String × String)) (x : Halt × Stage) : Prop :=
  files = s.files ∧ ∃ registry given, s.Tries source program s.files registry retries ∧
    ReadsTo source.file s.setup.explainer s.files (s.dialogueOf program registry) given x ∧
    s.Equipped registry x.2.session ∧
    ∀ e, x.1 = .ends (.raised e) → x.2.session.interrupted = false

theorem finish_viewing {retries : Nat} {given : List String} {e : AttemptEnd} {st : Stage}
    (ht : s.Tries source program s.files registry retries) (hu : t.setup = s.setup)
    (h : ReadsTo source.file s.setup.explainer s.files (s.dialogueOf program registry) given
      (.ends e, st)) : Viewing s source request program (t.finish source e) := by
  obtain ⟨asked, left, d, e', hreads, -, he', hd⟩ := h
  obtain ⟨r, hr, hconcludes⟩ := finish_concludes hu he' hd
  exact .ended ht hr hreads hconcludes

/-- The second attempt of a run has the files of the first one. -/
theorem Tries.of_missing {given : List String} {x : Exception} {name : String} {m : Module}
    {st : Stage}
    (h : ReadsTo source.file s.setup.explainer s.files
      (s.dialogueOf program (s.prefetch program).registry) given (.ends (.raised x), st))
    (hx : x.missingModule = some name) (hm : s.setup.resolver.resolve name = .ok m) :
    s.Tries source program s.files
      ({ s with registry := (s.prefetch program).registry.install m }.prefetch program).registry
      0 := by
  obtain ⟨asked, left, d, e', hreads, -, he', hd⟩ := h
  obtain ⟨r, hr, hconcludes⟩ := finish_concludes (t := s) rfl he' hd
  cases hr
  exact .again hreads hconcludes hx hm

/-- The session that a run is started again in has one more module. -/
theorem Equipped.restarting (he : s.Equipped registry t) {name : String} {m : Module}
    (hm : t.setup.resolver.resolve name = .ok m) (source : SourceUnit) (request : RunRequest) :
    s.Equipped (registry.install m) (t.restarting source request name) := by
  refine ⟨(works.restarting source request name).setup.trans he.setup,
    (files_restarting t source request name).trans he.files, ?_⟩
  rw [Session.restarting, registry_startDebugger, installMissing_of_ok hm, ← he.registry]
  rfl

theorem proceed_viewing {retries : Nat} {halt : Halt} {st : Stage}
    (hc : compile source.text source.file s.setup.config.recursionLimit = .ok program)
    (h : s.Tested source program retries s.files (halt, st)) :
    Viewing s source request program (proceed source request s.files retries halt st) := by
  refine proceed_induction (A := s.Tested source program) ?_ ?_ ?_ ?_ ?_ h
  · rintro retries files w st ⟨rfl, registry, given, ht, hreads, he, -⟩
    obtain ⟨hi, asked, m, q, resume, shown, hreads, hw, -, -⟩ := hreads
    exact .waits (t := { st.session with flight := _ }) ht rfl
      ⟨he.setup, he.files, he.registry⟩ hi hreads hw
  · rintro retries files f st ⟨-, registry, given, ht, ⟨asked, left, d, hreads, -, hd⟩, -⟩
    exact .ended ht rfl hreads hd
  · rintro retries files e st ⟨-, registry, given, ht, hreads, he, -⟩ -
    exact finish_viewing ht he.setup hreads
  · rintro retries files x name err st ⟨-, registry, given, ht, hreads, he, -⟩ - -
    exact finish_viewing ht ((works.installMissing name).setup.trans he.setup) hreads
  · rintro retries files x name m st ⟨-, registry, given, ht, hreads, he, hi⟩ hx hm
    -- only the first attempt is followed by another one
    obtain ⟨rfl, rfl⟩ : retries = 0 ∧ registry = (s.prefetch program).registry := by
      cases ht
      exact ⟨rfl, rfl⟩
    have hagain := he.restarting hm source request
    have hrunning := (interrupted_restarting source request name).trans (hi x rfl)
    have hregistry := registry_prefetch
      (s := { s with registry := (s.prefetch program).registry.install m }) hagain.registry
      hagain.setup program
    obtain ⟨hreads', hequipped⟩ := attempt_reads hc hagain hrunning hregistry request
    exact ⟨hagain.files, _, _, .of_missing hreads hx (he.setup ▸ hm), hreads', hequipped,
      fun x hx => attempt_raised (Prod.ext hx rfl)⟩

/-! ## Moves -/

/-- A run that goes on after an answer. -/
theorem resume_viewing {retries : Nat} {stdin : List String} {w : Wait}
    {asked : List (String × String)} {d : Dialogue (Except Exit Value)}
    (hc : compile source.text source.file s.setup.config.recursionLimit = .ok program)
    (ht : s.Tries source program s.files registry retries) (he : s.Equipped registry t)
    (hi : t.interrupted = false)
    (hreads : (s.dialogueOf program registry).Reads s.files asked d) :
    Viewing s source request program
      (t.resume ⟨source, request, retries, s.files, stdin, w⟩ d) := by
  have hequipped := he.unaided (unaided.converse (request.mode == .debug) s.files d ⟨t, stdin⟩)
    (files_converse _ s.files d ⟨t, stdin⟩)
  exact proceed_viewing hc ⟨rfl, registry, _, ht,
    converse_reads (request.mode == .debug) _ _ hreads rfl hi, hequipped,
    fun x hx => converse_raised (Prod.ext hx rfl)⟩

/-- A move that provides no files. -/
theorem move_viewing
    (hc : compile source.text source.file s.setup.config.recursionLimit = .ok program)
    (h : Viewing s source request program p) {v : Move} (hv : v.files? = none) :
    Viewing s source request program (p.move v) := by
  cases h with
  | ended ht hr hreads hd =>
    rw [Progress.move_over hr v]
    exact .ended ht hr hreads hd
  | @waits t registry retries stdin w asked m q resume shown ht hf he hi hreads hw =>
    have hexecutes : Executes s source (s.dialogueOf program registry) :=
      ⟨program, registry, hc, rfl⟩
    have hanswered := move_answered hexecutes hf hi hreads hw v
    generalize Progress.takes ⟨t, none⟩ v = lines, Progress.move ⟨t, none⟩ v = p at hanswered ⊢
    cases hanswered with
    | ignored => exact .waits ht hf he hi hreads hw
    | files provided => cases hv
    | line hq hu hfiles hi line hreads =>
      exact resume_viewing hc ht (he.unaided hu hfiles) hi hreads
    | granted hu hfiles hi hreads => exact resume_viewing hc ht (he.unaided hu hfiles) hi hreads
    | stops hsetup hstop hsig =>
      obtain ⟨r, hr, hd⟩ := stop_concludes (hsetup.trans he.setup) hstop hsig
      exact .ended ht hr hreads hd

theorem play_viewing
    (hc : compile source.text source.file s.setup.config.recursionLimit = .ok program)
    (h : Viewing s source request program p) {vs : List Move} (hvs : ∀ v ∈ vs, v.files? = none) :
    Viewing s source request program (p.play vs) :=
  Progress.play_induction_entered (P := fun _ => Viewing s source request program)
    (fun _ hv h => move_viewing hc h hv) [] h hvs

theorem start_viewing
    (hc : compile source.text source.file s.setup.config.recursionLimit = .ok program)
    (request : RunRequest) : Viewing s source request program (s.start source request) := by
  obtain ⟨hreads, hequipped, hstart⟩ := start_reads hc request
  rw [hstart]
  exact proceed_viewing hc ⟨rfl, _, _, .first, hreads, hequipped,
    fun x hx => attempt_raised (Prod.ext hx rfl)⟩

/-! ## Whole runs -/

/-- The attempts depend on the modules, the files and the settings of a session only. -/
theorem Tries.of_source {u : SourceUnit} {retries : Nat}
    (h : Tries { s with source := u } source program files registry retries) :
    Tries s source program files registry retries := by
  have hregistry : ({ s with source := u }.prefetch program).registry =
      (s.prefetch program).registry :=
    registry_prefetch (s := s) (t := { s with source := u }) rfl rfl program
  cases h with
  | first =>
    rw [hregistry]
    exact .first
  | @again _ _ _ _ m hreads hd hx hm =>
    rw [hregistry] at hreads
    have hagain : Tries s source program files _ 0 := .again hreads hd hx hm
    have hmodules := registry_prefetch
      (s := { s with registry := (s.prefetch program).registry.install m })
      (t := { s with
        source := u
        registry := ({ s with source := u }.prefetch program).registry.install m })
      (congrArg (·.install m) hregistry) rfl program
    rw [← hmodules] at hagain
    exact hagain

theorem Viewing.isAt (h : Viewing s source request program p) :
    ∃ registry retries asked d, s.Tries source program s.files registry retries ∧
      (s.dialogueOf program registry).Reads s.files asked d ∧
      p.IsAt source.file s.setup.explainer d := by
  cases h with
  | waits ht hf he hi hreads hw => exact ⟨_, _, _, _, ht, hreads, .waits rfl hf hw⟩
  | ended ht hr hreads hd => exact ⟨_, _, _, _, ht, hreads, .ended hr hd⟩

/-- Files that are provided while a run waits are those of the session. -/
theorem files_play (p : Progress) (vs : List Move) :
    (p.play vs).session.files =
      ((p.heeded vs).filterMap Move.files?).getLast?.getD p.session.files := by
  induction vs generalizing p with
  | nil => rfl
  | cons v vs ih =>
    change ((p.move v).play vs).session.files = _
    unfold Progress.heeded
    split
    · next hheeds =>
      rw [ih (p.move v)]
      cases hv : v.files? with
      | none => rw [List.filterMap_cons_none hv, files_move p hv]
      | some provided =>
        have hmoved : (p.move v).session.files = provided := by
          obtain ⟨s, result⟩ := p
          cases v with
          | command c => cases hv
          | elapse => cases hv
          | provideFiles files =>
            cases result with
            | some r => cases hheeds
            | none =>
              cases hv
              rfl
        rw [List.filterMap_cons_some hv, List.getLast?_cons, Option.getD_some, hmoved]
    · next hheeds => rw [Progress.move_ignored (Bool.eq_false_iff.mpr hheeds), ih p]

end Session

open Session in
/-- Of the files that are provided while a run waits, the run sees none: all its attempts are
executed with the files that were there when it was started, and without the new files it does the
same. The last files that were provided are there for the next run. If the run is started again, the
new files have to come after that. -/
theorem files_kept (s : Session) (request : RunRequest) (p : Progress)
    (hp : s.run request = .ok p) (vs : List Move)
    (hprovided : ∀ us files ws, vs = us ++ .provideFiles files :: ws →
      s.Retried (p.play vs).session → s.Retried (p.play us).session) :
    let source := s.sourceFor request
    (∀ program, compile source.text source.file s.setup.config.recursionLimit = .ok program →
      ∃ registry retries asked d, s.Tries source program s.files registry retries ∧
        (s.dialogueOf program registry).Reads s.files asked d ∧
        (p.play vs).IsAt source.file s.setup.explainer d) ∧
    p.play (Move.kept vs) =
      ⟨(p.play vs).session.provideFiles s.files, (p.play vs).result⟩ ∧
    (p.play vs).session.files =
      ((p.heeded vs).filterMap Move.files?).getLast?.getD s.files := by
  intro source
  let s' : Session := { s with source := source }
  have hstart : p = s'.start source request := run_eq hp
  have hbegun : Begun s' source request p := hstart ▸ start_begun (.refl s') source request
  have hgrows : s'.Grows p.session := hstart ▸ (works.start s' source request).grows
  have hfiles : p.session.files = s.files := by
    have hsame := start_rebased s' [] source request
    rw [rebased_self, ← hstart] at hsame
    rw [hsame]
    rfl
  have hkept := begun_kept hbegun hgrows hprovided (.inl rfl)
  rw [rebased_progress, hfiles] at hkept
  have hsame : p.play (Move.kept vs) =
      ⟨(p.play vs).session.provideFiles s.files, (p.play vs).result⟩ := by
    rw [hkept]
    exact congrArg (Progress.mk · (p.play vs).result) (rebased_nil _ _)
  refine ⟨fun program hc => ?_, hsame, ?_⟩
  · have hplain : ∀ v ∈ Move.kept vs, v.files? = none := by
      intro v hv
      exact Option.isNone_iff_eq_none.mp (List.mem_filter.mp hv).2
    have hstarted : Viewing s' source request program p :=
      hstart ▸ start_viewing (s := s') hc request
    have hviewing := play_viewing (s := s') hc hstarted hplain
    obtain ⟨registry, retries, asked, d, ht, hreads, hat⟩ := hviewing.isAt
    refine ⟨registry, retries, asked, d, ht.of_source, hreads, ?_⟩
    rw [hsame] at hat
    cases hat with
    | waits hr hf hw => exact .waits hr hf hw
    | ended hr hd => exact .ended hr hd
  · rw [files_play, hfiles]

namespace Providing

/-- A session whose resolver has a module, with one file. -/
def session : Session := { Retrying.session with files := [("f", "old")] }

def request (source : String) : RunRequest := ⟨some source, none, .plain, [], []⟩

/-- The run of a source. -/
def run (source : String) : Progress :=
  { session with source := session.source.replace source "main.scm" }.start
    (session.source.replace source "main.scm") (request source)

def provided : Move := .provideFiles [("f", "new")]

def entered : Move := .command (.input "a")

/-- The last message, if the file is the value of the run. -/
def told (text : String) : Message := ⟨.finish, .text text, ContentType.json⟩

/-- The module is imported first, so the run was started again when it waits. -/
def early : String := "(import m)(input)(read-file \"f\")"

theorem files_kept_early : session.Retried (run early).session ∧
    (run early).play [entered] =
      ⟨((run early).play [provided, entered]).session.provideFiles [("f", "old")],
        ((run early).play [provided, entered]).result⟩ ∧
    (session.published ((run early).play [provided, entered]).session).getLast? =
      some (told "\"old\"") := by
  have hretried : session.Retried (run early).session :=
    ⟨(run early).session.notices, "m", _, (List.append_nil _).symm, by decide +kernel, rfl⟩
  have hold : (session.published ((run early).play [provided, entered]).session).getLast? =
      some (told "\"old\"") := by decide +kernel
  have hrun : session.run (request early) = .ok (run early) := rfl
  have hprovided : ∀ us files ws, [provided, entered] = us ++ .provideFiles files :: ws →
      session.Retried ((run early).play [provided, entered]).session →
      session.Retried ((run early).play us).session := by
    intro us files ws hvs _
    cases us with
    | nil =>
      rw [Progress.play_nil]
      exact hretried
    | cons v us =>
      have hrest := (List.cons.inj hvs).2
      cases us with
      | nil => cases hrest
      | cons v us =>
        have hlength := congrArg List.length hrest
        simp at hlength
  obtain ⟨-, hsame, -⟩ := files_kept session (request early) (run early) hrun [provided, entered]
    hprovided
  have hkept : Move.kept [provided, entered] = [entered] := rfl
  have hfiles : session.files = [("f", "old")] := rfl
  rw [hkept, hfiles] at hsame
  exact ⟨hretried, hsame, hold⟩

/-- A first line is asked for before the module is imported. -/
def late : String := "(input)(import m)(read-file \"f\")"

/-- Files that are provided before a run is started again are those of its second attempt. -/
theorem second_attempt_differs :
    session.run (request late) = .ok (run late) ∧ session.files = [("f", "old")] ∧
    (session.published ((run late).play [provided, entered, entered]).session).getLast? =
      some (told "\"new\"") ∧
    (session.published ((run late).play [entered, entered]).session).getLast? =
      some (told "\"old\"") := by
  refine ⟨rfl, rfl, ?_, ?_⟩
  · decide +kernel
  · decide +kernel

end Providing
end Lispbox
