import Lispbox.Proofs.Session.Asking

/-!
# What a run takes no notice of

While an attempt is executed a session looks neither at what was done before nor at the files that
are there for later attempts. So a session with other files and a longer past (`Session.rebased`)
does the same, and comes to the same session up to these two.

Only where an attempt begins does it matter which files there are.

* `converse_rebased`, `attempt_rebased`: conversations and attempts.
* `proceed_rebased`: the way a run goes on; if it is started again, the files have to be the same.
* `move_rebased`, `start_rebased`: moves of a run that waits, and whole runs.
-/
namespace Lispbox
namespace Session

/-- The session with other files for later attempts, and with more that was done before. -/
def rebased (s : Session) (files : List (String × String)) (past : List Notice) : Session :=
  { s with files := files, notices := s.notices ++ past }

end Session

/-- The stage with its session rebased. -/
def Stage.rebased (st : Stage) (files : List (String × String)) (past : List Notice) : Stage :=
  ⟨st.session.rebased files past, st.stdin⟩

/-- The progress with its session rebased. -/
def Progress.rebased (p : Progress) (files : List (String × String)) (past : List Notice) :
    Progress :=
  ⟨p.session.rebased files past, p.result⟩

/-- The files that a move provides. -/
def Move.files? : Move → Option (List (String × String))
  | .provideFiles files => some files
  | .command _ | .elapse => none

namespace Session

variable {s₀ s : Session} {files : List (String × String)} {past : List Notice}
  {source : SourceUnit} {request : RunRequest}

theorem rebased_nil (s : Session) (files : List (String × String)) :
    s.rebased files [] = s.provideFiles files := by
  unfold rebased
  rw [List.append_nil]
  rfl

theorem publish_rebased (s : Session) (m : Message) :
    (s.rebased files past).publish m = (s.publish m).rebased files past := rfl

theorem enter_rebased (files : List (String × String)) (past : List Notice) (s : Session)
    (next : ExecutionState) :
    (s.rebased files past).enter next = (s.enter next).rebased files past := by
  unfold enter
  change (if s.state = next then _ else _) = _
  split <;> rfl

theorem deliver_rebased (files : List (String × String)) (past : List Notice) (s : Session)
    (e : Event) :
    (s.rebased files past).deliver e = ((s.deliver e).1, (s.deliver e).2.rebased files past) := by
  unfold deliver
  split <;> rfl

/-! ## Conversations -/

theorem attend_rebased (debugging : Bool) (fs : List (String × String)) (st : Stage) (q : Query) :
    (st.rebased files past).attend debugging fs q =
      ((st.attend debugging fs q).1, (st.attend debugging fs q).2.rebased files past) := by
  cases q with
  | poll => rfl
  | readFile name => rfl
  | line file n =>
    unfold Stage.attend
    dsimp only
    split
    · rfl
    · change (if (st.session.debugger.reach file n).1 = true then _ else _) = _
      split
      · have hpaused := enter_rebased files past
          ({ st.session with debugger := (st.session.debugger.reach file n).2 }.deliver
            (.debugPause n)).2 .debugPaused
        exact congrArg (fun s => ((Reaction.wait .debug : Reaction (.line file n)),
          (⟨s, st.stdin⟩ : Stage))) hpaused
      · rfl
  | emit e =>
    have hout := deliver_rebased files past st.session e
    dsimp only [Stage.attend, Stage.rebased]
    rw [hout]
    cases (st.session.deliver e).1 <;> rfl
  | input prompt =>
    have hasked := deliver_rebased files past st.session (.inputRequest prompt)
    dsimp only [Stage.attend, Stage.rebased]
    rw [hasked]
    cases st.stdin with
    | cons line rest => rfl
    | nil =>
      have hsuspended := enter_rebased files past
        (st.session.deliver (.inputRequest prompt)).2 .suspended
      exact congrArg (fun s => ((Reaction.wait .input : Reaction (.input prompt)),
        (⟨s, []⟩ : Stage))) hsuspended
  | sleep duration =>
    have hasked := deliver_rebased files past st.session (.sleep duration)
    dsimp only [Stage.attend, Stage.rebased]
    rw [hasked]
    dsimp only
    change (if (st.session.deliver (.sleep duration)).2.setup.config.honorSleep && _ then _
      else _) = _
    split <;> rfl

theorem react_rebased (debugging : Bool) (fs : List (String × String)) (st : Stage) (q : Query) :
    (st.rebased files past).react debugging fs q =
      ((st.react debugging fs q).1, (st.react debugging fs q).2.rebased files past) := by
  unfold Stage.react
  change (if st.session.interrupted && q.mayStop then _ else _) = _
  split
  · rfl
  · exact attend_rebased debugging fs st q

theorem converse_rebased (files : List (String × String)) (past : List Notice) (debugging : Bool)
    (fs : List (String × String)) (d : Dialogue (Except Exit Value)) (st : Stage) :
    converse debugging fs d (st.rebased files past) =
      ((converse debugging fs d st).1, (converse debugging fs d st).2.rebased files past) := by
  obtain ⟨hhalt, hstage⟩ := converse_congr (J := fun a b => b = a.rebased files past)
    (by rintro a b e rfl; rfl) (by rintro a b q rfl; rw [react_rebased]; exact ⟨rfl, rfl⟩) d
    (rfl : st.rebased files past = _)
  exact Prod.ext hhalt hstage

/-! ## Attempts -/

theorem prefetch_rebased (s : Session) (p : Program) :
    (s.rebased files past).prefetch p = (s.prefetch p).rebased files past := by
  have habsent : (s.rebased files past).absent p = s.absent p := rfl
  have hsetup : (s.rebased files past).setup = s.setup := rfl
  rw [prefetch_eq, prefetch_eq, habsent, hsetup]
  split
  · rfl
  · split <;> rfl

theorem startDebugger_rebased (s : Session) (source : SourceUnit) (request : RunRequest) :
    (s.rebased files past).startDebugger source request =
      (s.startDebugger source request).rebased files past := by
  unfold startDebugger
  split <;> rfl

/-- An attempt is executed with the files that are there. -/
theorem attempt_rebased (s : Session) (past : List Notice) (source : SourceUnit)
    (request : RunRequest) :
    (s.rebased s.files past).attempt source request =
      ((s.attempt source request).1, (s.attempt source request).2.rebased s.files past) := by
  cases hc : compile source.text source.file s.setup.config.recursionLimit with
  | error e =>
    rw [attempt_of_error hc]
    exact attempt_of_error (s := s.rebased s.files past) hc request
  | ok p =>
    have hrunning : ((s.rebased s.files past).prefetch p).enter .running =
        ((s.prefetch p).enter .running).rebased s.files past := by
      rw [prefetch_rebased, enter_rebased]
    have hfiles : ((s.prefetch p).enter .running).files = s.files :=
      (files_enter .running).trans (files_prefetch p)
    rw [attempt_of_ok hc, attempt_of_ok (s := s.rebased s.files past) hc, hrunning, hfiles]
    exact converse_rebased _ _ _ _ _ ⟨(s.prefetch p).enter .running, request.stdin⟩

/-- A session whose own files are put in place is the same. -/
theorem rebased_self (s : Session) : s.rebased s.files [] = s := rebased_nil s s.files

theorem files_attempt (s : Session) (source : SourceUnit) (request : RunRequest) :
    (s.attempt source request).2.session.files = s.files := by
  have hsame := attempt_rebased s [] source request
  rw [rebased_self] at hsame
  rw [hsame]
  rfl

/-! ## Ends -/

theorem close_rebased (s : Session) (m : Message) (next : ExecutionState) (o : Outcome) :
    (s.rebased files past).close m next o = (s.close m next o).rebased files past := by
  unfold close
  dsimp only
  rw [publish_rebased, enter_rebased]
  rfl

theorem finish_rebased (s : Session) (source : SourceUnit) (e : AttemptEnd) :
    (s.rebased files past).finish source e = (s.finish source e).rebased files past := by
  cases e <;> exact close_rebased s _ _ _

theorem fail_rebased (s : Session) (f : RunFault) :
    (s.rebased files past).fail f = (s.fail f).rebased files past := by
  unfold fail
  dsimp only
  rw [enter_rebased]
  rfl

theorem installMissing_rebased (files : List (String × String)) (past : List Notice)
    (s : Session) (name : String) :
    (s.rebased files past).installMissing name =
      ((s.installMissing name).1, (s.installMissing name).2.rebased files past) := by
  have hsetup : (s.rebased files past).setup = s.setup := rfl
  cases hm : s.setup.resolver.resolve name with
  | ok m =>
    rw [installMissing_of_ok hm, installMissing_of_ok (hsetup ▸ hm)]
    rfl
  | error err =>
    rw [installMissing_of_error hm, installMissing_of_error (hsetup ▸ hm)]
    rfl

theorem restarting_rebased (files : List (String × String)) (past : List Notice) (s : Session)
    (source : SourceUnit) (request : RunRequest) (name : String) :
    (s.rebased files past).restarting source request name =
      (s.restarting source request name).rebased files past := by
  rw [restarting, installMissing_rebased, startDebugger_rebased]
  rfl

theorem files_restarting (s : Session) (source : SourceUnit) (request : RunRequest)
    (name : String) : (s.restarting source request name).files = s.files := by
  have hinstalled := installMissing_rebased s.files [] s name
  rw [rebased_self] at hinstalled
  rw [restarting, files_startDebugger, hinstalled]
  rfl

/-- No other attempt follows one that halts so, even if it halts for want of a module. -/
def IsFinal (s : Session) (retries : Nat) (halt : Halt) : Prop :=
  retries = 0 ∨ ∀ x name m, halt = .ends (.raised x) → x.missingModule = some name →
    s.setup.resolver.resolve name ≠ .ok m

/-- A run that is started again is so with the files that are there. -/
theorem proceed_rebased (source : SourceUnit) (request : RunRequest)
    (given : List (String × String)) (retries : Nat) (halt : Halt) (st : Stage)
    (h : files = st.session.files ∨ IsFinal st.session retries halt) :
    proceed source request given retries halt (st.rebased files past) =
      (proceed source request given retries halt st).rebased files past := by
  -- where one run goes on, the other one has come to the same place
  refine proceed_induction (A := fun n given' x =>
      proceed source request given retries halt (st.rebased files past) =
          proceed source request given' n x.1 (x.2.rebased files past) ∧
        (files = x.2.session.files ∨ IsFinal x.2.session n x.1))
    (P := fun q => proceed source request given retries halt (st.rebased files past) =
      q.rebased files past) ?_ ?_ ?_ ?_ ?_ ⟨rfl, h⟩
  · exact fun h => h.1.trans (proceed_waits _ _ _ _ _ _)
  · exact fun h => h.1.trans ((proceed_faults _ _ _ _ _ _).trans (fail_rebased _ _))
  · exact fun h hlast => h.1.trans ((proceed_ends hlast _ _ _ _).trans (finish_rebased _ _ _))
  · intro n given' x name err st' ⟨hsame, _⟩ hx hm
    have hm' : (st'.rebased files past).session.setup.resolver.resolve name = .error err := hm
    have hunfound := proceed_of_unfound hx hm' source request given' n
    have hinstall := congrArg Prod.snd (installMissing_rebased files past st'.session name)
    refine hsame.trans (hunfound.trans ?_)
    exact (congrArg (Session.finish · source _) hinstall).trans (finish_rebased _ _ _)
  · intro n given' x name m st' ⟨hsame, h⟩ hx hm
    have hm' : (st'.rebased files past).session.setup.resolver.resolve name = .ok m := hm
    have hfound := proceed_of_found hx hm' source request given' n
    rcases h with rfl | hlast | hfinal
    · have hfiles := files_restarting st'.session source request name
      have hrestart := restarting_rebased st'.session.files past st'.session source request name
      have hattempt := attempt_rebased (st'.session.restarting source request name) past source
        request
      rw [hfiles] at hattempt
      have hst : (st'.rebased st'.session.files past).session =
        st'.session.rebased st'.session.files past := rfl
      rw [hst, hrestart, hattempt] at hfound
      refine ⟨hsame.trans (hfound.trans ?_), .inl ?_⟩
      · rw [hfiles]
        rfl
      · rw [files_attempt, hfiles]
    · cases hlast
    · exact absurd hm (hfinal x name m rfl hx)

/-! ## Moves -/

theorem files_converse (debugging : Bool) (fs : List (String × String))
    (d : Dialogue (Except Exit Value)) (st : Stage) :
    (converse debugging fs d st).2.session.files = st.session.files := by
  have hsame := converse_rebased st.session.files [] debugging fs d st
  rw [show st.rebased st.session.files [] = st from
    congrArg (Stage.mk · st.stdin) (rebased_self st.session)] at hsame
  rw [hsame]
  rfl

theorem resume_rebased (s : Session) (f : Flight) (d : Dialogue (Except Exit Value))
    (h : files = s.files ∨
      IsFinal (converse (f.request.mode == .debug) f.files d ⟨s, f.stdin⟩).2.session f.retries
        (converse (f.request.mode == .debug) f.files d ⟨s, f.stdin⟩).1) :
    (s.rebased files past).resume f d = (s.resume f d).rebased files past := by
  have hconverse := converse_rebased files past (f.request.mode == .debug)
    f.files d ⟨s, f.stdin⟩
  have hfiles := files_converse (f.request.mode == .debug) f.files d ⟨s, f.stdin⟩
  unfold resume
  rw [show (⟨s.rebased files past, f.stdin⟩ : Stage) = Stage.rebased ⟨s, f.stdin⟩ files past from
    rfl, hconverse]
  exact proceed_rebased _ _ _ _ _ _ (h.imp_left fun h => h.trans hfiles.symm)

/-- A move other than new files is ignored, or it lets the run go on; which of these, and how,
depends neither on the files nor on the past. -/
theorem move_alike {f : Flight} (hf : s.flight = some f) {v : Move} (hv : v.files? = none) :
    (∀ files past, Progress.move ⟨s.rebased files past, none⟩ v = ⟨s.rebased files past, none⟩) ∨
    ∃ t d, s.Unaided t ∧ t.files = s.files ∧
      ∀ files past, Progress.move ⟨s.rebased files past, none⟩ v =
        (t.rebased files past).resume f d := by
  have hf' (files past) : (s.rebased files past).flight = some f := hf
  have hrunning := unaided.enter (s := s) .running
  have hmoved := move_cases hf v
  generalize Progress.move ⟨s, none⟩ v = p at hmoved
  cases hmoved with
  | ignored h =>
    refine .inl fun files past => Progress.move_ignored ?_
    rw [heeds_waiting hf] at h
    rw [heeds_waiting (hf' files past)]
    exact h
  | files provided => cases hv
  | interrupt =>
    exact .inr ⟨{ s with interrupted := true }, _, .of_eq rfl rfl rfl, rfl,
      fun files past => move_interrupt (hf' files past)⟩
  | @line resume hw line =>
    refine .inr ⟨s.enter .running, resume (.ok line), hrunning, files_enter _,
      fun files past => ?_⟩
    rw [move_line (hf' files past) hw, enter_rebased]
  | elapse hw => exact .inr ⟨s, _, .refl s, rfl, fun files past => move_elapse (hf' files past) hw⟩
  | @goOn resume hw c d hc =>
    refine .inr ⟨{ s.enter .running with debugger := d }, resume (.ok ()),
      hrunning.trans (.of_eq rfl rfl rfl), files_enter _, fun files past => ?_⟩
    have hc' : ((s.rebased files past).enter .running).debugger.resume c = some d := by
      rw [enter_rebased]
      exact hc
    rw [move_goOn (hf' files past) hw hc', enter_rebased]
    rfl
  | @quit resume hw =>
    refine .inr ⟨{ s.enter .running with debugger := .inactive }, resume (.error .quit),
      hrunning.trans (.of_eq rfl rfl rfl), files_enter _, fun files past => ?_⟩
    rw [move_quit (hf' files past) hw, enter_rebased]
    rfl

/-- What is there is there for all that follows. -/
theorem move_rebased (p : Progress) (past : List Notice) {v : Move} (hv : v.files? = none) :
    (p.rebased p.session.files past).move v = (p.move v).rebased p.session.files past := by
  obtain ⟨s, result⟩ := p
  cases result with
  | some r => rfl
  | none =>
    cases hf : s.flight with
    | none =>
      have hf' : (s.rebased s.files past).flight = none := hf
      cases v with
      | provideFiles files => cases hv
      | elapse =>
        simp only [Progress.move, Progress.rebased, elapse, hf, hf']
      | command c =>
        simp only [Progress.move, Progress.rebased, command, hf, hf']
        rfl
    | some f =>
      change Progress.move ⟨s.rebased s.files past, none⟩ v = _
      rcases move_alike hf hv with hignored | ⟨t, d, -, hfiles, hresume⟩
      · have hsame := hignored s.files []
        rw [rebased_self] at hsame
        rw [hignored, hsame]
        rfl
      · have hsame := hresume s.files []
        rw [rebased_self, ← hfiles, rebased_self] at hsame
        rw [hresume, hsame]
        exact resume_rebased t f d (.inl hfiles.symm)

theorem rebased_progress (p : Progress) : p.rebased p.session.files [] = p :=
  congrArg (Progress.mk · p.result) (rebased_self p.session)

theorem files_move (p : Progress) {v : Move} (hv : v.files? = none) :
    (p.move v).session.files = p.session.files := by
  have hsame := move_rebased p [] hv
  rw [rebased_progress] at hsame
  rw [hsame]
  rfl

/-- A longer past stays as it is, whatever follows. -/
theorem play_rebased (p : Progress) (past : List Notice) (vs : List Move) :
    (p.rebased p.session.files past).play vs =
      (p.play vs).rebased (p.play vs).session.files past := by
  induction vs generalizing p with
  | nil => rfl
  | cons v vs ih =>
    change ((p.rebased p.session.files past).move v).play vs = _
    rw [show (p.rebased p.session.files past).move v =
      (p.move v).rebased (p.move v).session.files past from ?_, ih]
    · rfl
    · cases hv : v.files? with
      | none => rw [move_rebased p past hv, files_move p hv]
      | some files =>
        obtain ⟨s, result⟩ := p
        cases v with
        | provideFiles files => cases result <;> rfl
        | command c => cases hv
        | elapse => cases hv

/-! ## Whole runs -/

theorem opening_rebased (s : Session) (mode : RunMode) :
    (s.rebased files past).opening mode = (s.opening mode).rebased files past := by
  unfold opening
  rw [show ({ s.rebased files past with mailbox := [], interrupted := false } : Session) =
    Session.rebased { s with mailbox := [], interrupted := false } files past from rfl,
    enter_rebased, publish_rebased]

theorem start_rebased (s : Session) (past : List Notice) (source : SourceUnit)
    (request : RunRequest) :
    (s.rebased s.files past).start source request =
      (s.start source request).rebased s.files past := by
  have hfiles : ((s.opening request.mode).startDebugger source request).files = s.files :=
    (files_startDebugger source request).trans (files_opening request.mode)
  have hattempt := attempt_rebased ((s.opening request.mode).startDebugger source request) past
    source request
  rw [hfiles] at hattempt
  rw [start_eq, start_eq, opening_rebased, startDebugger_rebased, hattempt]
  rw [show (((s.opening request.mode).startDebugger source request).rebased s.files past).files =
    ((s.opening request.mode).startDebugger source request).files from hfiles.symm]
  exact proceed_rebased _ _ _ _ _ _ (.inl ((files_attempt _ source request).trans hfiles).symm)

end Session
end Lispbox
