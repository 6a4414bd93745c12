import Lispbox.Proofs.Session.Works

/-!
# The history of a session

A client has sources run and replaced, and it moves on the run in flight (`Act`). What a session has
come to after some acts is `Session.live`, the results of the runs that are over by then are
`Session.outcomes`. While a run is in flight the session refuses to run or to take another source;
an act that is refused is answered, and that is all.

What an act can do is said once, by `act_cases`, and what every act keeps lasts (`live_induction`).
Whether a run is in flight can be told from the history: it is, if more runs were accepted than are
over (`runs_accepted`).

* `refusals_traceless`: the source after any history, when an act is refused, and that the history
  without the refused acts is the same.
-/
namespace Lispbox

/-- What a client does with a session. -/
inductive Act where
  | run (request : RunRequest)
  | setSource (text : String) (file : Option String)
  /-- A command, new files, or the end of a pause of the script. -/
  | move (v : Move)

/-- The act asks for a run. -/
def Act.isRun : Act → Bool
  | .run _ => true
  | .setSource _ _ | .move _ => false

/-- The act may be refused: it asks for a run, or for another source. -/
def Act.mayBeRefused : Act → Bool
  | .run _ | .setSource _ _ => true
  | .move _ => false

/-- The text that an act puts in place of the source, and the file name if it gives one. -/
def Act.replacement? : Act → Option (String × Option String)
  | .run request => request.source.map fun text => (text, request.file)
  | .setSource text file => some (text, file)
  | .move _ => none

namespace Session

/-- What an act comes to, unless it is refused. -/
def act [Supply] (s : Session) : Act → Except Busy Progress
  | .run request => s.run request
  | .setSource text file => (s.setSource text file).map fun s => ⟨s, none⟩
  | .move v => .ok (Progress.move ⟨s, none⟩ v)

/-- The session after an act. -/
def perform [Supply] (s : Session) (a : Act) : Session :=
  match s.act a with
  | .ok p => p.session
  | .error _ => s

/-- The session after some acts. -/
def live [Supply] (s : Session) (as : List Act) : Session := as.foldl perform s

/-- The result of the run that is over with an act, if one is. -/
def result? [Supply] (s : Session) (a : Act) : Option (Except RunFault Outcome) :=
  match s.act a with
  | .ok p => p.result
  | .error _ => none

/-- The results of the runs that are over after some acts, in order. -/
def outcomes [Supply] (s : Session) : List Act → List (Except RunFault Outcome)
  | [] => []
  | a :: as => (s.result? a).toList ++ (s.perform a).outcomes as

/-- The acts that are not refused, in order. -/
def accepted [Supply] (s : Session) : List Act → List Act
  | [] => []
  | a :: as => if (s.act a).isOk then a :: (s.perform a).accepted as else s.accepted as

variable {s : Session} {a : Act} {as : List Act} {p : Progress}

@[simp] theorem live_cons [Supply] (s : Session) (a : Act) (as : List Act) :
    s.live (a :: as) = (s.perform a).live as := rfl

/-- What every act keeps. -/
theorem live_induction [Supply] {P : Session → Prop}
    (step : ∀ {s : Session} (a : Act), P s → P (s.perform a)) (h : P s) (as : List Act) :
    P (s.live as) :=
  List.foldlRecOn as perform h fun _ h a _ => step a h

theorem perform_of_ok [Supply] (h : s.act a = .ok p) : s.perform a = p.session := by
  simp only [perform, h]

theorem perform_of_error [Supply] {b : Busy} (h : s.act a = .error b) : s.perform a = s := by
  simp only [perform, h]

theorem result?_of_ok [Supply] (h : s.act a = .ok p) : s.result? a = p.result := by
  simp only [result?, h]

theorem result?_of_error [Supply] {b : Busy} (h : s.act a = .error b) : s.result? a = none := by
  simp only [result?, h]

theorem accepted_of_ok [Supply] (h : s.act a = .ok p) :
    s.accepted (a :: as) = a :: p.session.accepted as := by
  simp only [accepted, perform_of_ok h, h, Except.isOk, Except.toBool, if_true]

theorem accepted_of_error [Supply] {b : Busy} (h : s.act a = .error b) :
    s.accepted (a :: as) = s.accepted as := by
  simp only [accepted, h, Except.isOk, Except.toBool, Bool.false_eq_true, if_false]

/-! ## What an act does -/

theorem act_setSource [Supply] (hf : s.flight = none) (text : String) (file : Option String) :
    s.act (.setSource text file) =
      .ok ⟨{ s with source := s.source.replace text (file.getD s.source.file) }, none⟩ := by
  simp only [act, setSource, hf, Except.map]

theorem act_elapse [Supply] (hf : s.flight = none) : s.act (.move .elapse) = .ok ⟨s, none⟩ := by
  simp only [act, Progress.move, elapse, hf]

theorem act_command [Supply] (hf : s.flight = none) (c : Command) :
    s.act (.move (.command c)) =
      .ok ⟨{ s with
        mailbox := s.mailbox ++ [c], interrupted := s.interrupted || c == .interrupt }, none⟩ := by
  simp only [act, Progress.move, command, hf]

/-- What an act comes to. -/
inductive Acted [Supply] (s : Session) : Act → Except Busy Progress → Prop where
  /-- A run is in flight. -/
  | refused {f : Flight} {a : Act} (hf : s.flight = some f) (ha : a.mayBeRefused = true) :
    Acted s a (.error .busy)
  | run (hf : s.flight = none) (request : RunRequest) :
    Acted s (.run request)
      (.ok ({ s with source := s.sourceFor request }.start (s.sourceFor request) request))
  | replaced (hf : s.flight = none) (text : String) (file : Option String) :
    Acted s (.setSource text file)
      (.ok ⟨{ s with source := s.source.replace text (file.getD s.source.file) }, none⟩)
  /-- Without a run a move is kept for later, or it is new files. -/
  | kept (hf : s.flight = none) (v : Move) {mailbox : List Command} {interrupted : Bool}
    {files : List (String × String)} : Acted s (.move v)
      (.ok ⟨{ s with mailbox := mailbox, interrupted := interrupted, files := files }, none⟩)
  | moved {f : Flight} (hf : s.flight = some f) (v : Move) :
    Acted s (.move v) (.ok (Progress.move ⟨s, none⟩ v))

theorem act_cases [Supply] (s : Session) (a : Act) : Acted s a (s.act a) := by
  cases a with
  | run request =>
    cases hf : s.flight with
    | some f =>
      have hbusy : s.act (.run request) = .error .busy := run_busy hf request
      exact hbusy ▸ .refused hf rfl
    | none =>
      obtain ⟨p, hp⟩ := run_of_idle hf request
      have hact : s.act (.run request) = .ok p := hp
      rw [hact, run_eq hp]
      exact .run hf request
  | setSource text file =>
    cases hf : s.flight with
    | some f =>
      have hbusy : s.act (.setSource text file) = .error .busy := by
        simp only [act, setSource, hf, Except.map]
      exact hbusy ▸ .refused hf rfl
    | none => exact act_setSource hf text file ▸ .replaced hf text file
  | move v =>
    cases hf : s.flight with
    | some f => exact .moved hf v
    | none =>
      cases v with
      | provideFiles files => exact .kept hf _
      | elapse => exact act_elapse hf ▸ .kept hf .elapse
      | command c => exact act_command hf c ▸ .kept hf (.command c)

/-! ## Runs in flight -/

/-- A run waits, or it is over and not in flight any more. -/
def IsCoherent (p : Progress) : Prop := p.result.isNone = p.session.flight.isSome

theorem coherent_finish (s : Session) (source : SourceUnit) (e : AttemptEnd) :
    IsCoherent (s.finish source e) := by
  cases e <;> rfl

theorem proceed_coherent [Supply] (source : SourceUnit) (request : RunRequest)
    (files : List (String × String)) (retries : Nat) (halt : Halt) (st : Stage) :
    IsCoherent (proceed source request files retries halt st) :=
  proceed_induction (A := fun _ _ _ => True) (P := IsCoherent) (fun _ => rfl) (fun _ => rfl)
    (fun _ _ => coherent_finish _ _ _) (fun _ _ _ => coherent_finish _ _ _)
    (fun _ _ _ => trivial) trivial

theorem resume_coherent [Supply] (s : Session) (f : Flight) (d : Dialogue (Except Exit Value)) :
    IsCoherent (s.resume f d) :=
  proceed_coherent _ _ _ _ _ _

theorem start_coherent [Supply] (s : Session) (source : SourceUnit) (request : RunRequest) :
    IsCoherent (s.start source request) :=
  proceed_coherent _ _ _ _ _ _

theorem move_coherent [Supply] {f : Flight} (hf : s.flight = some f) (v : Move) :
    IsCoherent (Progress.move ⟨s, none⟩ v) := by
  have waits {s : Session} (hf : s.flight = some f) : IsCoherent ⟨s, none⟩ := by
    rw [IsCoherent, hf]
    rfl
  have hmoved := move_cases hf v
  generalize Progress.move ⟨s, none⟩ v = p at hmoved
  cases hmoved with
  | ignored => exact waits hf
  | files files => exact waits (s := s.provideFiles files) hf
  | interrupt => exact resume_coherent _ _ _
  | line => exact resume_coherent _ _ _
  | elapse => exact resume_coherent _ _ _
  | goOn => exact resume_coherent _ _ _
  | quit => exact resume_coherent _ _ _

/-- The number of runs in flight. -/
def inFlight (s : Session) : Nat := if s.flight.isSome then 1 else 0

/-- An act that is accepted: a run that it starts is in flight, or over with the act. -/
theorem act_counts [Supply] (h : s.act a = .ok p) :
    (if a.isRun then 1 else 0) + s.inFlight = p.result.toList.length + p.session.inFlight := by
  have counts {p : Progress} (hp : IsCoherent p) :
      p.result.toList.length + p.session.inFlight = 1 := by
    unfold IsCoherent at hp
    unfold inFlight
    cases hr : p.result with
    | none =>
      rw [hr] at hp
      simp [← hp]
    | some r =>
      rw [hr] at hp
      simp [← hp]
  have hacted := act_cases s a
  rw [h] at hacted
  cases hacted with
  | run hf request =>
    rw [counts (start_coherent _ _ _), inFlight, hf]
    rfl
  | replaced hf text file => simp [Act.isRun, inFlight]
  | kept hf v => simp [Act.isRun, inFlight]
  | moved hf v =>
    rw [counts (move_coherent hf v), inFlight, hf]
    rfl

/-- A run was accepted for each one that is over, and for the one in flight. -/
theorem runs_accepted [Supply] (s : Session) (as : List Act) :
    (s.accepted as).countP Act.isRun + s.inFlight =
      (s.outcomes as).length + (s.live as).inFlight := by
  induction as generalizing s with
  | nil => rfl
  | cons a as ih =>
    rw [live_cons, outcomes, List.length_append]
    cases h : s.act a with
    | error b =>
      rw [accepted_of_error h, perform_of_error h, result?_of_error h, ih]
      simp
    | ok p =>
      have hcounts := act_counts h
      have hlater := ih p.session
      rw [accepted_of_ok h, perform_of_ok h, result?_of_ok h, List.countP_cons]
      omega

end Session

/-! ## The source -/

/-- The source after some replacements; one without a file name keeps that of the source. -/
def SourceUnit.replaceAll (u : SourceUnit) (rs : List (String × Option String)) : SourceUnit :=
  rs.foldl (fun u r => u.replace r.1 (r.2.getD u.file)) u

/-- What counts is the last text, the last file name that was given, and the number. -/
theorem SourceUnit.replaceAll_eq (u : SourceUnit) (rs : List (String × Option String)) :
    u.replaceAll rs =
      ⟨(rs.getLast?.map Prod.fst).getD u.text, (rs.filterMap Prod.snd).getLast?.getD u.file,
        u.revision + rs.length⟩ := by
  induction rs generalizing u with
  | nil => rfl
  | cons r rs ih =>
    have hnext : u.replaceAll (r :: rs) = (u.replace r.1 (r.2.getD u.file)).replaceAll rs := rfl
    have htext : (rs.getLast?.map Prod.fst).getD r.1 = (rs.getLast?.getD r).1 :=
      Option.getD_map Prod.fst r rs.getLast?
    rw [hnext, ih, replace]
    cases hr : r.2 with
    | none => simp [List.getLast?_cons, hr, htext, Nat.add_comm, Nat.add_left_comm]
    | some file => simp [List.getLast?_cons, hr, htext, Nat.add_comm, Nat.add_left_comm]

namespace Session

variable {s : Session} {a : Act} {as : List Act} {p : Progress}

/-- An act that is accepted replaces the source if it asks for that, and leaves it alone if not. -/
theorem source_act [Supply] (h : s.act a = .ok p) :
    p.session.source = s.source.replaceAll a.replacement?.toList := by
  have hacted := act_cases s a
  rw [h] at hacted
  cases hacted with
  | run hf request =>
    rw [(works.start _ _ request).source, Act.replacement?, sourceFor]
    cases request.source <;> rfl
  | replaced hf text file => rfl
  | kept hf v => rfl
  | moved hf v => exact (works.move ⟨s, none⟩ v).source

theorem source_live [Supply] (s : Session) (as : List Act) :
    (s.live as).source = s.source.replaceAll ((s.accepted as).filterMap Act.replacement?) := by
  induction as generalizing s with
  | nil => rfl
  | cons a as ih =>
    rw [live_cons, ih]
    cases h : s.act a with
    | error b => rw [perform_of_error h, accepted_of_error h]
    | ok p =>
      rw [perform_of_ok h, accepted_of_ok h, source_act h]
      cases hr : a.replacement? with
      | none => rw [List.filterMap_cons_none hr]; rfl
      | some r => rw [List.filterMap_cons_some hr]; rfl

/-! ## Refusals -/

theorem act_refused_iff [Supply] (s : Session) (a : Act) :
    s.act a = .error .busy ↔ a.mayBeRefused = true ∧ s.flight.isSome = true := by
  have hacted := act_cases s a
  generalize s.act a = r at hacted
  cases hacted with
  | refused hf ha => simp [hf, ha]
  | run hf request => simp [hf]
  | replaced hf text file => simp [hf]
  | kept hf v => simp [hf]
  | moved hf v => simp [Act.mayBeRefused]

/-- The history without the acts that are refused is the same. -/
theorem live_accepted [Supply] (s : Session) (as : List Act) :
    s.live (s.accepted as) = s.live as := by
  induction as generalizing s with
  | nil => rfl
  | cons a as ih =>
    cases h : s.act a with
    | error b => rw [accepted_of_error h, live_cons, perform_of_error h, ih]
    | ok p => rw [accepted_of_ok h, live_cons, live_cons, perform_of_ok h, ih]

theorem outcomes_accepted [Supply] (s : Session) (as : List Act) :
    s.outcomes (s.accepted as) = s.outcomes as := by
  induction as generalizing s with
  | nil => rfl
  | cons a as ih =>
    cases h : s.act a with
    | error b =>
      rw [accepted_of_error h, outcomes, perform_of_error h, result?_of_error h, ih]
      rfl
    | ok p => rw [accepted_of_ok h, outcomes, outcomes, perform_of_ok h, ih]

theorem flight_isSome_iff (s : Session) : s.flight.isSome = true ↔ s.inFlight = 1 := by
  unfold inFlight
  cases s.flight <;> simp

end Session

open Session in
/-- After any history of a session the revision of its source is the number of replacements that
were accepted, and text and file name are the last ones that were given. An act is refused exactly
if it asks for a run or for another source and a run was accepted that is not over yet. What comes
after a refusal is what comes without it, and the whole history is that of the accepted acts. -/
theorem refusals_traceless [Supply] (setup : Setup) (registry : Registry) (acts : List Act) :
    let new := Session.idle setup registry
    let s := new.live acts
    let accepted := new.accepted acts
    let replacements := accepted.filterMap Act.replacement?
    (s.source.revision = replacements.length ∧
      s.source.text = (replacements.getLast?.map Prod.fst).getD "" ∧
      s.source.file = (replacements.filterMap Prod.snd).getLast?.getD setup.config.defaultFile) ∧
    (∀ a, s.act a = .error .busy ↔
      a.mayBeRefused = true ∧ accepted.countP Act.isRun = (new.outcomes acts).length + 1) ∧
    (∀ a, s.act a = .error .busy → s.perform a = s ∧
      ∀ later, s.live (a :: later) = s.live later ∧ s.outcomes (a :: later) = s.outcomes later) ∧
    new.live accepted = s ∧ new.outcomes accepted = new.outcomes acts := by
  intro new s accepted replacements
  have hsource : s.source =
      ⟨(replacements.getLast?.map Prod.fst).getD "",
        (replacements.filterMap Prod.snd).getLast?.getD setup.config.defaultFile,
        0 + replacements.length⟩ :=
    (source_live new acts).trans (SourceUnit.replaceAll_eq _ _)
  have hruns : accepted.countP Act.isRun + 0 = (new.outcomes acts).length + s.inFlight :=
    runs_accepted new acts
  refine ⟨?_, fun a => ?_, fun a ha => ?_, live_accepted new acts, outcomes_accepted new acts⟩
  · rw [hsource]
    exact ⟨Nat.zero_add _, rfl, rfl⟩
  · rw [act_refused_iff, flight_isSome_iff]
    refine and_congr_right fun _ => ?_
    omega
  · have hsame : s.perform a = s := perform_of_error ha
    refine ⟨hsame, fun later => ⟨by rw [live_cons, hsame], ?_⟩⟩
    rw [outcomes, hsame, result?_of_error ha]
    rfl

end Lispbox
