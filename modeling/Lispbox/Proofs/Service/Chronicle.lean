import Lispbox.Proofs.Service.Occurrences
import Lispbox.Proofs.Session.Acts
import Lispbox.Proofs.Session.Interrupts
import Lispbox.Proofs.Session.Rebasing

/-!
# One answer to each request

What a connection writes is told run by run: which runs were admitted, what each of them published
until it was over, and what it came to (`Service.Ran`). The invariant of a connection is that its
lines are accounted for in this way (`Service.Account`), where one run may still be under way
(`Service.Standing`). A connection clears what was done once it is written; that the runs are
nevertheless those of their sessions is a case of `play_rebased`, since what was done before makes
no difference to a run.

Lines come when the run in flight waits, or when there is none (`Service.receive`). A run whose
steps are used up is left out as in `run_closes`: it is a run that goes on, so there is no last
message and nothing to answer yet; with enough steps its response is that of the run.

* `met_meet`: what an occurrence can do to a connection.
* `collect_chronicle`, `release_chronicle`: what a session did is written, and accounted for.
* `meet_chronicle`, `serve_chronicle`: one occurrence, and a whole connection.
* `requests_answered`: every request has one response.
-/
namespace Lispbox
namespace Service

/-- A request for a run that was accepted, and the session at that time. -/
structure Admission where
  id : Json
  request : RunRequest
  session : Session

/-- A run that is over, with what it published and what it came to. -/
structure Ran extends Admission where
  messages : List Message
  result : Except RunFault Outcome

/-- The answer to the request for the run. -/
def Ran.response (x : Ran) : Response := .ofResult x.id x.result

/-- The session does run so, from the request to the end. -/
def Ran.IsRun (x : Ran) : Prop :=
  ∃ p vs, x.session.run x.request = .ok p ∧ (p.play vs).result = some x.result ∧
    x.messages = x.session.published (p.play vs).session

/-- What a line that is not blank asks for. -/
structure Ask where
  /-- The id of the response; null if the line is not a request. -/
  id : Json
  /-- The run, if it asks for one. -/
  run : Option RunRequest

/-- The run that an instruction asks for. -/
def Instruction.run? : Instruction → Option RunRequest
  | .run request => some request
  | _ => none

/-- What a line asks for, unless it is blank. -/
def Ask.ofLine? (line : String) : Option Ask :=
  if (Text.trim line).isEmpty then none
  else
    match Envelope.ofText? line with
    | none => some ⟨.null, none⟩
    | some e => some ⟨e.id, (Instruction.ofEnvelope e).toOption.bind Instruction.run?⟩

/-- What an occurrence asks for. -/
def Occurrence.ask? : Occurrence → Option Ask
  | .line text => Ask.ofLine? text
  | .elapse => none

/-- The run that is accepted with an occurrence; while one is in flight none is. -/
def admission? (c : Service) (o : Occurrence) : Option Admission := do
  let a ← o.ask?
  let request ← a.run
  if c.session.flight.isSome then none else some ⟨a.id, request, c.session⟩

/-- The runs that are accepted, in order. -/
def admissions (c : Service) : List Occurrence → List Admission
  | [] => []
  | o :: os => (c.admission? o).toList ++ (c.meet o).2.admissions os

/-- The ids of the responses to some occurrences, in order. -/
def idsAsked (os : List Occurrence) : List Json := os.filterMap fun o => o.ask?.map Ask.id

/-- The messages among some lines, in order. -/
def events (lines : List Line) : List Message := lines.filterMap Line.event?

/-- The ids of the responses among some lines, in order. -/
def ids (lines : List Line) : List Json := (lines.filterMap Line.response?).map Response.id

@[simp] theorem events_append (lines lines' : List Line) :
    events (lines ++ lines') = events lines ++ events lines' := List.filterMap_append

@[simp] theorem ids_append (lines lines' : List Line) :
    ids (lines ++ lines') = ids lines ++ ids lines' := by
  rw [ids, List.filterMap_append, List.map_append]
  rfl

@[simp] theorem events_map (ms : List Message) : events (ms.map .event) = ms := by
  rw [events, List.filterMap_map]
  exact List.filterMap_some

@[simp] theorem ids_map (ms : List Message) : ids (ms.map .event) = [] := by
  rw [ids, List.filterMap_map]
  simp [Function.comp_def, Line.response?]

/-! ## What an occurrence does -/

/-- What a session comes to that is told something other than a request for a run. -/
inductive Advances (s : Session) : Progress → Prop where
  | idle {p : Progress} (hf : s.flight = none) (hr : p.result = none) (hp : p.session.flight = none)
    (hn : p.session.notices = s.notices) : Advances s p
  | stays : Advances s ⟨s, none⟩
  | moved {f : Flight} (hf : s.flight = some f) (v : Move) : Advances s (Progress.move ⟨s, none⟩ v)

theorem advances_act {s : Session} {a : Act} {p : Progress} (ha : a.isRun = false)
    (h : s.act a = .ok p) : Advances s p := by
  have hacted := Session.act_cases s a
  rw [h] at hacted
  cases hacted with
  | run => cases ha
  | replaced hf text file => exact .idle hf rfl hf rfl
  | kept hf v => exact .idle hf rfl hf rfl
  | moved hf v => exact .moved hf v

theorem advances_move (s : Session) (v : Move) : Advances s (Progress.move ⟨s, none⟩ v) :=
  advances_act (a := .move v) rfl rfl

/-- What an occurrence does to a connection. -/
inductive Met (c : Service) (o : Occurrence) : List Line × Service → Prop where
  | silent (ho : o.ask? = none) : Met c o ([], c)
  | refused {a : Ask} (ho : o.ask? = some a) (hrun : c.admission? o = none) (r : Refusal) :
    Met c o ([.response ⟨a.id, .error r⟩], c)
  | replied {a : Ask} (ho : o.ask? = some a) (hrun : a.run = none) (result : Json) {p : Progress}
    (hp : Advances c.session p) : Met c o (c.reply a.id result p)
  | admitted {a : Ask} {request : RunRequest} (ho : o.ask? = some a) (hrun : a.run = some request)
    {p : Progress} (hp : c.session.run request = .ok p) :
    Met c o ({ c with running := some a.id }.follow p)
  | elapsed (ho : o.ask? = none) {p : Progress} (hp : Advances c.session p) : Met c o (c.follow p)

theorem admission_of_not_run {c : Service} {o : Occurrence} {a : Ask} (ho : o.ask? = some a)
    (hrun : a.run = none) : c.admission? o = none := by
  simp [admission?, ho, hrun]

theorem met_perform {c : Service} {o : Occurrence} {id : Json} {i : Instruction}
    (ho : o.ask? = some ⟨id, i.run?⟩) : Met c o (c.perform id i) := by
  unfold perform
  cases i with
  | handshake client => exact .replied ho rfl _ .stays
  | status => exact .replied ho rfl _ .stays
  | input line => exact .replied ho rfl _ (advances_move _ (.command (.input line)))
  | debug d => exact .replied ho rfl _ (advances_move _ (.command (.debug d)))
  | interrupt => exact .replied ho rfl _ (advances_move _ (.command .interrupt))
  | files files => exact .replied ho rfl _ (advances_move _ (.provideFiles files))
  | setSource text file =>
    dsimp only
    cases hs : c.session.setSource text file with
    | error b => exact .refused ho (admission_of_not_run ho rfl) _
    | ok s =>
      have hact : c.session.act (.setSource text file) = .ok ⟨s, none⟩ := by
        simp only [Session.act, hs, Except.map]
      exact .replied ho rfl _ (advances_act rfl hact)
  | run request =>
    dsimp only
    cases hp : c.session.run request with
    | ok p => exact .admitted ho rfl hp
    | error b =>
      refine .refused ho ?_ _
      have hflight : c.session.flight.isSome = true := by
        cases hf : c.session.flight with
        | some f => rfl
        | none =>
          obtain ⟨p, hok⟩ := Session.run_of_idle hf request
          rw [hok] at hp
          cases hp
      simp [admission?, ho, hflight]

theorem met_meet (c : Service) (o : Occurrence) : Met c o (c.meet o) := by
  cases o with
  | elapse => exact .elapsed rfl (advances_move c.session .elapse)
  | line text =>
    unfold meet receive
    dsimp only
    by_cases hblank : (Text.trim text).isEmpty = true
    · rw [if_pos hblank]
      refine .silent ?_
      rw [Occurrence.ask?, Ask.ofLine?, if_pos hblank]
    · have hasked : (Occurrence.line text).ask? =
          match Envelope.ofText? text with
          | none => some ⟨.null, none⟩
          | some e => some ⟨e.id, (Instruction.ofEnvelope e).toOption.bind Instruction.run?⟩ := by
        rw [Occurrence.ask?, Ask.ofLine?, if_neg hblank]
      rw [if_neg hblank]
      cases he : Envelope.ofText? text with
      | none =>
        rw [he] at hasked
        exact .refused hasked (admission_of_not_run hasked rfl) _
      | some e =>
        rw [he] at hasked
        dsimp only at hasked ⊢
        cases hi : Instruction.ofEnvelope e with
        | error r =>
          rw [hi] at hasked
          exact .refused hasked (admission_of_not_run hasked rfl) _
        | ok i =>
          rw [hi] at hasked
          exact met_perform hasked

/-! ## Runs under way -/

/-- The messages among what was done, in order. -/
def spoken (done : List Notice) : List Message := (done.filterMap Notice.message?).reverse

theorem spoken_append (new past : List Notice) :
    spoken (new ++ past) = spoken past ++ spoken new := by
  rw [spoken, List.filterMap_append, List.reverse_append]
  rfl

/-- The run has come to this, if what was done before is added. -/
structure Reaches (a : Admission) (q : Progress) (past : List Notice) : Prop where
  fresh : a.session.notices = []
  run : ∃ p vs, a.session.run a.request = .ok p ∧ p.play vs = q.rebased q.session.files past

variable {a : Admission} {q : Progress} {past : List Notice} {c : Service}

theorem Reaches.move (h : Reaches a q past) (v : Move) : Reaches a (q.move v) past := by
  obtain ⟨p, vs, hp, hplay⟩ := h.run
  refine ⟨h.fresh, p, vs ++ [v], hp, ?_⟩
  rw [Progress.play_append, hplay]
  exact Session.play_rebased q past [v]

theorem Reaches.start {id : Json} {request : RunRequest} {s : Session} (hn : s.notices = [])
    (hp : s.run request = .ok q) : Reaches ⟨id, request, s⟩ q [] :=
  ⟨hn, q, [], hp, (Session.rebased_progress q).symm⟩

theorem play_coherent {p : Progress} (h : Session.IsCoherent p) (vs : List Move) :
    Session.IsCoherent (p.play vs) := by
  refine Progress.play_induction (P := Session.IsCoherent) (fun {q} v h => ?_) h vs
  obtain ⟨s, result⟩ := q
  cases result with
  | some r => exact h
  | none =>
    obtain ⟨f, hf⟩ := Option.isSome_iff_exists.mp h.symm
    exact Session.move_coherent hf v

/-- A run waits, or it is over and not in flight any more. -/
theorem Reaches.coherent (h : Reaches a q past) : Session.IsCoherent q := by
  obtain ⟨p, vs, hp, hplay⟩ := h.run
  have hstart : Session.IsCoherent p := by
    rw [Session.run_eq hp]
    exact Session.start_coherent _ _ _
  have hplayed := play_coherent hstart vs
  rw [hplay] at hplayed
  exact hplayed

theorem Reaches.exists_flight {s : Session} (h : Reaches a ⟨s, none⟩ past) :
    ∃ f, s.flight = some f :=
  Option.isSome_iff_exists.mp h.coherent.symm

/-- What was done is written, and cleared. -/
theorem Reaches.cleared {s : Session} (h : Reaches a ⟨s, none⟩ past) :
    Reaches a ⟨s.takeNotices.2, none⟩ (s.notices ++ past) :=
  ⟨h.fresh, h.run⟩

theorem published_fresh {s₀ : Session} (h : s₀.notices = []) (s : Session) :
    s₀.published s = spoken s.notices := by
  have hall : s.notices = s.notices ++ s₀.notices := by rw [h, List.append_nil]
  rw [Session.published, Session.since_eq hall, List.filterMap_reverse]
  rfl

theorem Reaches.isRun {r : Except RunFault Outcome} (h : Reaches a q past)
    (hr : q.result = some r) :
    (Ran.mk a (spoken past ++ spoken q.session.notices) r).IsRun := by
  obtain ⟨p, vs, hp, hplay⟩ := h.run
  refine ⟨p, vs, hp, ?_, ?_⟩
  · rw [hplay]
    exact hr
  · rw [published_fresh h.fresh, hplay, ← spoken_append]
    rfl

/-- A run that waits for something is over when it is interrupted. -/
theorem Reaches.interrupt {s : Session} {f : Flight} (h : Reaches a ⟨s, none⟩ past)
    (hf : s.flight = some f) :
    s.command .interrupt = { s with interrupted := true }.finish f.source .interrupted := by
  obtain ⟨p, vs, hp, hplay⟩ := h.run
  have hattentive := Session.play_attentive (Session.start_attentive
    { a.session with source := a.session.sourceFor a.request } (a.session.sourceFor a.request)
    a.request) vs
  rw [← Session.run_eq hp, hplay] at hattentive
  obtain ⟨-, -, f', hf', -, d, m, q, resume, shown, earlier, hd, hleads, hw, -⟩ := hattentive rfl
  have hsame : s.flight = some f' := hf'
  rw [hf] at hsame
  cases hsame
  obtain ⟨m', hstop, -⟩ := hd.stop hleads .interrupt
  exact Session.move_interrupt_finish hf hw hstop

/-! ## What is written -/

theorem collect_waits (c : Service) (hr : q.result = none) :
    c.collect q =
      ((spoken q.session.notices).map .event, { c with session := q.session.takeNotices.2 }) := by
  unfold collect
  dsimp only
  rw [hr, spoken, ← List.filterMap_reverse, List.map_filterMap]
  rfl

theorem collect_ends {r : Except RunFault Outcome} {id : Json} (hr : q.result = some r)
    (hid : c.running = some id) :
    c.collect q =
      ((spoken q.session.notices).map .event ++ [.response (.ofResult id r)],
        { c with session := q.session.takeNotices.2, running := none }) := by
  unfold collect
  dsimp only
  rw [hr, hid, spoken, ← List.filterMap_reverse, List.map_filterMap]
  rfl

/-- What is written when a run is closed that did nothing since. -/
theorem spoken_close {s : Session} (hn : s.notices = []) (m : Message) (next : ExecutionState)
    (o : Outcome) : spoken (s.close m next o).session.notices = [m] := by
  obtain ⟨new, hnew, hnexts⟩ := Session.notices_enter (s.publish m) next
  have hclosed : (s.close m next o).session.notices = new ++ [.publish m] := by
    rw [Session.close, hnew, Session.publish, Session.note, hn]
  rw [hclosed, spoken_append, spoken, spoken, Session.filterMap_enters hnexts]
  rfl

/-! ## Accounts -/

/-- The lines written so far are accounted for: the runs that were accepted are over, or one is
under way; the events are those of the runs, in order; all responses are out but the one of the run
under way, and the response of each other run comes right after its events. -/
structure Account (asked : List Json) (admitted : List Admission) (out : List Line)
    (runs : List Ran) (now : Option Admission) (ms : List Message) : Prop where
  admitted : admitted = runs.map Ran.toAdmission ++ now.toList
  events : events out = runs.flatMap Ran.messages ++ ms
  ids : (ids out ++ now.toList.map Admission.id).Perm asked
  answered : ∀ l₁ x l₂, runs = l₁ ++ x :: l₂ → ∃ o₁ o₂,
    out = o₁ ++ .response x.response :: o₂ ∧ Service.events o₁ = (l₁ ++ [x]).flatMap Ran.messages
  genuine : ∀ x ∈ runs, x.IsRun

section

variable {asked : List Json} {admitted : List Admission} {out : List Line} {runs : List Ran}
  {now : Option Admission} {ms : List Message}

theorem account_nil : Account [] [] [] [] none [] :=
  ⟨rfl, rfl, .refl _, fun l₁ x l₂ h => by simp at h, fun x hx => by cases hx⟩

/-- More lines do not change what is answered. -/
theorem Account.answered_append (h : Account asked admitted out runs now ms) (more : List Line)
    (l₁ : List Ran) (x : Ran) (l₂ : List Ran) (hruns : runs = l₁ ++ x :: l₂) : ∃ o₁ o₂,
      out ++ more = o₁ ++ .response x.response :: o₂ ∧
        Service.events o₁ = (l₁ ++ [x]).flatMap Ran.messages := by
  obtain ⟨o₁, o₂, hout, hevents⟩ := h.answered l₁ x l₂ hruns
  exact ⟨o₁, o₂ ++ more, by rw [hout, List.append_assoc, List.cons_append], hevents⟩

/-- A request is answered. -/
theorem Account.respond (h : Account asked admitted out runs now ms) (r : Response) :
    Account (asked ++ [r.id]) admitted (out ++ [.response r]) runs now ms where
  admitted := h.admitted
  events := by
    rw [events_append, h.events]
    exact List.append_nil _
  ids := by
    rw [ids_append, List.append_assoc]
    refine (List.perm_append_comm.append_left _).trans ?_
    rw [← List.append_assoc]
    exact h.ids.append_right _
  answered := h.answered_append _
  genuine := h.genuine

/-- The run under way publishes. -/
theorem Account.tell (h : Account asked admitted out runs now ms) (new : List Message) :
    Account asked admitted (out ++ new.map .event) runs now (ms ++ new) where
  admitted := h.admitted
  events := by rw [events_append, h.events, events_map, List.append_assoc]
  ids := by
    rw [ids_append, ids_map, List.append_nil]
    exact h.ids
  answered := h.answered_append _
  genuine := h.genuine

/-- A run is accepted. -/
theorem Account.accept (h : Account asked admitted out runs none []) (a : Admission) :
    Account (asked ++ [a.id]) (admitted ++ [a]) out runs (some a) [] where
  admitted := by
    rw [h.admitted]
    exact congrArg (· ++ [a]) (List.append_nil _)
  events := h.events
  ids := by
    have hids := h.ids
    rw [Option.toList_none, List.map_nil, List.append_nil] at hids
    exact hids.append_right _
  answered := h.answered
  genuine := h.genuine

/-- The run under way is over. -/
theorem Account.close (h : Account asked admitted out runs (some a) ms)
    {r : Except RunFault Outcome} (hx : (Ran.mk a ms r).IsRun) :
    Account asked admitted (out ++ [.response (.ofResult a.id r)]) (runs ++ [⟨a, ms, r⟩]) none []
      where
  admitted := by
    rw [h.admitted, List.map_append]
    exact (List.append_nil _).symm
  events := by
    rw [events_append, h.events, List.flatMap_append, List.flatMap_singleton]
    rfl
  ids := by
    rw [ids_append, Option.toList_none, List.map_nil, List.append_nil]
    have hid : Service.ids [.response (.ofResult a.id r)] = [a.id] := by cases r <;> rfl
    rw [hid]
    exact h.ids
  answered := by
    intro l₁ x l₂ hruns
    rcases List.eq_nil_or_concat l₂ with rfl | ⟨l, y, rfl⟩
    · -- The run is the last one: all events so far are before its response.
      obtain ⟨rfl, hlast⟩ := List.append_inj' hruns rfl
      obtain rfl := List.singleton_inj.mp hlast
      refine ⟨out, [], rfl, ?_⟩
      rw [h.events, List.flatMap_append, List.flatMap_singleton]
    · rw [List.concat_eq_append, ← List.cons_append, ← List.append_assoc] at hruns
      exact h.answered_append _ l₁ x l (List.append_inj' hruns rfl).1
  genuine := by
    intro x hmem
    rcases List.mem_append.mp hmem with hmem | hmem
    · exact h.genuine x hmem
    · rw [List.mem_singleton.mp hmem]
      exact hx

/-! ## Connections -/

/-- Where a connection is: at rest, or with a run under way that published these messages. -/
inductive Standing (c : Service) : Option Admission → List Message → Prop where
  | resting (hn : c.session.notices = []) (hf : c.session.flight = none) (hr : c.running = none) :
    Standing c none []
  | underway {a : Admission} {past : List Notice} (hn : c.session.notices = [])
    (hr : c.running = some a.id) (h : Reaches a ⟨c.session, none⟩ past) :
    Standing c (some a) (spoken past)

theorem Standing.running (h : Standing c now ms) : c.running = now.map Admission.id := by
  cases h with
  | resting hn hf hr => exact hr
  | underway hn hr hreaches => exact hr

/-- The lines are accounted for, and the connection is where the account says. -/
def Chronicle (asked : List Json) (admitted : List Admission) (out : List Line) (c : Service) :
    Prop :=
  ∃ runs now ms, Account asked admitted out runs now ms ∧ Standing c now ms

/-- What a run has done since it was looked at is written. -/
theorem reaches_chronicle {past : List Notice}
    (h : Account asked admitted out runs (some a) (spoken past)) (hr : c.running = some a.id)
    (hq : Reaches a q past) :
    Chronicle asked admitted (out ++ (c.collect q).1) (c.collect q).2 := by
  have htold := h.tell (spoken q.session.notices)
  obtain ⟨s, result⟩ := q
  cases result with
  | none =>
    rw [collect_waits c rfl]
    rw [← spoken_append] at htold
    exact ⟨runs, some a, _, htold, .underway rfl hr hq.cleared⟩
  | some r =>
    have hidle : s.flight = none := Option.isNone_iff_eq_none.mp (by
      rw [← Option.not_isSome, ← hq.coherent]
      rfl)
    have hclosed := htold.close (hq.isRun rfl)
    rw [collect_ends rfl hr, ← List.append_assoc]
    exact ⟨_, none, [], hclosed, .resting rfl hidle rfl⟩

theorem collect_chronicle (h : Account asked admitted out runs now ms) (hs : Standing c now ms)
    (hq : Advances c.session q) :
    Chronicle asked admitted (out ++ (c.collect q).1) (c.collect q).2 := by
  cases hs with
  | resting hn hf hr =>
    have rested {q : Progress} (hq : q.result = none) (hqf : q.session.flight = none)
        (hqn : q.session.notices = []) :
        Chronicle asked admitted (out ++ (c.collect q).1) (c.collect q).2 := by
      rw [collect_waits c hq, hqn]
      refine ⟨runs, none, [], ?_, .resting rfl hqf hr⟩
      exact (List.append_nil out).symm ▸ h
    cases hq with
    | idle _ hqr hqf hqn => exact rested hqr hqf (hqn.trans hn)
    | stays => exact rested rfl hf hn
    | moved hf' v =>
      rw [hf] at hf'
      cases hf'
  | underway hn hr hreaches =>
    cases hq with
    | idle hf _ _ _ =>
      obtain ⟨f, hf'⟩ := hreaches.exists_flight
      rw [hf] at hf'
      cases hf'
    | stays => exact reaches_chronicle h hr hreaches
    | moved hf v => exact reaches_chronicle h hr (hreaches.move v)

/-- After a connection was closed no run waits for the client. -/
def IsSettled (c : Service) : Prop := c.closed = true → awaitsClient c.session = false

theorem awaits_of_idle {s : Session} (h : s.flight = none) : awaitsClient s = false := by
  rw [awaitsClient, h]
  rfl

/-- A run that waits for the client is over after the interrupt, and its request is answered. -/
theorem collect_interrupt (hs : Standing c now ms) (hawaits : awaitsClient c.session = true) :
    ∃ a, now = some a ∧
      (c.collect (c.session.command .interrupt)).1 =
        [.event (.interrupt interruptReason), .response ⟨a.id, .ok Outcome.interrupted.toJson⟩] ∧
      (c.collect (c.session.command .interrupt)).2.session.flight = none := by
  cases hs with
  | resting hn hf hr =>
    rw [awaits_of_idle hf] at hawaits
    cases hawaits
  | @underway a past hn hr hreaches =>
    obtain ⟨f, hf⟩ := hreaches.exists_flight
    have hspoken : spoken (({ c.session with interrupted := true }.finish f.source
        .interrupted).session.notices) = [.interrupt interruptReason] :=
      spoken_close (s := { c.session with interrupted := true }) hn _ _ _
    rw [hreaches.interrupt hf, collect_ends (r := .ok .interrupted) rfl hr, hspoken]
    exact ⟨a, rfl, rfl, rfl⟩

theorem Standing.closing (h : Standing c now ms) : Standing { c with closed := true } now ms := by
  cases h with
  | resting hn hf hr => exact .resting hn hf hr
  | underway hn hr hreaches => exact .underway hn hr hreaches

/-- The client has nothing more to say to a run that waits for it. -/
theorem close_interrupts (hs : Standing c now ms) (hawaits : awaitsClient c.session = true) :
    ∃ id, c.running = some id ∧ c.close.1 = [.event (.interrupt interruptReason),
      .response ⟨id, .ok Outcome.interrupted.toJson⟩] := by
  obtain ⟨a, rfl, hwritten, -⟩ := collect_interrupt hs.closing hawaits
  have hreleased : c.close = ({ c with closed := true } : Service).collect
      (c.session.command .interrupt) := by
    rw [close, release, hawaits]
    rfl
  cases hs with
  | underway hn hr hreaches => exact ⟨a.id, hr, hreleased ▸ hwritten⟩

theorem release_chronicle (h : Account asked admitted out runs now ms) (hs : Standing c now ms) :
    Chronicle asked admitted (out ++ c.release.1) c.release.2 ∧ IsSettled c.release.2 := by
  unfold release
  split
  · next hreleased =>
    rw [Bool.and_eq_true] at hreleased
    obtain ⟨a, -, -, hidle⟩ := collect_interrupt hs hreleased.2
    exact ⟨collect_chronicle h hs (advances_move _ (.command .interrupt)),
      fun _ => awaits_of_idle hidle⟩
  · next hkept =>
    refine ⟨⟨runs, now, ms, (List.append_nil out).symm ▸ h, hs⟩, fun hclosed => ?_⟩
    rw [hclosed, Bool.true_and, Bool.not_eq_true] at hkept
    exact hkept

/-- What is written is written, and a run that waits in vain is interrupted. -/
theorem Chronicle.release {lines : List Line × Service}
    (h : Chronicle asked admitted (out ++ lines.1) lines.2) :
    Chronicle asked admitted (out ++ (lines.1 ++ lines.2.release.1)) lines.2.release.2 ∧
      IsSettled lines.2.release.2 := by
  obtain ⟨runs, now, ms, haccount, hs⟩ := h
  rw [← List.append_assoc]
  exact release_chronicle haccount hs

theorem follow_chronicle (h : Account asked admitted out runs now ms) (hs : Standing c now ms)
    (hq : Advances c.session q) :
    Chronicle asked admitted (out ++ (c.follow q).1) (c.follow q).2 ∧ IsSettled (c.follow q).2 := by
  rw [follow_eq]
  exact (collect_chronicle h hs hq).release

/-- One occurrence. -/
theorem meet_chronicle (h : Chronicle asked admitted out c) (hc : IsSettled c) (o : Occurrence) :
    Chronicle (asked ++ (o.ask?.map Ask.id).toList) (admitted ++ (c.admission? o).toList)
        (out ++ (c.meet o).1) (c.meet o).2 ∧ IsSettled (c.meet o).2 := by
  obtain ⟨runs, now, ms, haccount, hs⟩ := h
  have hmet := met_meet c o
  generalize c.meet o = x at hmet
  have unasked (ho : o.ask? = none) : c.admission? o = none := by simp [admission?, ho]
  cases hmet with
  | silent ho =>
    rw [ho, unasked ho]
    simp only [Option.map_none, Option.toList_none, List.append_nil]
    exact ⟨⟨runs, now, ms, haccount, hs⟩, hc⟩
  | elapsed ho hp =>
    rw [ho, unasked ho]
    simp only [Option.map_none, Option.toList_none, List.append_nil]
    exact follow_chronicle haccount hs hp
  | @refused a ho ha r =>
    rw [ho, ha]
    simp only [Option.map_some, Option.toList_some, Option.toList_none, List.append_nil]
    exact ⟨⟨runs, now, ms, haccount.respond ⟨a.id, .error r⟩, hs⟩, hc⟩
  | @replied a ho ha result p hp =>
    have hreplied := haccount.respond ⟨a.id, .ok result⟩
    rw [ho, admission_of_not_run ho ha]
    simp only [Option.map_some, Option.toList_some, Option.toList_none, List.append_nil]
    have hfollow := follow_chronicle hreplied hs hp
    rw [List.append_assoc] at hfollow
    exact hfollow
  | @admitted a request ho ha p hp =>
    have hidle := Session.idle_of_run hp
    have hadmission : c.admission? o = some ⟨a.id, request, c.session⟩ := by
      simp [admission?, ho, ha, hidle]
    cases hs with
    | underway hn hr hreaches =>
      obtain ⟨f, hf⟩ := hreaches.exists_flight
      rw [hidle] at hf
      cases hf
    | resting hn hf hr =>
      rw [ho, hadmission, follow_eq]
      exact (reaches_chronicle (c := { c with running := some a.id })
        (haccount.accept ⟨a.id, request, c.session⟩) rfl (.start hn hp)).release

theorem serve_chronicle (h : Chronicle asked admitted out c) (hc : IsSettled c)
    (os : List Occurrence) :
    Chronicle (asked ++ idsAsked os) (admitted ++ c.admissions os)
        (out ++ (c.serve os).1) (c.serve os).2 ∧ IsSettled (c.serve os).2 := by
  induction os generalizing asked admitted out c with
  | nil =>
    simp only [idsAsked, List.filterMap_nil, admissions, serve, List.append_nil]
    exact ⟨h, hc⟩
  | cons o os ih =>
    obtain ⟨hmeet, hsettled⟩ := meet_chronicle h hc o
    have hserve := ih hmeet hsettled
    have hasked : idsAsked (o :: os) = (o.ask?.map Ask.id).toList ++ idsAsked os := by
      rw [idsAsked, List.filterMap_cons]
      cases o.ask?.map Ask.id <;> rfl
    rw [hasked, admissions, serve]
    simp only [List.append_assoc] at hserve ⊢
    exact hserve

theorem opened_chronicle (setup : Setup) (registry : Registry) (name : String) :
    Chronicle [] [] [] (opened (.idle setup registry) name) ∧
      IsSettled (opened (.idle setup registry) name) :=
  ⟨⟨[], none, [], account_nil, .resting rfl rfl rfl⟩, nofun⟩

theorem pauses_ask_nothing (c : Service) (pauses : Nat) :
    c.admissions (List.replicate pauses .elapse) = [] ∧
      idsAsked (List.replicate pauses .elapse) = [] := by
  induction pauses generalizing c with
  | zero => exact ⟨rfl, rfl⟩
  | succ pauses ih => exact ⟨(ih _).1, (ih c).2⟩

/-- A connection from its start to its end. -/
theorem wholly_chronicle (h : Chronicle asked admitted out c) (hc : IsSettled c)
    (os : List Occurrence) (pauses : Nat) :
    Chronicle (asked ++ idsAsked os) (admitted ++ c.admissions os)
        (out ++ (c.wholly os pauses).1) (c.wholly os pauses).2 ∧
      IsSettled (c.wholly os pauses).2 := by
  obtain ⟨⟨runs, now, ms, haccount, hs⟩, -⟩ := serve_chronicle h hc os
  obtain ⟨hclose, hsettled⟩ := release_chronicle haccount hs.closing
  have hlate := serve_chronicle hclose hsettled (List.replicate pauses .elapse)
  obtain ⟨hnone, hsilent⟩ := pauses_ask_nothing (c.serve os).2.close.2 pauses
  have hsame : ({ (c.serve os).2 with closed := true } : Service).release =
      (c.serve os).2.close := rfl
  rw [hsame, hnone, hsilent] at hlate
  simp only [List.append_nil, List.append_assoc] at hlate ⊢
  exact hlate

/-! ## The end of a connection -/

theorem closed_collect (c : Service) (p : Progress) : (c.collect p).2.closed = c.closed := by
  unfold collect
  dsimp only
  split <;> rfl

theorem closed_follow (c : Service) (p : Progress) : (c.follow p).2.closed = c.closed := by
  rw [follow_eq, release]
  split
  · exact (closed_collect _ _).trans (closed_collect c p)
  · exact closed_collect c p

theorem closed_serve_pauses (c : Service) (pauses : Nat) :
    (c.serve (List.replicate pauses .elapse)).2.closed = c.closed := by
  induction pauses generalizing c with
  | zero => rfl
  | succ pauses ih => exact (ih c.elapse.2).trans (closed_follow c _)

theorem closed_wholly (c : Service) (os : List Occurrence) (pauses : Nat) :
    (c.wholly os pauses).2.closed = true := by
  refine (closed_serve_pauses _ pauses).trans ?_
  rw [close, release]
  split
  · exact closed_collect _ _
  · rfl

/-- No run is left when the last one does not pause. -/
theorem Standing.eq_none (h : Standing c now ms) (hc : IsSettled c) (hclosed : c.closed = true)
    (hsleeps : c.sleeps = false) : now = none ∧ ms = [] := by
  cases h with
  | resting hn hf hr => exact ⟨rfl, rfl⟩
  | underway hn hr hreaches =>
    obtain ⟨f, hf⟩ := hreaches.exists_flight
    have hawaits := hc hclosed
    rw [awaitsClient, hf] at hawaits
    rw [sleeps, hf] at hsleeps
    obtain ⟨_, _, _, _, _, w⟩ := f
    cases w with
    | input resume => cases hawaits
    | debug resume => cases hawaits
    | sleep duration resume => cases hsleeps

end

/-- What a run publishes and what it comes to. -/
theorem Ran.IsRun.closes {x : Ran} (h : x.IsRun) (hsteps : x.result ≠ .error .exhausted) :
    ∃ mid m state, x.messages = .start x.request.mode :: mid ++ [m] ∧
      (∀ y ∈ mid, y.kind.isTerminal = false) ∧ Closing m x.result state := by
  obtain ⟨p, vs, hp, hr, hmessages⟩ := h
  have hcourse := Progress.play_induction (fun v => Session.move_course v) (Session.start_course
    { x.session with source := x.session.sourceFor x.request } (x.session.sourceFor x.request)
    x.request) vs
  rw [← Session.run_eq hp] at hcourse
  obtain ⟨hclosed, -⟩ := hcourse.closed hr hsteps
  obtain ⟨mid, m, hpub, hmid, hm⟩ := hclosed.published
  refine ⟨mid, m, _, hmessages.trans hpub, fun y hy => ?_, hm⟩
  rcases hmid y hy with hongoing | ⟨e, ⟨hemits, -⟩, he⟩
  · exact hongoing
  · obtain ⟨o, rfl⟩ := hemits.elim id output_of_probe
    exact ofOutput_ongoing he

/-- A request for a run that is not accepted. -/
theorem run_rejected {c : Service} {line : String} {e : Envelope}
    (hblank : (Text.trim line).isEmpty = false) (he : Envelope.ofText? line = some e)
    (hrun : e.command = "run") (ha : c.admission? (.line line) = none) :
    ∃ r, (c.receive line).1 = [.response ⟨e.id, .error r⟩] := by
  have hread : Instruction.ofEnvelope e = (runOf e.params).map .run := by
    obtain ⟨id, command, params⟩ := e
    subst hrun
    rfl
  cases hparams : runOf e.params with
  | error r =>
    rw [hparams] at hread
    exact ⟨r, by rw [receive_refused c hblank he hread]⟩
  | ok request =>
    rw [hparams] at hread
    have hask : Ask.ofLine? line = some ⟨e.id, some request⟩ := by
      simp [Ask.ofLine?, hblank, he, hread, Except.map, Except.toOption, Instruction.run?]
    have hbusy : ∃ f, c.session.flight = some f := by
      cases hf : c.session.flight with
      | some f => exact ⟨f, rfl⟩
      | none => simp [admission?, Occurrence.ask?, hask, hf] at ha
    obtain ⟨f, hf⟩ := hbusy
    refine ⟨.busy .busy, ?_⟩
    simp [receive, hblank, he, hread, Except.map, perform, Session.run_busy hf, refuse]

/-- A request that is not one for a run that is accepted has its response at once. -/
theorem answered_at_once {c : Service} {o : Occurrence} {a : Ask} (ho : o.ask? = some a)
    (ha : c.admission? o = none) :
    ∃ body rest, (c.meet o).1 = .response ⟨a.id, body⟩ :: rest := by
  have hmet := met_meet c o
  generalize c.meet o = x at hmet
  cases hmet with
  | silent hnone =>
    rw [ho] at hnone
    cases hnone
  | elapsed hnone =>
    rw [ho] at hnone
    cases hnone
  | refused hask ha r =>
    rw [ho] at hask
    cases hask
    exact ⟨_, _, rfl⟩
  | replied hask hrun result hp =>
    rw [ho] at hask
    cases hask
    exact ⟨_, _, rfl⟩
  | admitted hask hrun hp =>
    rw [ho] at hask
    cases hask
    have hidle := Session.idle_of_run hp
    simp [admission?, ho, hrun, hidle] at ha

end Service

open Service in
/-- Of a connection that is read to its end, where all runs come to an end, the lines written are
accounted for by the runs that were accepted, in the order in which they were. The events are the
messages of these runs, one run after the other, each from `start` to its last message. At any time
the responses are those to the lines so far that are not blank, under their ids, without that of the
run under way, and at the end that of no line is missing. The response of a run comes when its last
message is out; every other response comes at once, and a request for a run that is not accepted has
nothing but its response. If a run waits for the client at the end it is interrupted. Every line is
taken when the run under way waits, or when there is none; and that all runs come to an end includes
that their steps are not used up, which would say no more than that there were too few of them. -/
theorem requests_answered (setup : Setup) (registry : Registry) (name : String)
    (os : List Occurrence) (pauses : Nat) :
    let first := opened (.idle setup registry) name
    let last := first.wholly os pauses
    last.2.sleeps = false →
    (∀ id, .response ⟨id, .error (.fault .exhausted)⟩ ∉ last.1) →
    (∃ runs : List Ran, runs.map Ran.toAdmission = first.admissions os ∧
      events last.1 = runs.flatMap Ran.messages ∧
      ∀ l₁ x l₂, runs = l₁ ++ x :: l₂ →
        (x.IsRun ∧ ∃ mid m, x.messages = .start x.request.mode :: mid ++ [m] ∧
          (∀ y ∈ mid, y.kind.isTerminal = false) ∧ m.kind.isTerminal = true) ∧
        ∃ o₁ o₂, last.1 = o₁ ++ .response x.response :: o₂ ∧
          events o₁ = (l₁ ++ [x]).flatMap Ran.messages) ∧
    (ids last.1).Perm (idsAsked os) ∧
    ∀ us, let c := (first.serve us).2
      (ids (first.serve us).1 ++ c.running.toList).Perm (idsAsked us) ∧
      (∀ line a, Ask.ofLine? line = some a → c.admission? (.line line) = none →
        (∃ body rest, (c.receive line).1 = .response ⟨a.id, body⟩ :: rest) ∧
        ∀ e, Envelope.ofText? line = some e → e.command = "run" →
          ∃ r, (c.receive line).1 = [.response ⟨e.id, .error r⟩]) ∧
      (awaitsClient c.session = true → ∃ id, c.running = some id ∧
        c.close.1 = [.event (.interrupt interruptReason),
          .response ⟨id, .ok Outcome.interrupted.toJson⟩]) := by
  intro first last hsleeps hsteps
  obtain ⟨hopened, hsettled⟩ := opened_chronicle setup registry name
  obtain ⟨⟨runs, now, ms, haccount, hs⟩, hlast⟩ := wholly_chronicle hopened hsettled os pauses
  simp only [List.nil_append] at haccount
  obtain ⟨rfl, rfl⟩ := hs.eq_none hlast (closed_wholly first os pauses) hsleeps
  refine ⟨⟨runs, ?_, ?_, fun l₁ x l₂ hruns => ?_⟩, ?_, fun us => ?_⟩
  · rw [haccount.admitted, Option.toList_none, List.append_nil]
  · rw [haccount.events, List.append_nil]
  · obtain ⟨o₁, o₂, hout, hevents⟩ := haccount.answered l₁ x l₂ hruns
    have hrun : x.IsRun := haccount.genuine x (by simp [hruns])
    have hover : x.result ≠ .error .exhausted := by
      intro hr
      refine hsteps x.id ?_
      change _ ∈ ((opened (.idle setup registry) name).wholly os pauses).1
      rw [hout, Ran.response, hr]
      exact List.mem_append_right _ List.mem_cons_self
    obtain ⟨mid, m, _, hmessages, hmid, hm⟩ := hrun.closes hover
    exact ⟨⟨hrun, mid, m, hmessages, hmid, hm.isTerminal⟩, o₁, o₂, hout, hevents⟩
  · have hids := haccount.ids
    rw [Option.toList_none, List.map_nil, List.append_nil] at hids
    exact hids
  · intro c
    obtain ⟨⟨runs, now, ms, haccount, hs⟩, -⟩ := serve_chronicle hopened hsettled us
    simp only [List.nil_append] at haccount
    refine ⟨?_, fun line a hline ha => ⟨answered_at_once (o := .line line) hline ha, ?_⟩, ?_⟩
    · rw [hs.running, Option.toList_map]
      exact haccount.ids
    · intro e he hrun
      have hblank : (Text.trim line).isEmpty = false := by
        cases hb : (Text.trim line).isEmpty with
        | false => rfl
        | true => simp [Ask.ofLine?, hb] at hline
      exact run_rejected hblank he hrun ha
    · exact close_interrupts hs

namespace Answering

open Service

def first : Service := opened (.idle RunClosing.session.setup .standard) "s"

/-- The request for a run of `(input)`. -/
def run : String :=
  "\x7b\"id\":1,\"command\":\"run\",\"params\":\x7b\"source\":\"(input)\"\x7d\x7d"

/-- The run waits for a line, but what comes is no request, and then nothing. -/
def occurrences : List Occurrence := [.line run, .line "a"]

/-- The line tells of a run that took too many steps. -/
def isExhausted : Line → Bool
  | .response ⟨_, .error (.fault .exhausted)⟩ => true
  | _ => false

theorem not_exhausted {out : List Line} (h : out.any isExhausted = false) (id : Json) :
    .response ⟨id, .error (.fault .exhausted)⟩ ∉ out := by
  intro hmem
  rw [List.any_eq_false] at h
  exact h _ hmem rfl

theorem requests_answered_input :
    (∃ x : Ran, x.IsRun ∧ events (first.wholly occurrences 0).1 = x.messages) ∧
      (ids (first.wholly occurrences 0).1).Perm (idsAsked occurrences) ∧
      ∃ id, (first.serve occurrences).2.close.1 = [.event (.interrupt interruptReason),
        .response ⟨id, .ok Outcome.interrupted.toJson⟩] := by
  have hsleeps : (first.wholly occurrences 0).2.sleeps = false := by decide +kernel
  have hawaits : awaitsClient (first.serve occurrences).2.session = true := by decide +kernel
  have hcount : (first.admissions occurrences).length = 1 := by decide +kernel
  have hnone : (first.wholly occurrences 0).1.any isExhausted = false := by decide +kernel
  have hsteps := not_exhausted hnone
  have hfirst : first = opened (.idle RunClosing.session.setup .standard) "s" := rfl
  rw [hfirst] at hsleeps hawaits hcount hsteps ⊢
  obtain ⟨⟨runs, hruns, hevents, hall⟩, hids, hlater⟩ :=
    requests_answered RunClosing.session.setup .standard "s" occurrences 0 hsleeps hsteps
  rw [← hruns, List.length_map, List.length_eq_one_iff] at hcount
  obtain ⟨x, rfl⟩ := hcount
  obtain ⟨id, -, hclosed⟩ := (hlater occurrences).2.2 hawaits
  refine ⟨⟨x, (hall [] x [] rfl).1.1, ?_⟩, hids, id, hclosed⟩
  rw [hevents, List.flatMap_singleton]

end Answering
end Lispbox
