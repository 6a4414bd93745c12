import Lispbox.Proofs.Session.Acts
import Lispbox.Proofs.Session.Closing

/-!
# Stray commands

A command that nobody waits for is stray: any command while no run is in flight, and a command of
another kind than the one a run waits for. The second sort is ignored. The first sort stays with
the session, a command in the mailbox and an interrupt as a flag, until the next run discards both;
nothing that is done before reads them.

So a history with stray commands strewn in is as the one without them (`Session.AsIf`), up to what
waits to be discarded; every act keeps it so (`AsIf.perform`), and a stray command does
(`AsIf.stray`).

* `strays_unnoticed`: results, notices, modules and waits of a history with stray commands.
-/
namespace Lispbox
namespace Session

/-- Nobody waits for the command. -/
def isStray (s : Session) (c : Command) : Bool :=
  match s.flight with
  | none => true
  | some f => !f.wait.endsAt c

/-- The second history is the first one with stray commands strewn in. -/
inductive Strewn [Supply] : Session → List Act → List Act → Prop where
  | nil (s : Session) : Strewn s [] []
  | act {s : Session} (a : Act) {as bs : List Act} (h : Strewn (s.perform a) as bs) :
    Strewn s (a :: as) (a :: bs)
  | stray {s : Session} {c : Command} (hc : s.isStray c = true) {as bs : List Act}
    (h : Strewn s as bs) : Strewn s as (.move (.command c) :: bs)

/-- The sessions are the same, apart from what the next run discards; during a run there is nothing
of that kind. -/
structure AsIf (t s : Session) : Prop where
  rest : t = { s with mailbox := t.mailbox, interrupted := t.interrupted }
  waiting : s.flight.isSome = true → t = s

variable {s t : Session}

theorem AsIf.refl (s : Session) : AsIf s s := ⟨rfl, fun _ => rfl⟩

theorem AsIf.of_idle {mailbox : List Command} {interrupted : Bool} (hs : s.flight = none) :
    AsIf { s with mailbox := mailbox, interrupted := interrupted } s :=
  ⟨rfl, fun h => by simp [hs] at h⟩

/-- A run discards what was left. -/
theorem start_discards [Supply] (s : Session) (mailbox : List Command) (interrupted : Bool)
    (source : SourceUnit) (request : RunRequest) :
    { s with mailbox := mailbox, interrupted := interrupted }.start source request =
      s.start source request := by
  have hopening : { s with mailbox := mailbox, interrupted := interrupted }.opening request.mode =
      s.opening request.mode := rfl
  rw [start_eq, start_eq, hopening]

/-- Without a run in flight every act is accepted, and what is left over does not change it. -/
theorem AsIf.act [Supply] (h : AsIf t s) (hs : s.flight = none) (a : Act) :
    ∃ p q, s.act a = .ok p ∧ t.act a = .ok q ∧ q.result = p.result ∧
      AsIf q.session p.session := by
  obtain ⟨mailbox, interrupted, rfl⟩ : ∃ mailbox interrupted,
      t = { s with mailbox := mailbox, interrupted := interrupted } := ⟨_, _, h.rest⟩
  have ht : { s with mailbox := mailbox, interrupted := interrupted }.flight = none := hs
  cases a with
  | run request =>
    obtain ⟨p, hp⟩ := run_of_idle hs request
    obtain ⟨q, hq⟩ := run_of_idle ht request
    have hsame : q = p := by
      rw [run_eq hp, run_eq hq]
      exact start_discards { s with source := s.sourceFor request } _ _ _ _
    exact ⟨p, q, hp, hq, by rw [hsame], hsame ▸ .refl q.session⟩
  | setSource text file =>
    exact ⟨_, _, act_setSource hs text file, act_setSource ht text file, rfl, rfl,
      fun h => by simp [hs] at h⟩
  | move v =>
    cases v with
    | provideFiles files =>
      have hkept : (s.provideFiles files).flight = none := hs
      exact ⟨_, _, rfl, rfl, rfl, .of_idle hkept⟩
    | elapse => exact ⟨_, _, act_elapse hs, act_elapse ht, rfl, h⟩
    | command c =>
      exact ⟨_, _, act_command hs c, act_command ht c, rfl, rfl, fun h => by simp [hs] at h⟩

theorem AsIf.perform [Supply] (h : AsIf t s) (a : Act) :
    t.result? a = s.result? a ∧ AsIf (t.perform a) (s.perform a) := by
  cases hs : s.flight with
  | some f =>
    rw [h.waiting (by rw [hs]; rfl)]
    exact ⟨rfl, .refl _⟩
  | none =>
    obtain ⟨p, q, hp, hq, hresult, hsession⟩ := h.act hs a
    rw [result?_of_ok hp, result?_of_ok hq, perform_of_ok hp, perform_of_ok hq]
    exact ⟨hresult, hsession⟩

/-- A stray command is ignored by a run, or left over for the next one. -/
theorem AsIf.stray [Supply] (h : AsIf t s) {c : Command} (hc : s.isStray c = true) :
    t.result? (.move (.command c)) = none ∧ AsIf (t.perform (.move (.command c))) s := by
  unfold isStray at hc
  cases hs : s.flight with
  | some f =>
    rw [hs] at hc
    have hignored : s.act (.move (.command c)) = .ok ⟨s, none⟩ :=
      congrArg Except.ok (command_ignored hs (by simpa using hc))
    rw [h.waiting (by rw [hs]; rfl), result?_of_ok hignored, perform_of_ok hignored]
    exact ⟨rfl, .refl s⟩
  | none =>
    have hidle : t.flight = none := by
      rw [h.rest]
      exact hs
    have hleft := act_command hidle c
    rw [result?_of_ok hleft, perform_of_ok hleft]
    refine ⟨rfl, ?_, fun h => by simp [hs] at h⟩
    rw [h.rest]

theorem Strewn.asIf [Supply] {as bs : List Act} (h : Strewn s as bs) (ht : AsIf t s) :
    t.outcomes bs = s.outcomes as ∧ AsIf (t.live bs) (s.live as) := by
  induction h generalizing t with
  | nil s => exact ⟨rfl, ht⟩
  | act a h ih =>
    obtain ⟨hresult, hperform⟩ := ht.perform a
    obtain ⟨houtcomes, hlive⟩ := ih hperform
    rw [outcomes, outcomes, hresult, houtcomes]
    exact ⟨rfl, hlive⟩
  | stray hc h ih =>
    obtain ⟨hresult, hperform⟩ := ht.stray hc
    obtain ⟨houtcomes, hlive⟩ := ih hperform
    rw [outcomes, hresult, houtcomes]
    exact ⟨rfl, hlive⟩

end Session

open Session in
/-- Stray commands, wherever they are strewn into a history, change nothing: the runs come to the
same results, and the session has the same notices, among them all messages and changes of its
state, the same state, modules, source, files and debugger, and the same run waits for the same.
Only when no run is in flight there may be more that the next run discards. -/
theorem strays_unnoticed [Supply] (s : Session) (as bs : List Act) (h : s.Strewn as bs) :
    s.outcomes bs = s.outcomes as ∧
    s.live bs = { s.live as with
      mailbox := (s.live bs).mailbox, interrupted := (s.live bs).interrupted } ∧
    ((s.live as).flight.isSome = true → s.live bs = s.live as) := by
  obtain ⟨houtcomes, hrest, hwaiting⟩ := h.asIf (.refl s)
  exact ⟨houtcomes, hrest, hwaiting⟩

namespace Strays

open RunClosing (session request)

/-- A run that asks for a line. -/
def acts : List Act := [.run request, .move (.command (.input "a"))]

/-- It is interrupted too early, and asked to step while it waits for the line. -/
def strewn : List Act :=
  [.move (.command .interrupt), .run request, .move (.command (.debug .step)),
    .move (.command (.input "a"))]

theorem strays_unnoticed_input : (session.outcomes acts).length = 1 ∧
    session.outcomes strewn = session.outcomes acts ∧
    (session.live strewn).notices = (session.live acts).notices := by
  have hover : (session.outcomes acts).length = 1 := by decide +kernel
  have hstep : (session.perform (.run request)).isStray (.debug .step) = true := by decide +kernel
  have hwaiting : Session.Strewn (session.perform (.run request)) [.move (.command (.input "a"))]
      [.move (.command (.debug .step)), .move (.command (.input "a"))] :=
    .stray hstep (.act (.move (.command (.input "a"))) (.nil _))
  have hidle : session.isStray .interrupt = true := rfl
  have hstrewn : session.Strewn acts strewn := .stray hidle (.act (.run request) hwaiting)
  obtain ⟨houtcomes, hlive, -⟩ := strays_unnoticed session acts strewn hstrewn
  exact ⟨hover, houtcomes, by rw [hlive]⟩

end Strays
end Lispbox
