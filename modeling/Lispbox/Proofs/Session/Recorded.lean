import Lispbox.Proofs.Session.Works
import Lispbox.Run.Recorder

/-!
# A session beside a recorder

A session that is not interrupted and does not debug answers the questions of a run as a recorder
does that has the same files and is given the same lines: those of the request, and after them those
that are entered. It publishes what the recorder logs, apart from lines of code and files that are
read, and from messages about modules, which are its own (`Shown`).

The session knows the lines only as they come, the recorder has them all from the start. So the
relation between the two (`Follows`) is about all the lines that may still come: with any of them,
the run of the recorder from the start is at the place where the session is.

* `converse_recorded`: a conversation keeps the relation, whatever it comes to.
-/
namespace Lispbox

/-- The event of an entry of a log, if it is one for a session. -/
def LogEntry.event? : LogEntry → Option Event
  | .output o => some (.output o)
  | .input prompt => some (.inputRequest prompt)
  | .sleep duration => some (.sleep duration)
  | .line _ _ | .read _ => none

/-- What a session publishes for an entry of a log. -/
def LogEntry.message? : LogEntry → Option Message
  | .output ⟨.stdout, text, contentType⟩ => some ⟨.output, .text text, contentType⟩
  | .output ⟨.image, text, contentType⟩ => some ⟨.output, .text text, contentType⟩
  | .output _ => none
  | .input prompt => some ⟨.input, .text prompt, ContentType.plain⟩
  | .sleep duration => some ⟨.sleep, .number duration, ContentType.number⟩
  | .line _ _ | .read _ => none

theorem LogEntry.message?_eq {e : LogEntry} {ev : Event} (he : e.event? = some ev)
    {shown : Option Message} (h : Message.ofEvent ev = .ok shown) : e.message? = shown := by
  cases e with
  | output o =>
    cases he
    obtain ⟨stream, text, contentType⟩ := o
    cases stream with
    | stdout => cases h; rfl
    | image =>
      simp only [Message.ofEvent, Message.ofOutput] at h
      split at h
      · cases h; rfl
      · cases h
    | input => cases h; rfl
    | inputPrompt => cases h; rfl
    | other name => cases h
  | input prompt => cases he; cases h; rfl
  | sleep duration => cases he; cases h; rfl
  | line file n => cases he
  | read name => cases he

/-- Messages about modules are not made from logs. -/
theorem LogEntry.kind_message? {e : LogEntry} {m : Message} (h : e.message? = some m) :
    m.kind ≠ .loading := by
  cases e with
  | output o =>
    obtain ⟨stream, text, contentType⟩ := o
    cases stream <;> cases h <;> nofun
  | input prompt => cases h; nofun
  | sleep duration => cases h; nofun
  | line file n => cases h
  | read name => cases h

/-- What is recorded of a run without signals. -/
def Recording.plain (files : List (String × String)) : Recording := ⟨files, false, none, none⟩

namespace Session

/-- The messages that were published, newest first, apart from those about modules. -/
def visible (s : Session) : List Message :=
  (s.notices.filterMap Notice.message?).filter fun m => m.kind != .loading

variable {s : Session} {m : Message}

theorem visible_publish (h : m.kind ≠ .loading) : (s.publish m).visible = m :: s.visible := by
  simp [visible, publish, note, Notice.message?, h]

theorem visible_enter (next : ExecutionState) : (s.enter next).visible = s.visible := by
  unfold enter
  split <;> rfl

theorem interrupted_enter (next : ExecutionState) :
    (s.enter next).interrupted = s.interrupted := by
  unfold enter
  split <;> rfl

theorem visible_prefetch (p : Program) : (s.prefetch p).visible = s.visible := by
  unfold prefetch
  dsimp only
  split
  · rfl
  · split <;> rfl

theorem interrupted_prefetch (p : Program) : (s.prefetch p).interrupted = s.interrupted := by
  unfold prefetch
  dsimp only
  split
  · rfl
  · split <;> rfl

/-- The session, which is not interrupted, shows the log after what it showed before, and everything
in the log that is one has a message. -/
structure Shown (base : List Message) (log : List LogEntry) (s : Session) : Prop where
  visible : s.visible = log.filterMap LogEntry.message? ++ base
  translated : ∀ e ∈ log, ∀ ev, e.event? = some ev → Message.ofEvent ev = .ok e.message?
  running : s.interrupted = false

variable {base : List Message} {log : List LogEntry}

theorem Shown.enter (h : s.Shown base log) (next : ExecutionState) :
    (s.enter next).Shown base log :=
  ⟨(visible_enter next).trans h.visible, h.translated, (interrupted_enter next).trans h.running⟩

theorem Shown.prefetch (h : s.Shown base log) (p : Program) : (s.prefetch p).Shown base log :=
  ⟨(visible_prefetch p).trans h.visible, h.translated, (interrupted_prefetch p).trans h.running⟩

/-- An entry that is no event for a session. -/
theorem Shown.silent (h : s.Shown base log) {e : LogEntry} (he : e.event? = none) :
    s.Shown base (e :: log) := by
  have hno : e.message? = none := by
    cases e with
    | output o => cases he
    | input prompt => cases he
    | sleep duration => cases he
    | line file n => rfl
    | read name => rfl
  refine ⟨?_, ?_, h.running⟩
  · rw [List.filterMap_cons, hno]
    exact h.visible
  · intro x hx ev hev
    rcases List.mem_cons.mp hx with rfl | hx
    · rw [he] at hev
      cases hev
    · exact h.translated x hx ev hev

/-- An event is delivered and logged. -/
theorem Shown.deliver (h : s.Shown base log) (e : LogEntry) {ev : Event} (he : e.event? = some ev)
    {shown : Option Message} (ht : Message.ofEvent ev = .ok shown) :
    (s.deliver ev).1 = .ok () ∧ (s.deliver ev).2.Shown base (e :: log) := by
  have hshown := LogEntry.message?_eq he ht
  have htranslated : ∀ x ∈ e :: log, ∀ ev, x.event? = some ev →
      Message.ofEvent ev = .ok x.message? := by
    intro x hx ev' hev
    rcases List.mem_cons.mp hx with rfl | hx
    · rw [he] at hev
      cases hev
      rw [ht, hshown]
    · exact h.translated x hx ev' hev
  cases shown with
  | none =>
    rw [deliver_hidden ht]
    refine ⟨rfl, ?_, htranslated, h.running⟩
    rw [List.filterMap_cons, hshown]
    exact h.visible
  | some m =>
    rw [deliver_shown ht]
    refine ⟨rfl, ?_, htranslated, h.running⟩
    rw [visible_publish (LogEntry.kind_message? hshown), List.filterMap_cons, hshown, h.visible]
    rfl

/-! ## Conversations -/

/-- With the lines that were given so far, and with any after them, the recorder comes from the
start of a run to this place of it. -/
def Follows (files : List (String × String)) (d₀ : Dialogue (Except Exit Value))
    (given : List String) (d : Dialogue (Except Exit Value)) (lines : List String) (polls : Nat)
    (log : List LogEntry) : Prop :=
  ∀ more, d₀.run (Recorder.host (.plain files)) ⟨given ++ more, 0, 0, []⟩ =
    d.run (Recorder.host (.plain files)) ⟨lines ++ more, 0, polls, log⟩

/-- Once the wait is over the recorder is where the run goes on, and its script is standard. -/
def Awaits (files : List (String × String)) (d₀ : Dialogue (Except Exit Value))
    (given lines : List String) (polls : Nat) (log : List LogEntry) : Wait → Prop
  | .input resume => lines = [] ∧ ∀ line, (resume (.ok line)).Emits Event.IsStandard ∧
    Follows files d₀ (given ++ [line]) (resume (.ok line)) [] polls log
  | .sleep _ resume => (resume (.ok ())).Emits Event.IsStandard ∧
    Follows files d₀ given (resume (.ok ())) lines polls log
  | .debug _ => False

/-- In the conversation the session, whose script is standard, is where the recorder is. -/
def Accompanied (files : List (String × String)) (d₀ : Dialogue (Except Exit Value))
    (given : List String) (base : List Message) (d : Dialogue (Except Exit Value)) (st : Stage) :
    Prop :=
  d.Emits Event.IsStandard ∧
    ∃ polls log, st.session.Shown base log ∧ Follows files d₀ given d st.stdin polls log

/-- A conversation has come to where the recorder is. -/
def Arrives (files : List (String × String)) (d₀ : Dialogue (Except Exit Value))
    (given : List String) (base : List Message) : Halt × Stage → Prop
  | (.waits w, st) => ∃ polls log, st.session.Shown base log ∧
    Awaits files d₀ given st.stdin polls log w
  | (.ends e, st) => ∃ polls log res m, st.session.Shown base log ∧
    AttemptEnd.ofRun? (.ofResult res) = some e ∧
    ∀ more, d₀.run (Recorder.host (.plain files)) ⟨given ++ more, 0, 0, []⟩ =
      (res, m, ⟨st.stdin ++ more, 0, polls, log⟩)
  | (.faults f, _) => f = .exhausted

variable {files : List (String × String)} {d₀ : Dialogue (Except Exit Value)} {given : List String}
  {polls : Nat}

/-- One question. -/
theorem react_recorded {st : Stage} {mc : Machine} {q : Query}
    {resume : Except Signal q.Answer → Dialogue (Except Exit Value)}
    (h : Accompanied files d₀ given base (.ask mc q resume) st) :
    Keeps (Accompanied files d₀ given base) (Arrives files d₀ given base) resume
      (st.react false files q) := by
  obtain ⟨⟨hq, hd⟩, polls, log, hs, hf⟩ := h
  have hrunning : (st.session.interrupted && q.mayStop) = false := by rw [hs.running]; rfl
  unfold Stage.react
  rw [hrunning, if_neg Bool.false_ne_true]
  cases q with
  | poll => exact ⟨hd _, polls + 1, log, hs, hf⟩
  | line file n => exact ⟨hd _, polls, log, hs, hf⟩
  | emit e =>
    obtain ⟨o, shown, rfl, ht⟩ := hq e rfl
    obtain ⟨hok, hs'⟩ := hs.deliver (.output o) rfl ht
    dsimp only [Stage.attend]
    rw [hok]
    exact ⟨hd _, polls, .output o :: log, hs', hf⟩
  | input prompt =>
    have hs' := (hs.deliver (.input prompt) rfl rfl).2
    obtain ⟨session, stdin⟩ := st
    cases stdin with
    | cons line rest => exact ⟨hd _, polls, .input prompt :: log, hs', hf⟩
    | nil =>
      refine ⟨polls, .input prompt :: log, hs'.enter _, rfl, fun line => ⟨hd _, fun more => ?_⟩⟩
      rw [List.append_assoc]
      exact hf (line :: more)
  | sleep duration =>
    have hs' := (hs.deliver (.sleep duration) rfl rfl).2
    dsimp only [Stage.attend]
    split
    · exact ⟨polls, .sleep duration :: log, hs', hd _, hf⟩
    · exact ⟨hd _, polls, .sleep duration :: log, hs', hf⟩
  | readFile name => exact ⟨hd _, polls, .read name :: log, hs.silent rfl, hf⟩

/-- A conversation. -/
theorem converse_recorded {d : Dialogue (Except Exit Value)} {st : Stage}
    (h : Accompanied files d₀ given base d st) :
    Arrives files d₀ given base (converse false files d st) := by
  have halts {res : Except Abort (Except Exit Value)} {mc : Machine} {st : Stage} {polls : Nat}
      {log : List LogEntry} (hs : st.session.Shown base log)
      (hrun : ∀ more, d₀.run (Recorder.host (.plain files)) ⟨given ++ more, 0, 0, []⟩ =
        (res, mc, ⟨st.stdin ++ more, 0, polls, log⟩)) :
      Arrives files d₀ given base (st.session.haltOf (.ofResult res), st) := by
    unfold haltOf
    rw [hs.running]
    split
    · rfl
    · next e he => exact ⟨polls, log, res, mc, hs, he, hrun⟩
  refine converse_induction (I := Accompanied files d₀ given base) ?_ ?_ react_recorded h
  · rintro r m st ⟨-, polls, log, hs, hf⟩
    exact halts hs hf
  · rintro a m st ⟨-, polls, log, hs, hf⟩
    exact halts hs hf

end Session
end Lispbox
