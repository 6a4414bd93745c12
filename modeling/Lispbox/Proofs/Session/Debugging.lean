import Lispbox.Proofs.Session.Works

/-!
# Runs that are debugged

A client that debugs enters lines and answers pauses with a step or by going on (`Move.isReply`);
it neither interrupts the run nor ends it. What a run does in between to its session is to publish
messages (`Session.Adds`); only between two attempts there may be a new module.
-/
namespace Lispbox

/-- A line is entered, a pause of the script is over, or a pause of the debugger is answered with a
step or by going on. -/
def Move.isReply : Move → Bool
  | .command (.input _) | .command (.debug .continue_) | .command (.debug .step) | .elapse => true
  | .command .interrupt | .command (.debug .quit) | .provideFiles _ => false

/-- The message about a pause of the debugger. -/
def Message.pause (n : Nat) : Message := ⟨.debug, .number n, ContentType.number⟩

/-- The run waits at a pause of the debugger. -/
def Progress.isPaused (p : Progress) : Bool :=
  match p.result, p.session.flight with
  | none, some ⟨_, _, _, _, _, .debug _⟩ => true
  | _, _ => false

namespace Session

variable {s₀ s s' s'' : Session} {ms ms' : List Message}

/-- The session has published the messages, newest first, since an earlier time. -/
def Published (s₀ s : Session) (ms : List Message) : Prop :=
  ∃ new, s.notices = new ++ s₀.notices ∧ new.filterMap Notice.message? = ms

theorem Published.eq (h : s₀.Published s ms) : s₀.published s = ms.reverse := by
  obtain ⟨new, hnew, rfl⟩ := h
  rw [published, since_eq hnew, List.filterMap_reverse]

theorem Published.trans (h : s₀.Published s ms) (h' : s.Published s' ms') :
    s₀.Published s' (ms' ++ ms) := by
  obtain ⟨new, hnew, rfl⟩ := h
  obtain ⟨new', hnew', rfl⟩ := h'
  exact ⟨new' ++ new, by rw [hnew', hnew, List.append_assoc], List.filterMap_append⟩

/-- The session has published the messages, newest first; its modules and its files are the same. -/
structure Adds (ms : List Message) (s s' : Session) : Prop where
  setup : s'.setup = s.setup
  registry : s'.registry = s.registry
  files : s'.files = s.files
  interrupted : s'.interrupted = s.interrupted
  published : s.Published s' ms

theorem Adds.refl (s : Session) : Adds [] s s := ⟨rfl, rfl, rfl, rfl, [], rfl, rfl⟩

theorem Adds.trans (h : Adds ms s s') (h' : Adds ms' s' s'') : Adds (ms' ++ ms) s s'' :=
  ⟨h'.setup.trans h.setup, h'.registry.trans h.registry, h'.files.trans h.files,
    h'.interrupted.trans h.interrupted, h.published.trans h'.published⟩

theorem adds_note (n : Notice) : Adds n.message?.toList s (s.note n) := by
  refine ⟨rfl, rfl, rfl, rfl, [n], rfl, ?_⟩
  cases hn : n.message? <;> simp [hn]

theorem adds_publish (m : Message) : Adds [m] s (s.publish m) := adds_note (.publish m)

theorem adds_enter (next : ExecutionState) : Adds [] s (s.enter next) := by
  unfold enter
  split
  · exact .refl s
  · exact ⟨rfl, rfl, rfl, rfl, [.enter next], rfl, rfl⟩

/-- An event that has a message, or is not shown, is delivered. -/
theorem adds_deliver {e : Event} {shown : Option Message} (h : Message.ofEvent e = .ok shown) :
    (s.deliver e).1 = .ok () ∧ Adds shown.toList s (s.deliver e).2 := by
  cases shown with
  | none =>
    rw [deliver_hidden h]
    exact ⟨rfl, .refl s⟩
  | some m =>
    rw [deliver_shown h]
    exact ⟨rfl, adds_publish m⟩

/-- The debugger reaches the line of a pause. -/
theorem adds_pause (d : Debugger) (n : Nat) :
    Adds [.pause n] s
      (({ s with debugger := d }.deliver (.debugPause n)).2.enter .debugPaused) := by
  have hreach : Adds [] s { s with debugger := d } := ⟨rfl, rfl, rfl, rfl, [], rfl, rfl⟩
  exact hreach.trans ((adds_deliver (e := .debugPause n) rfl).2.trans (adds_enter _))

/-- `start` is the first message of a run. -/
theorem published_opening (s : Session) (mode : RunMode) :
    s.Published (s.opening mode) [.start mode] := by
  obtain ⟨new, hnew, henters⟩ := notices_opening s mode
  refine ⟨.publish (.start mode) :: new, hnew, ?_⟩
  rw [List.filterMap_cons, filterMap_enters henters]
  rfl

/-! ## Modules -/

/-- The modules that a program imports and that are not installed. -/
def absent (s : Session) (p : Program) : List String :=
  p.imports.filter fun name => !s.registry.contains name

theorem prefetch_eq (s : Session) (p : Program) :
    s.prefetch p =
      if (s.absent p).isEmpty then s
      else
        match s.setup.resolver.prefetch (s.absent p) with
        | [] => s.note (.prefetch (s.absent p))
        | modules => (s.note (.prefetch (s.absent p))).installFound modules := rfl

end Session
end Lispbox
