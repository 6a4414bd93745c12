import Lispbox.Proofs.Session.History
import Lispbox.Proofs.Session.Interrupts

/-!
# Where a conversation comes to

In either mode a session that is not interrupted answers as a recorder does that has the same files
and the same lines. Here nothing is said of what is published, so nothing has to be known of the
modules: the recorder is where the conversation goes on (`Session.Reaches`), where it waits
(`Session.Rests`), and ends as it ends.

* `converse_lands`: a conversation, whatever it comes to.
-/
namespace Lispbox
namespace Session

/-- Where a conversation halts, the recorder is, or it has ended in the same way. -/
def Lands (files : List (String × String)) (d₀ : Dialogue (Except Exit Value))
    (given : List String) : Halt × Stage → Prop
  | (.waits w, st) => ∃ polls events, Rests files d₀ given st.stdin polls events w
  | (.ends e, _) => AttemptEnd.ofRun?
      (.ofResult (d₀.run (Recorder.host (.full files)) ⟨given, 0, 0, []⟩).1) = some e
  | (.faults _, _) => True

/-- In the conversation the recorder is where the session is. -/
def Joins (files : List (String × String)) (d₀ : Dialogue (Except Exit Value))
    (given : List String) (d : Dialogue (Except Exit Value)) (st : Stage) : Prop :=
  ∃ polls events, Reaches files d₀ given d st.stdin polls events

variable {files : List (String × String)} {d₀ d : Dialogue (Except Exit Value)}
  {given : List String} {polls : Nat} {events : List LogEntry}

theorem attend_lands (debugging : Bool) {st : Stage} {mc : Machine} {q : Query}
    {resume : Except Signal q.Answer → Dialogue (Except Exit Value)}
    (hr : Reaches files d₀ given (.ask mc q resume) st.stdin polls events) :
    Keeps (Joins files d₀ given) (Lands files d₀ given) resume (st.attend debugging files q) := by
  obtain ⟨⟨hq, hd⟩, hrun⟩ := hr
  cases q with
  | poll => exact ⟨polls + 1, events, hd _, hrun⟩
  | readFile name => exact ⟨polls, .read name :: events, hd _, hrun⟩
  | line file n =>
    dsimp only [Stage.attend]
    split
    · exact ⟨polls, .line file n :: events, hd _, hrun⟩
    · split
      · exact ⟨polls, .line file n :: events, hd _, hrun⟩
      · exact ⟨polls, .line file n :: events, hd _, hrun⟩
  | emit e =>
    obtain ⟨o, rfl⟩ := hq e rfl
    dsimp only [Stage.attend]
    split
    · exact ⟨polls, .output o :: events, hd _, hrun⟩
    · trivial
  | input prompt =>
    obtain ⟨session, stdin⟩ := st
    cases stdin with
    | cons line rest => exact ⟨polls, .input prompt :: events, hd _, hrun⟩
    | nil =>
      refine ⟨polls, .input prompt :: events, rfl, fun line => ⟨hd _, fun more => ?_⟩⟩
      rw [List.append_assoc]
      exact hrun (line :: more)
  | sleep duration =>
    dsimp only [Stage.attend]
    split
    · exact ⟨polls, .sleep duration :: events, hd _, hrun⟩
    · exact ⟨polls, .sleep duration :: events, hd _, hrun⟩

/-- A conversation in a session that is not interrupted. -/
theorem converse_lands (debugging : Bool) {st : Stage}
    (hr : Reaches files d₀ given d st.stdin polls events) (hi : st.session.interrupted = false) :
    Lands files d₀ given (converse debugging files d st) := by
  have ended {d : Dialogue (Except Exit Value)} {st : Stage}
      {res : Except Abort (Except Exit Value)} (hi : st.session.interrupted = false)
      (hj : Joins files d₀ given d st)
      (hres : ∀ t, (d.run (Recorder.host (.full files)) t).1 = res) :
      Lands files d₀ given (st.session.haltOf (.ofResult res), st) := by
    obtain ⟨polls, events, hr⟩ := hj
    have hrun := hr.run []
    rw [List.append_nil] at hrun
    unfold haltOf
    rw [hi]
    split
    · trivial
    · next e he =>
      rw [Lands, hrun, hres]
      exact he
  refine converse_induction
    (I := fun d st => st.session.interrupted = false ∧ Joins files d₀ given d st)
    (fun h => ended h.1 h.2 fun _ => rfl) (fun h => ended h.1 h.2 fun _ => rfl) ?_
    ⟨hi, polls, events, hr⟩
  intro mc q resume st ⟨hi, polls, events, hr⟩
  have hrunning : (st.session.interrupted && q.mayStop) = false := by rw [hi]; rfl
  have hheard := heard_react debugging files hi q
  have hlands := attend_lands debugging hr
  unfold Stage.react at hheard ⊢
  rw [hrunning, if_neg Bool.false_ne_true] at hheard ⊢
  unfold Keeps at hlands ⊢
  split
  · next a st' hst =>
    rw [hst] at hheard hlands
    exact ⟨hheard.2, hlands⟩
  · next w st' hst =>
    rw [hst] at hlands
    exact hlands
  · trivial

end Session
end Lispbox
