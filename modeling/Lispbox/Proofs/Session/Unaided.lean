import Lispbox.Proofs.Session.Works

/-!
# Questions to the resolver

The resolver is asked for modules ahead of an attempt, and for a module that could not be imported
after one. In between nobody asks it, and the modules that are installed stay as they are
(`Session.Unaided`): while a script is executed, whatever it asks of its session, and when a run
ends.

* `unaided`: conversations between a script and its session, and the ends of runs.
-/
namespace Lispbox

namespace Session

variable {s₀ s s' s'' : Session}

/-- What the resolver was asked since an earlier time, in order. -/
def consultations (s₀ s : Session) : List Notice := (s₀.since s).filter Notice.isConsultation

theorem Grows.consultations (h : s₀.Grows s) (h' : s.Grows s') :
    s₀.consultations s' = s₀.consultations s ++ s.consultations s' := by
  unfold Session.consultations
  rw [h.since h', List.filter_append]

/-- Things were done without the resolver, and with the same modules. -/
structure Unaided (s s' : Session) : Prop where
  grows : s.Grows s'
  setup : s'.setup = s.setup
  registry : s'.registry = s.registry
  unasked : s.consultations s' = []

theorem Unaided.of_eq (hn : s'.notices = s.notices) (hs : s'.setup = s.setup)
    (hr : s'.registry = s.registry) : s.Unaided s' := by
  have hnew : s'.notices = [] ++ s.notices := hn
  refine ⟨.of_eq hn, hs, hr, ?_⟩
  rw [consultations, since_eq hnew]
  rfl

theorem Unaided.refl (s : Session) : s.Unaided s := .of_eq rfl rfl rfl

theorem Unaided.trans (h : s.Unaided s') (h' : s'.Unaided s'') : s.Unaided s'' := by
  refine ⟨h.grows.trans h'.grows, h'.setup.trans h.setup, h'.registry.trans h.registry, ?_⟩
  rw [h.grows.consultations h'.grows, h.unasked, h'.unasked]
  rfl

theorem consultations_note (n : Notice) :
    s.consultations (s.note n) = if n.isConsultation then [n] else [] := by
  have hnew : (s.note n).notices = [n] ++ s.notices := rfl
  rw [consultations, since_eq hnew, List.reverse_singleton, List.filter_cons, List.filter_nil]

theorem unaided_note {n : Notice} (h : n.isConsultation = false) : s.Unaided (s.note n) :=
  ⟨grows_note n, rfl, rfl, by rw [consultations_note, h]; rfl⟩

theorem unaided_publish (m : Message) : s.Unaided (s.publish m) := unaided_note rfl

theorem unaided : Conversational Unaided where
  of_eq hn hs _ hr := .of_eq hn hs hr
  trans := .trans
  publish _ := unaided_publish _
  enter {s} next := by
    unfold enter
    split
    · exact .refl s
    · have hstate : s.Unaided { s with state := next } := .of_eq rfl rfl rfl
      exact hstate.trans (unaided_note (n := .enter next) rfl)

end Session
end Lispbox
