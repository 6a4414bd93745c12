import Lispbox.Proofs.Run.Watch

/-!
# Who changes a namespace

A frame changes no globals but those that it sees. Before every node the host is asked, so what is
executed in a frame is preceded by a question with that frame innermost: as long as no question is
asked in a frame that has its globals in some namespace, the namespace stays as it is.

* `Watch.globals`: the watch over one namespace; it ends with the first such question.
* `globals_unchanged`: a namespace before and after a script that keeps this watch.
-/
namespace Lispbox
open Script

namespace Machine

variable {m m' : Machine} {i : Nat}

/-- The innermost frame, if there is one, has its globals elsewhere. -/
def Elsewhere (i : Nat) (m : Machine) : Prop := ∀ f ∈ m.frames.head?, f.scope ≠ i

theorem Kept.elsewhere (h : m.Kept m') (hm : m.Elsewhere i) : m'.Elsewhere i := by
  intro f' hf'
  rcases h.stack with ⟨-, hnil⟩ | ⟨g, g', fs, hg, hg', hs⟩
  · rw [hnil] at hf'
    cases hf'
  · rw [hg'] at hf'
    cases hf'
    rw [Frame.scope_eq hs]
    exact hm g (by simp [hg])

theorem elsewhere_of_scope (h : m.scope ≠ i) : m.Elsewhere i := by
  intro f hf
  obtain ⟨fs, hfs⟩ := List.head?_eq_some_iff.mp hf
  unfold scope at h
  rwa [hfs] at h

theorem Alters.namespace (h : m.Alters m') (hm : m.Elsewhere i) :
    m'.namespaces[i]? = m.namespaces[i]? := by
  cases h with
  | nothing => rfl
  | moved => rfl
  | @global f fs hf name v =>
    have hne : f.scope ≠ i := hm f (by simp [hf])
    exact List.getElem?_modify_ne _ _ hne

theorem Grows.namespace (h : m.Grows m') {n : Namespace} (hn : m.namespaces[i]? = some n) :
    m'.namespaces[i]? = some n := by
  cases h with
  | openModule name p =>
    exact (List.getElem?_append_left (List.getElem?_eq_some_iff.mp hn).1).trans hn
  | _ => exact hn

end Machine

/-- The namespace with the number `i` is as it was. -/
def Watch.globals (i : Nat) (n : Namespace) : Watch where
  stop m := m.scope = i
  before k m := m.namespaces[i]? = some n ∧ (0 < k → m.Elsewhere i)
  asks _ m := m.namespaces[i]? = some n
  allowed _ := True

theorem Watch.globals_lawful (env : Environment) (i : Nat) (n : Namespace) :
    (Watch.globals i n).Lawful env where
  asks_before h := h.1
  asks_outer h := h
  alters {k m m'} h ha := by
    have hclear := h.2 (Nat.succ_pos k)
    exact ⟨(ha.namespace hclear).trans h.1, fun _ => ha.kept.elsewhere hclear⟩
  grows h hg := ⟨hg.namespace h.1, fun hk => hg.untouched.kept.elsewhere (h.2 hk)⟩
  enters f line h _ :=
    ⟨h.1, fun hstop => ⟨h.1, fun _ => Machine.elsewhere_of_scope hstop⟩⟩
  leaves h hk h' := ⟨h'.1, fun hpos => hk.pop.kept.elsewhere (h.2 hpos)⟩
  allowed_bare _ := trivial
  allowed_trace _ _ := trivial

/-- If no question is asked in a frame that has its globals in the namespace, it stays as it is. -/
theorem globals_unchanged {σ α : Type} {s : Script α} {k i : Nat} {n : Namespace} {m : Machine}
    (hs : (Watch.globals i n).Keeps k s) (hn : m.namespaces[i]? = some n)
    (hk : 0 < k → m.Elsewhere i) (h : Host σ) (t : σ)
    (hquiet : ∀ x ∈ (s m).exchanges h t, x.machine.scope ≠ i) :
    ((s m).run h t).2.1.namespaces[i]? = some n := by
  have hend := (hs m ⟨hn, hk⟩).run h t hquiet
  split at hend
  · exact hend.2.1.1
  · exact hend

end Lispbox
