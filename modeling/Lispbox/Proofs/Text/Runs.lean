/-!
# Runs

A scanner takes what comes as long as it is as required. What it takes is a run: all of it is as
required, and the first thing behind it, if there is one, is not.

* `takeWhile_run`, `dropWhile_run`: where the scanner stops.
* `exists_run`, `run_unique`: there is one run in front of everything.
-/
namespace Lispbox.Text

variable {α : Type} {p : α → Bool} {run rest run' rest' : List α}

theorem takeWhile_run (hrun : ∀ a ∈ run, p a = true) (hrest : ∀ a ∈ rest.head?, p a = false) :
    (run ++ rest).takeWhile p = run := by
  rw [List.takeWhile_append_of_pos hrun]
  cases rest with
  | nil => rw [List.takeWhile_nil, List.append_nil]
  | cons a rest => rw [List.takeWhile_cons_of_neg (by simp [hrest a rfl]), List.append_nil]

theorem dropWhile_run (hrun : ∀ a ∈ run, p a = true) (hrest : ∀ a ∈ rest.head?, p a = false) :
    (run ++ rest).dropWhile p = rest := by
  rw [List.dropWhile_append_of_pos hrun]
  cases rest with
  | nil => rfl
  | cons a rest => rw [List.dropWhile_cons_of_neg (by simp [hrest a rfl])]

theorem head_dropWhile (p : α → Bool) (as : List α) :
    ∀ a ∈ (as.dropWhile p).head?, p a = false := by
  intro a ha
  have := List.head?_dropWhile_not p as
  rw [Option.mem_def.mp ha] at this
  simpa using this

theorem exists_run (p : α → Bool) (as : List α) :
    ∃ run rest, as = run ++ rest ∧ (∀ a ∈ run, p a = true) ∧ ∀ a ∈ rest.head?, p a = false :=
  ⟨as.takeWhile p, as.dropWhile p, List.takeWhile_append_dropWhile.symm,
    List.all_eq_true.mp List.all_takeWhile, head_dropWhile p as⟩

theorem run_unique (h : run ++ rest = run' ++ rest') (hrun : ∀ a ∈ run, p a = true)
    (hrest : ∀ a ∈ rest.head?, p a = false) (hrun' : ∀ a ∈ run', p a = true)
    (hrest' : ∀ a ∈ rest'.head?, p a = false) : run = run' ∧ rest = rest' := by
  have htake := congrArg (List.takeWhile p) h
  have hdrop := congrArg (List.dropWhile p) h
  rw [takeWhile_run hrun hrest, takeWhile_run hrun' hrest'] at htake
  rw [dropWhile_run hrun hrest, dropWhile_run hrun' hrest'] at hdrop
  exact ⟨htake, hdrop⟩

end Lispbox.Text
