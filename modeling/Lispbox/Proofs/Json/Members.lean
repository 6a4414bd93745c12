import Lispbox.Json.Shape

/-!
# The members of objects

The members of a JSON object have no order. What is written has them in some order, and what was
read, or brought into normal form, has them in that of their keys. An `Arrangement` is any way to
order the members of all objects in a value; readers of records find the same under all of them.

* `lookup_sortMembers`, `field?_normal`: the members of an object in normal form.
* `arrangement_id`, `arrangement_normal`: a value as it is, and its normal form.
* `Arrangement.exists_members`: looking up the members of an object that is arranged.
-/
namespace Lispbox.Json

variable {α : Type}

/-! ## Sorted members -/

theorem lookup_foldl_insert (key : String) (ms sorted : List (String × α)) :
    (ms.foldl (fun sorted (k, v) => insert k v sorted) sorted).lookup key =
      (ms.reverse.lookup key).or (sorted.lookup key) := by
  induction ms generalizing sorted with
  | nil => rfl
  | cons m ms ih =>
    obtain ⟨k, v⟩ := m
    rw [List.foldl_cons, ih, List.reverse_cons, List.lookup_append, Option.or_assoc]
    congr 1
    by_cases hk : key = k
    · subst hk
      simp [lookup_insert_self]
    · have hb : (key == k) = false := by simpa using hk
      simp [lookup_insert_of_ne v sorted hk, List.lookup_cons, hb]

/-- Of several members with one key the last one counts. -/
theorem lookup_sortMembers (key : String) (ms : List (String × α)) :
    (sortMembers ms).lookup key = ms.reverse.lookup key := by
  unfold sortMembers
  rw [lookup_foldl_insert, List.lookup_nil, Option.or_none]

theorem insert_perm {key : String} {ms : List (String × α)} (value : α)
    (h : key ∉ ms.map Prod.fst) : (insert key value ms).Perm ((key, value) :: ms) := by
  induction ms with
  | nil => exact .refl _
  | cons m ms ih =>
    obtain ⟨k, v⟩ := m
    obtain ⟨hk, hms⟩ : key ≠ k ∧ key ∉ ms.map Prod.fst := by simpa using h
    rw [insert]
    split
    · exact .refl _
    · exact ((ih hms).cons _).trans (.swap _ _ _)

/-- Members with different keys are all kept. -/
theorem sortMembers_perm {ms : List (String × α)} (h : (ms.map Prod.fst).Nodup) :
    (sortMembers ms).Perm ms := by
  have hfold (ms sorted : List (String × α)) (h : ((sorted ++ ms).map Prod.fst).Nodup) :
      (ms.foldl (fun sorted (k, v) => insert k v sorted) sorted).Perm (sorted ++ ms) := by
    induction ms generalizing sorted with
    | nil => rw [List.append_nil]; exact .refl _
    | cons m ms ih =>
      obtain ⟨k, v⟩ := m
      have hmiddle : (sorted ++ (k, v) :: ms).Perm ((k, v) :: (sorted ++ ms)) := List.perm_middle
      have hk : k ∉ sorted.map Prod.fst := by
        have hnodup := (hmiddle.map Prod.fst).nodup_iff.mp h
        simp only [List.map_cons, List.nodup_cons, List.map_append, List.mem_append, not_or]
          at hnodup
        exact hnodup.1.1
      have hinsert : (insert k v sorted ++ ms).Perm (sorted ++ (k, v) :: ms) :=
        ((insert_perm v hk).append_right ms).trans hmiddle.symm
      exact (ih _ ((hinsert.map Prod.fst).nodup_iff.mpr h)).trans hinsert
  exact hfold ms [] h

theorem normalMembers_eq_map (ms : List (String × Json)) :
    normalMembers ms = ms.map fun m => (m.1, m.2.normal) := by
  induction ms with
  | nil => rfl
  | cons m ms ih =>
    obtain ⟨k, v⟩ := m
    rw [normalMembers, ih]
    rfl

theorem normalItems_eq_map (vs : List Json) : normalItems vs = vs.map normal := by
  induction vs with
  | nil => rfl
  | cons v vs ih => rw [normalItems, ih, List.map_cons]

theorem lookup_map_values {β : Type} (f : α → β) (key : String) (ms : List (String × α)) :
    (ms.map fun m => (m.1, f m.2)).lookup key = (ms.lookup key).map f := by
  induction ms with
  | nil => rfl
  | cons m ms ih =>
    rw [List.map_cons, List.lookup_cons, List.lookup_cons, ih]
    cases key == m.1 <;> rfl

/-- Members with different keys are found in any order. -/
theorem lookup_perm {ms ms' : List (String × α)} (h : ms'.Perm ms) (hms : (ms.map Prod.fst).Nodup)
    (key : String) : ms'.lookup key = ms.lookup key := by
  induction h with
  | nil => rfl
  | cons m _ ih =>
    rw [List.lookup_cons, List.lookup_cons, ih (List.nodup_cons.mp hms).2]
  | swap m n ms =>
    obtain ⟨k, v⟩ := m
    obtain ⟨k', v'⟩ := n
    have hne : k ≠ k' := fun heq => by simp [heq] at hms
    by_cases hk : key = k
    · have hk' : (key == k') = false := by simpa [hk] using hne
      simp [List.lookup_cons, hk']
    · have hk : (key == k) = false := by simpa using hk
      simp [List.lookup_cons, hk]
  | trans _ h₂ ih₁ ih₂ =>
    rw [ih₁ ((h₂.map Prod.fst).nodup_iff.mpr hms), ih₂ hms]

/-- A member of an object that is brought into normal form. -/
theorem field?_normal (key : String) (ms : List (String × Json)) :
    (Json.obj ms).normal.field? key = (ms.reverse.lookup key).map normal := by
  rw [normal, sorted, field?, lookup_sortMembers, normalMembers_eq_map, ← List.map_reverse,
    lookup_map_values]

/-! ## Arrangements -/

/-- `arrange` puts the members of every object into some order and changes nothing else. -/
structure Arrangement (arrange : Json → Json) : Prop where
  null : arrange .null = .null
  bool : ∀ b, arrange (.bool b) = .bool b
  whole : ∀ n, arrange (.whole n) = .whole n
  float : ∀ x, arrange (.float x) = .float x
  str : ∀ s, arrange (.str s) = .str s
  arr : ∀ vs, arrange (.arr vs) = .arr (vs.map arrange)
  obj : ∀ ms, (ms.map Prod.fst).Nodup →
    ∃ ms', arrange (.obj ms) = .obj ms' ∧ ms'.Perm (ms.map fun m => (m.1, arrange m.2))

theorem arrangement_id : Arrangement id where
  null := rfl
  bool _ := rfl
  whole _ := rfl
  float _ := rfl
  str _ := rfl
  arr vs := by rw [List.map_id]; rfl
  obj ms _ := ⟨ms, rfl, by simp⟩

theorem arrangement_normal : Arrangement normal where
  null := by simp [normal]
  bool _ := by simp [normal]
  whole _ := by simp [normal]
  float _ := by simp [normal]
  str _ := by simp [normal]
  arr vs := by rw [normal, normalItems_eq_map]
  obj ms hms := by
    refine ⟨sortMembers (normalMembers ms), by rw [normal, sorted], ?_⟩
    rw [normalMembers_eq_map]
    exact sortMembers_perm (by simpa [Function.comp_def] using hms)

variable {arrange : Json → Json} {ms : List (String × Json)}

/-- Looking up a member of an object that is arranged. -/
theorem Arrangement.exists_members (h : Arrangement arrange) {j : Json} (hj : j = .obj ms)
    (hms : (ms.map Prod.fst).Nodup) :
    ∃ ms', arrange j = .obj ms' ∧ ∀ key, ms'.lookup key = (ms.lookup key).map arrange := by
  obtain ⟨ms', harrange, hperm⟩ := h.obj ms hms
  refine ⟨ms', by rw [hj, harrange], fun key => ?_⟩
  rw [lookup_perm hperm (by simpa [Function.comp_def] using hms), lookup_map_values]

/-- An object with one member has no other order. -/
theorem Arrangement.singleton (h : Arrangement arrange) (key : String) (v : Json) :
    arrange (.obj [(key, v)]) = .obj [(key, arrange v)] := by
  obtain ⟨ms', harrange, hperm⟩ := h.obj [(key, v)] (by simp)
  rw [harrange, List.perm_singleton.mp hperm]

/-! ## Reading what is arranged -/

@[simp]
theorem text?_str (s : String) : text? (.str s) = some s := rfl

@[simp]
theorem fields?_obj (names : List String) (ms : List (String × Json)) :
    (Json.obj ms).fields? names = some ⟨ms⟩ := rfl

theorem orNull?_of_some {read : Json → Option α} {j : Json} {x : α} (hnull : read .null = none)
    (hj : read j = some x) : orNull? read j = some (some x) := by
  cases j with
  | null => exact absurd (hnull.symm.trans hj) nofun
  | _ => simp [orNull?, hj]

variable (h : Arrangement arrange)
include h

theorem Arrangement.word32?_nat {n : Nat} (hn : n < word32) :
    word32? (arrange (nat n)) = some n := by
  rw [nat, h.whole, word32?, naturalBelow_whole hn]

theorem Arrangement.word64?_nat {n : Nat} (hn : n < word64) :
    word64? (arrange (nat n)) = some n := by
  rw [nat, h.whole, word64?, naturalBelow_whole hn]

theorem Arrangement.orNull?_ofText? (s : Option String) :
    orNull? text? (arrange (ofText? s)) = some s := by
  cases s with
  | none => rw [ofText?, h.null, orNull?]
  | some s => rw [ofText?, h.str, orNull?_of_some rfl (text?_str s)]

/-- An array is read if each of its items is. -/
theorem Arrangement.list?_arr {write : α → Json} {read : Json → Option α} {xs : List α}
    (hread : ∀ x ∈ xs, read (arrange (write x)) = some x) :
    list? read (arrange (.arr (xs.map write))) = some xs := by
  rw [h.arr, list?]
  induction xs with
  | nil => rfl
  | cons x xs ih =>
    obtain ⟨hx, hxs⟩ := List.forall_mem_cons.mp hread
    rw [List.map_cons, List.map_cons, List.mapM_cons, hx, ih hxs]
    rfl

theorem Arrangement.list?_texts (ss : List String) :
    list? text? (arrange (texts ss)) = some ss :=
  h.list?_arr fun s _ => by rw [h.str, text?_str]

end Lispbox.Json
