import Lispbox.Proofs.Json.Tokens

/-!
# Reading what was printed

A JSON value `IsLegible` if its text has all of it. Texts have the members of objects in the order
they were written in, while objects that are read have them in the order of their keys, so what is
read is the value in normal form.

The text of a value is read up to its end, whatever follows (`ReadsAs`). For lists of items and of
members the same is said of what is between the brackets (`ReadsItems`, `ReadsMembers`). How the
texts of parts make up a text that is read is said first for one item or member and for one more,
and the induction over values puts them together (`readsAs_print`).

* `parse_print`: a legible value is read from its text.
-/
namespace Lispbox.Json
open Lispbox.Text

/-! ## Values -/

mutual
/-- The text of the value, inside `depth` arrays and objects, has all of the value: there are no
doubles in it, its whole numbers have at most 64 bits, and it is not nested too deep. -/
def IsLegible (depth : Nat) : Json → Prop
  | .null => True
  | .bool _ => True
  | .whole n => -(word63 : Int) ≤ n ∧ n < word64
  | .float _ => False
  | .str _ => True
  | .arr items => depth < maxNesting ∧ ItemsLegible (depth + 1) items
  | .obj members => depth < maxNesting ∧ MembersLegible (depth + 1) members

@[inherit_doc IsLegible]
def ItemsLegible (depth : Nat) : List Json → Prop
  | [] => True
  | v :: vs => v.IsLegible depth ∧ ItemsLegible depth vs

@[inherit_doc IsLegible]
def MembersLegible (depth : Nat) : List (String × Json) → Prop
  | [] => True
  | (_, v) :: ms => v.IsLegible depth ∧ MembersLegible depth ms
end

theorem legible_nat {n depth : Nat} (h : n < word64) : (nat n).IsLegible depth := by
  have hlow : -(word63 : Int) ≤ n := by omega
  exact ⟨hlow, Int.ofNat_lt.mpr h⟩

theorem legible_ofText? (s : Option String) (depth : Nat) : (ofText? s).IsLegible depth := by
  cases s <;> trivial

theorem itemsLegible_map {α : Type} {depth : Nat} {write : α → Json} {xs : List α}
    (h : ∀ x ∈ xs, (write x).IsLegible depth) : ItemsLegible depth (xs.map write) := by
  induction xs with
  | nil => trivial
  | cons x xs ih =>
    obtain ⟨hx, hxs⟩ := List.forall_mem_cons.mp h
    exact ⟨hx, ih hxs⟩

/-- The texts of items, with commas between them. -/
def itemsText (vs : List Json) : List Char := (",".intercalate (printItems vs)).toList

/-- The texts of members, with commas between them. -/
def membersText (ms : List (String × Json)) : List Char :=
  (",".intercalate (printMembers ms)).toList

theorem itemsText_singleton (v : Json) : itemsText [v] = v.print.toList := by
  simp [itemsText, printItems]

theorem itemsText_cons (v w : Json) (vs : List Json) :
    itemsText (v :: w :: vs) = v.print.toList ++ ',' :: itemsText (w :: vs) := by
  simp [itemsText, printItems, String.intercalate_cons_of_ne_nil]

theorem membersText_singleton (k : String) (v : Json) :
    membersText [(k, v)] = (quote k).toList ++ ':' :: v.print.toList := by
  simp [membersText, printMembers]

theorem membersText_cons (k : String) (v : Json) (m : String × Json) (ms : List (String × Json)) :
    membersText ((k, v) :: m :: ms) =
      (quote k).toList ++ ':' :: (v.print.toList ++ ',' :: membersText (m :: ms)) := by
  simp [membersText, printMembers, String.intercalate_cons_of_ne_nil]

theorem toList_print_arr (vs : List Json) :
    (print (.arr vs)).toList = '[' :: (itemsText vs ++ [']']) := by
  simp [print, itemsText]

theorem toList_print_obj (ms : List (String × Json)) :
    (print (.obj ms)).toList = '\x7b' :: (membersText ms ++ ['\x7d']) := by
  simp [print, membersText]

theorem skip_cons {c : Char} (h : isSpace c = false) (cs : List Char) : skip (c :: cs) = c :: cs :=
  List.dropWhile_cons_of_neg (by simp [h])

theorem ends_cons {c : Char} (h : c = ',' ∨ c = ']' ∨ c = '\x7d') (cs : List Char) :
    Ends (c :: cs) := by
  rintro _ ⟨⟩
  rcases h with rfl | rfl | rfl <;> decide

theorem isSpace_of_number {c : Char} (h : c = '-' ∨ c.isDigit = true) : isSpace c = false := by
  rw [Bool.eq_false_iff]
  intro hspace
  simp only [isSpace, Bool.or_eq_true, beq_iff_eq] at hspace
  rcases hspace with ((rfl | rfl) | rfl) | rfl <;> exact absurd h (by decide)

/-- What begins like a number is read as one. -/
theorem readTree_number {c : Char} (h : c = '-' ∨ c.isDigit = true) (fuel : Nat) (cs : List Char) :
    readTree (fuel + 1) (c :: cs) = readNumber (c :: cs) := by
  rw [readTree, skip_cons (isSpace_of_number h)]
  split
  case h_7 => rfl
  all_goals
    next heq =>
      cases heq
      exact absurd h (by decide)

theorem readTree_quote (fuel : Nat) (cs : List Char) :
    readTree (fuel + 1) ('"' :: cs) =
      (readQuoted ⟨[], none, true⟩ cs).map fun found => (.str found.1, found.2) := rfl

theorem readTree_items {c : Char} (hspace : isSpace c = false) (hne : c ≠ ']') (fuel : Nat)
    (cs : List Char) : readTree (fuel + 1) ('[' :: c :: cs) = readItems fuel [] (c :: cs) := by
  rw [readTree, skip_cons rfl]
  simp [skip_cons hspace, hne]

theorem readTree_members (fuel : Nat) (cs : List Char) :
    readTree (fuel + 1) ('\x7b' :: '"' :: cs) = readMembers fuel [] ('"' :: cs) := rfl

/-- The first character of the text of a value is neither a space nor the end of a list. -/
theorem print_first {depth : Nat} {v : Json} (h : v.IsLegible depth) :
    ∃ c cs, v.print.toList = c :: cs ∧ isSpace c = false ∧ c ≠ ']' := by
  cases v with
  | null => exact ⟨'n', "ull".toList, rfl, rfl, by decide⟩
  | bool b =>
    cases b with
    | true => exact ⟨'t', "rue".toList, rfl, rfl, by decide⟩
    | false => exact ⟨'f', "alse".toList, rfl, rfl, by decide⟩
  | whole n =>
    obtain ⟨c, cs, htext, hc⟩ := toString_int_first n
    refine ⟨c, cs, by rw [print, htext], isSpace_of_number hc, ?_⟩
    rintro rfl
    exact absurd hc (by decide)
  | float x => exact h.elim
  | str s => exact ⟨'"', _, by rw [print, toList_quote], rfl, by decide⟩
  | arr vs => exact ⟨'[', _, toList_print_arr vs, rfl, by decide⟩
  | obj ms => exact ⟨'\x7b', _, toList_print_obj ms, rfl, by decide⟩

theorem itemsText_first {depth : Nat} {v : Json} (h : v.IsLegible depth) (vs : List Json) :
    ∃ c cs, itemsText (v :: vs) = c :: cs ∧ isSpace c = false ∧ c ≠ ']' := by
  obtain ⟨c, cs, htext, hc⟩ := print_first h
  cases vs with
  | nil => exact ⟨c, cs, by rw [itemsText_singleton, htext], hc⟩
  | cons w vs => exact ⟨c, _, by rw [itemsText_cons, htext, List.cons_append], hc⟩

theorem membersText_first (m : String × Json) (ms : List (String × Json)) :
    ∃ cs, membersText (m :: ms) = '"' :: cs := by
  obtain ⟨k, v⟩ := m
  cases ms with
  | nil => exact ⟨_, by rw [membersText_singleton, toList_quote, List.cons_append]⟩
  | cons m ms => exact ⟨_, by rw [membersText_cons, toList_quote, List.cons_append]⟩

/-- A text that is a value is read, whatever follows it that does not belong to it, and has the
value in normal form. -/
def ReadsAs (depth : Nat) (cs : List Char) (v : Json) : Prop :=
  ∃ t : Tree, t.value? depth = some v ∧
    ∀ fuel rest, cs.length ≤ fuel → Ends rest → readTree fuel (cs ++ rest) = some (t, rest)

theorem readsAs_scalar {depth : Nat} {cs : List Char} {v : Json} (t : Tree) (hne : cs ≠ [])
    (hv : t.value? depth = some v)
    (hread : ∀ fuel rest, Ends rest → readTree (fuel + 1) (cs ++ rest) = some (t, rest)) :
    ReadsAs depth cs v := by
  refine ⟨t, hv, fun fuel rest hfuel hrest => ?_⟩
  have hpos := List.length_pos_iff.mpr hne
  obtain ⟨k, rfl⟩ : ∃ k, fuel = k + 1 := ⟨fuel - 1, by omega⟩
  exact hread k rest hrest

theorem readsAs_whole {depth : Nat} {n : Int} (hlow : -(word63 : Int) ≤ n) (hhigh : n < word64) :
    ReadsAs depth (print (.whole n)).toList (.whole n) := by
  obtain ⟨c, cs, htext, hc⟩ := toString_int_first n
  have hprint : (print (.whole n)).toList = (toString n).toList := by rw [print]
  refine readsAs_scalar (.number (.ofInt n)) (by rw [hprint, htext]; exact List.cons_ne_nil _ _)
    (by rw [Tree.value?, NumberText.value?_ofInt hlow hhigh]) fun fuel rest hrest => ?_
  have hread := readNumber_int n hrest
  rw [hprint, htext, List.cons_append] at *
  rw [readTree_number hc, hread]

theorem readsAs_str {depth : Nat} (s : String) :
    ReadsAs depth (print (.str s)).toList (.str s) := by
  have hprint : (print (.str s)).toList = '"' :: (s.toList.flatMap escapeChar ++ ['"']) := by
    rw [print, toList_quote]
  refine readsAs_scalar (.str (some s)) (by rw [hprint]; exact List.cons_ne_nil _ _)
    (by rw [Tree.value?, Option.map_some]) fun fuel rest _ => ?_
  rw [hprint, List.cons_append, List.append_assoc, List.singleton_append, readTree_quote,
    readQuoted_quote, Option.map_some]

/-! ## Lists of values -/

/-- The texts of items, with commas between them, are read up to the bracket that closes the
list. -/
def ReadsItems (depth : Nat) (cs : List Char) (vs : List Json) : Prop :=
  ∃ ts : List Tree, itemValues? depth ts = some vs ∧
    ∀ fuel seen rest, cs.length + 1 ≤ fuel →
      readItems fuel seen (cs ++ ']' :: rest) = some (.arr (seen.reverse ++ ts), rest)

/-- The texts of members, with commas between them, are read up to the brace that closes the
object. -/
def ReadsMembers (depth : Nat) (cs : List Char) (ms : List (String × Json)) : Prop :=
  ∃ ts : List (Option String × Tree), memberValues? depth ts = some ms ∧
    ∀ fuel seen rest, cs.length + 1 ≤ fuel →
      readMembers fuel seen (cs ++ '\x7d' :: rest) = some (.obj (seen.reverse ++ ts), rest)

variable {depth fuel : Nat} {cs ds rest : List Char} {t : Tree} {v w : Json} {vs : List Json}
  {ms : List (String × Json)} {k : String}

theorem readItems_comma (h : readTree fuel cs = some (t, ',' :: rest)) (seen : List Tree) :
    readItems (fuel + 1) seen cs = readItems fuel (t :: seen) rest := by
  rw [readItems, h]
  rfl

theorem readItems_close (h : readTree fuel cs = some (t, ']' :: rest)) (seen : List Tree) :
    readItems (fuel + 1) seen cs = some (.arr (t :: seen).reverse, rest) := by
  rw [readItems, h]
  rfl

theorem readsItems_singleton (h : ReadsAs depth cs v) : ReadsItems depth cs [v] := by
  obtain ⟨t, hv, hread⟩ := h
  refine ⟨[t], by simp [itemValues?, hv], fun fuel seen rest hfuel => ?_⟩
  obtain ⟨fuel, rfl⟩ : ∃ n, fuel = n + 1 := ⟨fuel - 1, by omega⟩
  rw [readItems_close (hread fuel _ (by omega) (ends_cons (by simp) rest)), List.reverse_cons]

theorem readsItems_cons (h : ReadsAs depth cs v) (hs : ReadsItems depth ds vs) :
    ReadsItems depth (cs ++ ',' :: ds) (v :: vs) := by
  obtain ⟨t, hv, hread⟩ := h
  obtain ⟨ts, hvs, hreads⟩ := hs
  refine ⟨t :: ts, by simp [itemValues?, hv, hvs], fun fuel seen rest hfuel => ?_⟩
  rw [List.length_append, List.length_cons] at hfuel
  obtain ⟨fuel, rfl⟩ : ∃ n, fuel = n + 1 := ⟨fuel - 1, by omega⟩
  rw [List.append_assoc, List.cons_append,
    readItems_comma (hread fuel _ (by omega) (ends_cons (by simp) _)),
    hreads fuel _ rest (by omega), List.reverse_cons, List.append_assoc, List.singleton_append]

theorem readMembers_comma (h : readTree fuel cs = some (t, ',' :: rest)) (k : String)
    (seen : List (Option String × Tree)) :
    readMembers (fuel + 1) seen ((quote k).toList ++ ':' :: cs) =
      readMembers fuel ((some k, t) :: seen) rest := by
  have hcolon : skip (':' :: cs) = ':' :: cs := skip_cons rfl cs
  have hcomma : skip (',' :: rest) = ',' :: rest := skip_cons rfl rest
  rw [toList_quote, List.cons_append, List.append_assoc, List.singleton_append, readMembers,
    skip_cons rfl]
  simp only [readQuoted_quote, hcolon, h, hcomma]

theorem readMembers_close (h : readTree fuel cs = some (t, '\x7d' :: rest)) (k : String)
    (seen : List (Option String × Tree)) :
    readMembers (fuel + 1) seen ((quote k).toList ++ ':' :: cs) =
      some (.obj ((some k, t) :: seen).reverse, rest) := by
  have hcolon : skip (':' :: cs) = ':' :: cs := skip_cons rfl cs
  have hclose : skip ('\x7d' :: rest) = '\x7d' :: rest := skip_cons rfl rest
  rw [toList_quote, List.cons_append, List.append_assoc, List.singleton_append, readMembers,
    skip_cons rfl]
  simp only [readQuoted_quote, hcolon, h, hclose]

theorem readsMembers_singleton (h : ReadsAs depth cs v) (k : String) :
    ReadsMembers depth ((quote k).toList ++ ':' :: cs) [(k, v)] := by
  obtain ⟨t, hv, hread⟩ := h
  refine ⟨[(some k, t)], by simp [memberValues?, hv], fun fuel seen rest hfuel => ?_⟩
  rw [List.length_append, List.length_cons] at hfuel
  obtain ⟨fuel, rfl⟩ : ∃ n, fuel = n + 1 := ⟨fuel - 1, by omega⟩
  rw [List.append_assoc, List.cons_append,
    readMembers_close (hread fuel _ (by omega) (ends_cons (by simp) rest)), List.reverse_cons]

theorem readsMembers_cons (h : ReadsAs depth cs v) (hs : ReadsMembers depth ds ms) (k : String) :
    ReadsMembers depth ((quote k).toList ++ ':' :: (cs ++ ',' :: ds)) ((k, v) :: ms) := by
  obtain ⟨t, hv, hread⟩ := h
  obtain ⟨ts, hvs, hreads⟩ := hs
  refine ⟨(some k, t) :: ts, by simp [memberValues?, hv, hvs], fun fuel seen rest hfuel => ?_⟩
  rw [List.length_append, List.length_cons, List.length_append, List.length_cons] at hfuel
  obtain ⟨fuel, rfl⟩ : ∃ n, fuel = n + 1 := ⟨fuel - 1, by omega⟩
  rw [List.append_assoc, List.cons_append, List.append_assoc, List.cons_append,
    readMembers_comma (hread fuel _ (by omega) (ends_cons (by simp) _)),
    hreads fuel _ rest (by omega), List.reverse_cons, List.append_assoc, List.singleton_append]

theorem readsAs_arr_nil (hdepth : depth < maxNesting) :
    ReadsAs depth (print (.arr [])).toList (.arr []) :=
  readsAs_scalar (.arr []) (by simp [print]) (by simp [Tree.value?, itemValues?, hdepth])
    fun _ _ _ => by rw [toList_print_arr]; rfl

theorem readsAs_obj_nil (hdepth : depth < maxNesting) :
    ReadsAs depth (print (.obj [])).toList (sorted []) :=
  readsAs_scalar (.obj []) (by simp [print]) (by simp [Tree.value?, memberValues?, hdepth])
    fun _ _ _ => by rw [toList_print_obj]; rfl

/-- An array is read if its items are. -/
theorem readsAs_arr (hdepth : depth < maxNesting) (hv : v.IsLegible (depth + 1)) {items : List Json}
    (h : ReadsItems (depth + 1) (itemsText (v :: items)) vs) :
    ReadsAs depth (print (.arr (v :: items))).toList (.arr vs) := by
  obtain ⟨ts, hvs, hread⟩ := h
  obtain ⟨c, cs, htext, hspace, hne⟩ := itemsText_first hv items
  refine ⟨.arr ts, by simp [Tree.value?, hdepth, hvs], fun fuel rest hfuel _ => ?_⟩
  rw [toList_print_arr, List.length_cons, List.length_append, List.length_singleton] at hfuel
  obtain ⟨fuel, rfl⟩ : ∃ n, fuel = n + 1 := ⟨fuel - 1, by omega⟩
  have hitems := hread fuel [] rest (by omega)
  rw [toList_print_arr, List.cons_append, List.append_assoc, List.singleton_append]
  rw [htext, List.cons_append] at *
  rw [readTree_items hspace hne, hitems, List.reverse_nil, List.nil_append]

/-- An object is read if its members are. -/
theorem readsAs_obj (hdepth : depth < maxNesting) {m : String × Json}
    {members : List (String × Json)}
    (h : ReadsMembers (depth + 1) (membersText (m :: members)) ms) :
    ReadsAs depth (print (.obj (m :: members))).toList (sorted ms) := by
  obtain ⟨ts, hms, hread⟩ := h
  obtain ⟨cs, htext⟩ := membersText_first m members
  refine ⟨.obj ts, by simp [Tree.value?, hdepth, hms], fun fuel rest hfuel _ => ?_⟩
  rw [toList_print_obj, List.length_cons, List.length_append, List.length_singleton] at hfuel
  obtain ⟨fuel, rfl⟩ : ∃ n, fuel = n + 1 := ⟨fuel - 1, by omega⟩
  have hmembers := hread fuel [] rest (by omega)
  rw [toList_print_obj, List.cons_append, List.append_assoc, List.singleton_append]
  rw [htext, List.cons_append] at *
  rw [readTree_members, hmembers, List.reverse_nil, List.nil_append]

mutual
/-- What is written for a legible value is read as the value, in normal form. -/
theorem readsAs_print (depth : Nat) : (v : Json) → v.IsLegible depth →
    ReadsAs depth v.print.toList v.normal
  | .null, _ => readsAs_scalar .null (by simp [print]) rfl fun _ _ _ => rfl
  | .bool true, _ =>
    readsAs_scalar (.bool true) (by simp [print]) rfl fun _ _ _ => rfl
  | .bool false, _ =>
    readsAs_scalar (.bool false) (by simp [print]) rfl fun _ _ _ => rfl
  | .whole _, h => readsAs_whole h.1 h.2
  | .float _, h => h.elim
  | .str s, _ => readsAs_str s
  | .arr [], h => readsAs_arr_nil h.1
  | .arr (v :: vs), h =>
    readsAs_arr h.1 h.2.1 (readsItems_print (depth + 1) (v :: vs) (List.cons_ne_nil _ _) h.2)
  | .obj [], h => readsAs_obj_nil h.1
  | .obj (m :: ms), h =>
    readsAs_obj h.1 (readsMembers_print (depth + 1) (m :: ms) (List.cons_ne_nil _ _) h.2)

theorem readsItems_print (depth : Nat) : (vs : List Json) → vs ≠ [] → ItemsLegible depth vs →
    ReadsItems depth (itemsText vs) (normalItems vs)
  | [], hne, _ => absurd rfl hne
  | [v], _, h => by
    rw [itemsText_singleton]
    exact readsItems_singleton (readsAs_print depth v h.1)
  | v :: w :: vs, _, h => by
    rw [itemsText_cons, normalItems]
    exact readsItems_cons (readsAs_print depth v h.1)
      (readsItems_print depth (w :: vs) (List.cons_ne_nil _ _) h.2)

theorem readsMembers_print (depth : Nat) : (ms : List (String × Json)) → ms ≠ [] →
    MembersLegible depth ms → ReadsMembers depth (membersText ms) (normalMembers ms)
  | [], hne, _ => absurd rfl hne
  | [(k, v)], _, h => by
    rw [membersText_singleton]
    exact readsMembers_singleton (readsAs_print depth v h.1) k
  | (k, v) :: m :: ms, _, h => by
    rw [membersText_cons, normalMembers]
    exact readsMembers_cons (readsAs_print depth v h.1)
      (readsMembers_print depth (m :: ms) (List.cons_ne_nil _ _) h.2) k
end

/-- A legible value can be told from its text, up to the order of the members of its objects. -/
theorem parse_print {v : Json} (h : v.IsLegible 0) : parse v.print = some v.normal := by
  obtain ⟨t, hv, hread⟩ := readsAs_print 0 v h
  have htree := hread (v.print.toList.length + 1) [] (Nat.le_succ _) nofun
  rw [List.append_nil] at htree
  rw [parse, readText, htree]
  exact hv

end Lispbox.Json
