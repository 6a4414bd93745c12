import Lispbox.Proofs.Text.Numerals
import Lispbox.Proofs.Value.Quoting

/-!
# Quoted texts tell values apart

The quoted text of a value of nil, booleans, integers and texts, or of a list of such values to any
depth (`Value.IsData`), is the text of no other one, even if further text follows
(`Value.IsTold`): its first character tells the kind, a text ends at the first quote that is not
escaped, an integer where no digit follows, and a list where no comma follows an item.

Functions, modules and the like are not told by their texts, which show only a name.

* `Quoted.append_inj`: a text in quotes ends at one place, and has one content.
* `repr_first`: the first character.
* `IsData.isTold`: the induction over values.
* `repr_unambiguous`: two values with one quoted text are the same.
-/
namespace Lispbox
open Text (NoDigit)

/-! ## Texts in quotes -/

/-- By induction on what is between the quotes: a quote that ends one of the texts is plain, and
escapes are told by their character. -/
theorem Quoted.append_inj {body body' content content' r s : List Char} (h : Quoted body content)
    (h' : Quoted body' content') (heq : body ++ '"' :: r = body' ++ '"' :: s) :
    content = content' ∧ r = s := by
  induction h generalizing body' content' with
  | nil =>
    cases h' with
    | nil => exact ⟨rfl, (List.cons.inj heq).2⟩
    | plain hquote => exact absurd (List.cons.inj heq).1.symm hquote
    | escaped => cases heq
  | plain hquote hescape _ ih =>
    cases h' with
    | nil => exact absurd (List.cons.inj heq).1 hquote
    | plain _ _ h' =>
      obtain ⟨rfl, htail⟩ := List.cons.inj heq
      obtain ⟨rfl, rfl⟩ := ih h' htail
      exact ⟨rfl, rfl⟩
    | escaped => exact absurd (List.cons.inj heq).1 hescape
  | escaped hc _ ih =>
    cases h' with
    | nil => cases heq
    | plain _ hescape => exact absurd (List.cons.inj heq).1.symm hescape
    | escaped hd h' =>
      obtain ⟨rfl, htail⟩ := List.cons.inj (List.cons.inj heq).2
      rw [← unescape?_eq_some_iff] at hc hd
      obtain rfl := Option.some.inj (hc.symm.trans hd)
      obtain ⟨rfl, rfl⟩ := ih h' htail
      exact ⟨rfl, rfl⟩

theorem quoteText_append_inj {s t : String} {cs ds : List Char}
    (h : (quoteText s).toList ++ cs = (quoteText t).toList ++ ds) : s = t ∧ cs = ds := by
  simp only [toList_quoteText, List.cons_append, List.append_assoc, List.nil_append,
    List.cons.injEq, true_and] at h
  obtain ⟨hcontent, hrest⟩ := (Quoted.quote s.toList).append_inj (Quoted.quote t.toList) h
  exact ⟨String.toList_inj.mp hcontent, hrest⟩

/-! ## Values -/

/-- The kind of data whose quoted text begins with the character. -/
def Kind.ofFirst (c : Char) : Kind :=
  if c = 'n' then .nil
  else if c = 't' ∨ c = 'f' then .bool
  else if c = '"' then .text
  else if c = '[' then .list
  else .integer

theorem Kind.ofFirst_number {c : Char} (h : c = '-' ∨ c.isDigit = true) :
    Kind.ofFirst c = .integer := by
  have hne : ∀ d : Char, d ≠ '-' → d.isDigit = false → c ≠ d := by
    rintro d hminus hdigit rfl
    rcases h with rfl | h
    · exact hminus rfl
    · exact absurd (hdigit.symm.trans h) (by decide)
  unfold ofFirst
  rw [if_neg (hne 'n' (by decide) rfl), if_neg (not_or.mpr ⟨hne 't' (by decide) rfl,
    hne 'f' (by decide) rfl⟩), if_neg (hne '"' (by decide) rfl), if_neg (hne '[' (by decide) rfl)]

namespace Value

/-- A value of nil, booleans, integers and texts, or a list of such values, to any depth. -/
inductive IsData : Value → Prop where
  | nil : IsData .nil
  | bool (b : Bool) : IsData (.bool b)
  | integer (n : Int64) : IsData (.integer n)
  | text (s : String) : IsData (.text s)
  | list {items : List Value} : (∀ v ∈ items, IsData v) → IsData (.list items)

/-- The texts of further items of a list. -/
def restText (items : List Value) : List Char :=
  items.flatMap fun v => ',' :: ' ' :: v.repr.toList

theorem toList_intercalate_repr (v : Value) (vs : List Value) :
    (", ".intercalate (reprItems (v :: vs))).toList = v.repr.toList ++ restText vs := by
  induction vs generalizing v with
  | nil => simp [reprItems, restText]
  | cons w vs ih =>
    rw [reprItems, String.intercalate_cons_of_ne_nil (by simp [reprItems]), String.toList_append,
      String.toList_append, ih, List.append_assoc]
    rfl

theorem toList_repr_list (v : Value) (vs : List Value) :
    (Value.list (v :: vs)).repr.toList = '[' :: (v.repr.toList ++ (restText vs ++ [']'])) := by
  rw [repr, String.toList_append, String.toList_append, toList_intercalate_repr, List.append_assoc,
    List.append_assoc]
  rfl

/-- The first character tells the kind; no value begins like the end of a list. -/
theorem repr_first {v : Value} (h : v.IsData) :
    ∃ c cs, v.repr.toList = c :: cs ∧ Kind.ofFirst c = v.kind ∧ c ≠ ']' := by
  cases h with
  | nil => exact ⟨'n', "il".toList, rfl, rfl, by decide⟩
  | bool b =>
    cases b with
    | true => exact ⟨'t', "rue".toList, rfl, rfl, by decide⟩
    | false => exact ⟨'f', "alse".toList, rfl, rfl, by decide⟩
  | integer n =>
    obtain ⟨c, cs, htext, hc⟩ := Text.toString_int_first n.toInt
    refine ⟨c, cs, by rw [repr, htext], Kind.ofFirst_number hc, ?_⟩
    rintro rfl
    exact absurd hc (by decide)
  | text s => exact ⟨'"', _, by rw [repr, toList_quoteText], rfl, by decide⟩
  | @list items =>
    cases items with
    | nil => exact ⟨'[', [']'], rfl, rfl, by decide⟩
    | cons v vs => exact ⟨'[', _, toList_repr_list v vs, rfl, by decide⟩

theorem kind_eq_of_repr {v w : Value} (hv : v.IsData) (hw : w.IsData) {r s : List Char}
    (h : v.repr.toList ++ r = w.repr.toList ++ s) : v.kind = w.kind := by
  obtain ⟨c, cs, hc, hkind, -⟩ := repr_first hv
  obtain ⟨d, ds, hd, hkind', -⟩ := repr_first hw
  rw [hc, hd] at h
  rw [← hkind, ← hkind', (List.cons.inj h).1]

/-- Nothing follows but the rest of a list. -/
def AtItemEnd (cs : List Char) : Prop := ∀ c ∈ cs.head?, c = ',' ∨ c = ']'

theorem AtItemEnd.noDigit {cs : List Char} (h : AtItemEnd cs) : NoDigit cs := by
  intro c hc
  rcases h c hc with rfl | rfl <;> rfl

/-- The value and what follows it can be told from the text of both. -/
def IsTold (v : Value) : Prop :=
  ∀ {w : Value} {r s : List Char}, w.IsData → AtItemEnd r → AtItemEnd s →
    v.repr.toList ++ r = w.repr.toList ++ s → v = w ∧ r = s

theorem atItemEnd_rest (vs : List Value) (r : List Char) :
    AtItemEnd (restText vs ++ ']' :: r) := by
  cases vs with
  | nil =>
    rintro _ ⟨⟩
    exact .inr rfl
  | cons v vs =>
    rintro _ ⟨⟩
    exact .inl rfl

/-- The items of a list end where no comma follows. -/
theorem restText_append_inj {vs ws : List Value} (hvs : ∀ v ∈ vs, IsTold v)
    (hws : ∀ w ∈ ws, w.IsData) {r s : List Char}
    (h : restText vs ++ ']' :: r = restText ws ++ ']' :: s) : vs = ws ∧ r = s := by
  induction vs generalizing ws with
  | nil =>
    cases ws with
    | nil => exact ⟨rfl, (List.cons.inj h).2⟩
    | cons w ws => cases (List.cons.inj h).1
  | cons v vs ih =>
    cases ws with
    | nil => cases (List.cons.inj h).1
    | cons w ws =>
      simp only [restText, List.flatMap_cons, List.cons_append, List.append_assoc, List.cons.injEq,
        true_and] at h
      obtain ⟨hv, hvs⟩ := List.forall_mem_cons.mp hvs
      obtain ⟨hw, hitems⟩ := List.forall_mem_cons.mp hws
      obtain ⟨rfl, hrest⟩ := hv hw (atItemEnd_rest vs r) (atItemEnd_rest ws s) h
      obtain ⟨rfl, rfl⟩ := ih hvs hitems hrest
      exact ⟨rfl, rfl⟩

/-- The text of an empty list begins no other list, since no item begins with the end of one. -/
theorem repr_empty_ne_cons {v : Value} (hv : v.IsData) (vs : List Value) (r s : List Char) :
    (Value.list []).repr.toList ++ r ≠ (Value.list (v :: vs)).repr.toList ++ s := by
  obtain ⟨c, cs, hc, -, hne⟩ := repr_first hv
  rw [toList_repr_list, hc]
  exact fun h => hne (List.cons.inj (List.cons.inj h).2).1.symm

/-- A list that is empty has a text of its own, and other lists are told by their items. -/
theorem isTold_list {vs : List Value} (hdata : ∀ v ∈ vs, v.IsData) (hvs : ∀ v ∈ vs, IsTold v) :
    IsTold (.list vs) := by
  intro w r s hw hr hs h
  have hkind := kind_eq_of_repr (.list hdata) hw h
  cases hw with
  | @list ws hws =>
    cases vs with
    | nil =>
      cases ws with
      | nil => exact ⟨rfl, List.append_cancel_left h⟩
      | cons w ws => exact absurd h (repr_empty_ne_cons (hws w List.mem_cons_self) ws r s)
    | cons v vs =>
      cases ws with
      | nil => exact absurd h.symm (repr_empty_ne_cons (hdata v List.mem_cons_self) vs s r)
      | cons w ws =>
        obtain ⟨hv, hvs⟩ := List.forall_mem_cons.mp hvs
        obtain ⟨hw, hitems⟩ := List.forall_mem_cons.mp hws
        simp only [toList_repr_list, List.cons_append, List.append_assoc, List.nil_append,
          List.cons.injEq, true_and] at h
        obtain ⟨rfl, hrest⟩ := hv hw (atItemEnd_rest vs r) (atItemEnd_rest ws s) h
        obtain ⟨rfl, rfl⟩ := restText_append_inj hvs hitems hrest
        exact ⟨rfl, rfl⟩
  | _ => cases hkind

theorem IsData.isTold {v : Value} (hv : v.IsData) : IsTold v := by
  induction hv with
  | list hdata ih => exact isTold_list hdata ih
  | nil =>
    intro w r s hw hr hs h
    have hkind := kind_eq_of_repr .nil hw h
    cases hw with
    | nil => exact ⟨rfl, List.append_cancel_left h⟩
    | _ => cases hkind
  | bool b =>
    intro w r s hw hr hs h
    have hkind := kind_eq_of_repr (.bool b) hw h
    cases hw with
    | bool b' =>
      cases b <;> cases b'
      · exact ⟨rfl, List.append_cancel_left h⟩
      · cases (List.cons.inj h).1
      · cases (List.cons.inj h).1
      · exact ⟨rfl, List.append_cancel_left h⟩
    | _ => cases hkind
  | integer n =>
    intro w r s hw hr hs h
    have hkind := kind_eq_of_repr (.integer n) hw h
    cases hw with
    | integer n' =>
      rw [repr, repr] at h
      obtain ⟨hn, hrest⟩ := Text.toString_int_append_inj hr.noDigit hs.noDigit h
      exact ⟨by rw [Int64.toInt_inj.mp hn], hrest⟩
    | _ => cases hkind
  | text t =>
    intro w r s hw hr hs h
    have hkind := kind_eq_of_repr (.text t) hw h
    cases hw with
    | text t' =>
      rw [repr, repr] at h
      obtain ⟨ht, hrest⟩ := quoteText_append_inj h
      exact ⟨by rw [ht], hrest⟩
    | _ => cases hkind

/-! ## Equality of scripts -/

theorem sameItems_iff {vs ws : List Value}
    (hvs : ∀ v ∈ vs, ∀ w : Value, w.IsData → (v.same w = true ↔ v = w))
    (hws : ∀ w ∈ ws, w.IsData) : sameItems vs ws = true ↔ vs = ws := by
  induction vs generalizing ws with
  | nil => cases ws <;> simp [sameItems]
  | cons v vs ih =>
    cases ws with
    | nil => simp [sameItems]
    | cons w ws =>
      obtain ⟨hv, hvs⟩ := List.forall_mem_cons.mp hvs
      obtain ⟨hw, hws⟩ := List.forall_mem_cons.mp hws
      rw [sameItems, Bool.and_eq_true, hv w hw, ih hvs hws, List.cons.injEq]

/-- Data are equal for a script only if they are the same value. -/
theorem IsData.same_iff {v : Value} (hv : v.IsData) (w : Value) (hw : w.IsData) :
    v.same w = true ↔ v = w := by
  induction hv generalizing w with
  | list _ ih =>
    cases hw with
    | list hws => rw [same, list.injEq, sameItems_iff ih hws]
    | _ => simp [same]
  | _ => cases hw <;> simp [same]

end Value

open Value

/-- Two values that are made of nil, booleans, integers and texts have one quoted text only if they
are one value, which is to say if they are equal for a script. -/
theorem repr_unambiguous {v w : Value} (hv : v.IsData) (hw : w.IsData) :
    (v.repr = w.repr ↔ v = w) ∧ (v.repr = w.repr ↔ v.same w = true) := by
  have hnil : AtItemEnd [] := fun _ h => by cases h
  have hrepr : v.repr = w.repr ↔ v = w :=
    ⟨fun h => (hv.isTold hw hnil hnil (congrArg (·.toList ++ []) h)).1, fun h => h ▸ rfl⟩
  exact ⟨hrepr, hrepr.trans (hv.same_iff w hw).symm⟩

/-- A text that looks like the end of an item and the start of another one. -/
theorem repr_unambiguous_nested :
    (Value.list [.text "a", .list [.text "b"]]).IsData ∧ (Value.list [.text "a\", [\"b"]).IsData ∧
      (Value.list [.text "a", .list [.text "b"]]).repr ≠
        (Value.list [.text "a\", [\"b"]).repr := by
  have hv : (Value.list [.text "a", .list [.text "b"]]).IsData := by
    refine .list fun v hv => ?_
    rcases List.mem_cons.mp hv with rfl | hv
    · exact .text _
    · exact List.mem_singleton.mp hv ▸ .list fun v hv => List.mem_singleton.mp hv ▸ .text _
  have hw : (Value.list [.text "a\", [\"b"]).IsData :=
    .list fun v hv => List.mem_singleton.mp hv ▸ .text _
  exact ⟨hv, hw, fun h => by simpa using (repr_unambiguous hv hw).1.mp h⟩

end Lispbox
