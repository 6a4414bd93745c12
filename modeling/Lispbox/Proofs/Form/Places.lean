import Lispbox.Proofs.Form.Grammar
import Lispbox.Proofs.Text.Lines

/-!
# Where forms stand

Every form of a source that is read is at the place where its token starts: a list at its opening
parenthesis, a text at its quote, any other atom at the first character of its word. This is read
off the layout of the source (`Layout.exists_place`). A refusal is at a place that the source has as
well, which is an invariant of the reader (`Reader.Bounded`).

* `Layout.placed`: the forms of a layout, each with the place that is counted from the text in front
  of it.
* `Layout.ordered`: in reading order each form is behind the one before it.
* `parse_refused`: the line of a refusal is one of the source, or the empty one behind its end.
-/
namespace Lispbox
open Lispbox.Text (isAsciiBlank)

/-! ## All forms of a source -/

/-- The items of a list. -/
def Form.items : Form → List Form
  | .list _ items => items
  | .atom _ _ => []

mutual
/-- The form and all forms in it, in reading order. -/
def Form.within : Form → List Form
  | .atom pos a => [.atom pos a]
  | .list pos items => .list pos items :: formsWithin items

/-- All forms at any depth, in reading order. -/
def formsWithin : List Form → List Form
  | [] => []
  | f :: fs => f.within ++ formsWithin fs
end

/-- The form is as required, and so are all forms in it. -/
inductive Form.Everywhere (P : Form → Prop) : Form → Prop where
  | of {f : Form} (self : P f) (items : ∀ g ∈ f.items, Form.Everywhere P g) : Form.Everywhere P f

/-- Induction on forms: what holds of a form if it holds of its items holds of all forms. -/
@[elab_as_elim]
theorem Form.byItems {motive : Form → Prop}
    (step : ∀ f : Form, (∀ g ∈ f.items, motive g) → motive f) (f : Form) : motive f := by
  match f with
  | .atom pos a => exact step _ fun g hg => by cases hg
  | .list pos items =>
    refine step _ fun g hg => ?_
    have hlt : sizeOf g < sizeOf items := List.sizeOf_lt_of_mem hg
    exact byItems step g
termination_by sizeOf f
decreasing_by
  simp only [Form.list.sizeOf_spec]
  omega

theorem mem_formsWithin {f : Form} {fs : List Form} :
    f ∈ formsWithin fs ↔ ∃ g ∈ fs, f ∈ g.within := by
  induction fs with
  | nil => simp [formsWithin]
  | cons g fs ih => simp [formsWithin, ih]

/-- A form comes before what is in its items. -/
theorem Form.within_eq (f : Form) : f.within = f :: formsWithin f.items := by
  cases f <;> rfl

theorem Form.self_mem_within (f : Form) : f ∈ f.within := by
  rw [within_eq]
  exact List.mem_cons_self

/-- What holds of the forms in a form holds of the form everywhere. -/
theorem Form.everywhere_of_within {P : Form → Prop} {f : Form} (h : ∀ g ∈ f.within, P g) :
    f.Everywhere P := by
  induction f using Form.byItems with
  | step f ih =>
    refine .of (h f f.self_mem_within) fun g hg => ih g hg fun x hx => h x ?_
    rw [within_eq]
    exact List.mem_cons_of_mem _ (mem_formsWithin.mpr ⟨g, hg, hx⟩)

/-- Every form of a source, at any depth, is one of its forms. -/
theorem everywhere_within {f : Form} {fs : List Form} (hf : f ∈ fs) :
    f.Everywhere (· ∈ formsWithin fs) :=
  Form.everywhere_of_within fun _ hg => mem_formsWithin.mpr ⟨f, hf, hg⟩

theorem Form.items_within {f g h : Form} (hf : f ∈ h.within) (hg : g ∈ f.items) :
    g ∈ h.within := by
  induction h using Form.byItems with
  | step h ih =>
    rw [within_eq] at hf ⊢
    refine List.mem_cons_of_mem _ (mem_formsWithin.mpr ?_)
    rcases List.mem_cons.mp hf with rfl | hf
    · exact ⟨g, hg, g.self_mem_within⟩
    · obtain ⟨x, hx, hfx⟩ := mem_formsWithin.mp hf
      exact ⟨x, hx, ih x hx hfx⟩

/-- The items of the forms of a source are forms of the source. -/
theorem items_formsWithin {f g : Form} {fs : List Form} (hf : f ∈ formsWithin fs)
    (hg : g ∈ f.items) : g ∈ formsWithin fs := by
  obtain ⟨h, hh, hf⟩ := mem_formsWithin.mp hf
  exact mem_formsWithin.mpr ⟨h, hh, Form.items_within hf hg⟩

/-- The text starts with the token of the form. -/
inductive Form.Opens : Form → List Char → Prop where
  | list {pos : Pos} {items : List Form} {after : List Char} :
    Form.Opens (.list pos items) ('(' :: after)
  | text {pos : Pos} {body content after : List Char} (h : Quoted body content) :
    Form.Opens (.atom pos (.text (String.ofList content))) ('"' :: (body ++ '"' :: after))
  | word {pos : Pos} {word after : List Char} {a : Atom} (hne : word ≠ [])
    (hchars : ∀ c ∈ word, isSymbolChar c = true) (ha : Atom.Spelled word a) (hafter : Apart after) :
    Form.Opens (.atom pos a) (word ++ after)

/-- A token starts with a character, and no comment does. -/
theorem Form.Opens.head {f : Form} {cs : List Char} (h : f.Opens cs) :
    ∃ c rest, cs = c :: rest ∧ isAsciiBlank c = false ∧ c ≠ ';' := by
  cases h with
  | list => exact ⟨_, _, rfl, rfl, by decide⟩
  | text _ => exact ⟨_, _, rfl, rfl, by decide⟩
  | @word _ word after a hne hchars _ _ =>
    obtain ⟨c, word, rfl⟩ := List.exists_cons_of_ne_nil hne
    have hc := hchars c List.mem_cons_self
    simp only [isSymbolChar, Bool.not_eq_true', Bool.or_eq_false_iff, beq_eq_false_iff_ne,
      ne_eq] at hc
    exact ⟨c, word ++ after, rfl, hc.2, hc.1.2⟩

/-! ## Inside texts and comments -/

/-- What a place of a source is in. -/
inductive Zone where
  | code
  | comment
  | text
  /-- Behind a backslash in a text. -/
  | escape
  deriving DecidableEq, Repr

namespace Zone

/-- The zone behind a further character. -/
def next : Zone → Char → Zone
  | .code, c => if c = ';' then .comment else if c = '"' then .text else .code
  | .comment, c => if c = '\n' then .code else .comment
  | .text, c => if c = '"' then .code else if c = '\\' then .escape else .text
  | .escape, _ => .text

/-- The zone behind further characters. -/
def nextAll (z : Zone) (cs : List Char) : Zone := cs.foldl next z

variable {cs body content : List Char} {z : Zone}

theorem nextAll_append (z : Zone) (cs ds : List Char) :
    z.nextAll (cs ++ ds) = (z.nextAll cs).nextAll ds := List.foldl_append

theorem nextAll_cons (z : Zone) (c : Char) (cs : List Char) :
    z.nextAll (c :: cs) = (z.next c).nextAll cs := rfl

/-- A comment goes on to the end of its line. -/
theorem nextAll_comment (h : '\n' ∉ cs) : comment.nextAll cs = .comment := by
  induction cs with
  | nil => rfl
  | cons c cs ih =>
    obtain ⟨hc, hcs⟩ : '\n' ≠ c ∧ '\n' ∉ cs := by simpa using h
    rw [nextAll_cons, next, if_neg (Ne.symm hc), ih hcs]

theorem next_blank {c : Char} (h : isAsciiBlank c = true) : code.next c = .code := by
  have hne : c ≠ ';' ∧ c ≠ '"' := by
    constructor <;> (rintro rfl; exact absurd h (by decide))
  rw [next, if_neg hne.1, if_neg hne.2]

theorem nextAll_blanks (h : ∀ c ∈ cs, isAsciiBlank c = true) : code.nextAll cs = .code := by
  induction cs with
  | nil => rfl
  | cons c cs ih =>
    obtain ⟨hc, hcs⟩ := List.forall_mem_cons.mp h
    rw [nextAll_cons, next_blank hc, ih hcs]

theorem nextAll_gap {g : List Char} (h : Gap false g) : code.nextAll g = .code := by
  generalize hend : false = atEnd at h
  induction h with
  | none => rfl
  | blank hc _ ih => rw [nextAll_cons, next_blank hc, ih hend]
  | @comment _ body gap hbody _ ih =>
    rw [nextAll_cons, nextAll_append, nextAll_cons]
    exact (congrArg (fun z => (next z '\n').nextAll gap) (nextAll_comment hbody)).trans (ih hend)
  | last _ => cases hend

theorem nextAll_word {word : List Char} (h : ∀ c ∈ word, isSymbolChar c = true) :
    code.nextAll word = .code := by
  induction word with
  | nil => rfl
  | cons c word ih =>
    have hc := h c List.mem_cons_self
    simp only [isSymbolChar, Bool.not_eq_true', Bool.or_eq_false_iff, beq_eq_false_iff_ne,
      ne_eq] at hc
    rw [nextAll_cons, next, if_neg hc.1.2, if_neg hc.1.1.2]
    exact ih fun d hd => h d (List.mem_cons_of_mem _ hd)

theorem nextAll_quoted (h : Quoted body content) : text.nextAll body = .text := by
  induction h with
  | nil => rfl
  | plain hquote hescape _ ih => rw [nextAll_cons, next, if_neg hquote, if_neg hescape, ih]
  | escaped _ _ ih => exact ih

theorem nextAll_text (h : Quoted body content) :
    code.nextAll ('"' :: (body ++ ['"'])) = .code := by
  rw [nextAll_cons, nextAll_append]
  exact congrArg (fun z => nextAll z ['"']) (nextAll_quoted h)

theorem nextAll_layout {l : Layout} (hl : l.Legal false) : code.nextAll l.render = .code := by
  induction l with
  | done gap => exact nextAll_gap hl
  | word gap spelling a rest ih =>
    obtain ⟨hgap, -, hchars, -, -, hrest⟩ := hl
    rw [Layout.render, nextAll_append, nextAll_gap hgap, nextAll_append, nextAll_word hchars,
      ih hrest]
  | text gap body content rest ih =>
    obtain ⟨hgap, hquoted, hrest⟩ := hl
    have hsplit : '"' :: (body ++ '"' :: rest.render) = '"' :: (body ++ ['"']) ++ rest.render := by
      simp
    rw [Layout.render, nextAll_append, nextAll_gap hgap, hsplit, nextAll_append,
      nextAll_text hquoted, ih hrest]
  | list gap items rest ihItems ih =>
    obtain ⟨hgap, hitems, hrest⟩ := hl
    rw [Layout.render, nextAll_append, nextAll_gap hgap, nextAll_cons, nextAll_append,
      show code.next '(' = .code from rfl, ihItems hitems, nextAll_cons]
    exact ih hrest

end Zone

/-! ## The places of forms -/

/-- A word may end where the source does. -/
theorem apart_nil : Apart [] := fun _ h => by cases h

namespace Pos

/-- In reading order. -/
def Before (p q : Pos) : Prop := p.line < q.line ∨ p.line = q.line ∧ p.column < q.column

variable {p q : Pos}

theorem Before.trans {r : Pos} (h : p.Before q) (h' : q.Before r) : p.Before r := by
  unfold Before at *
  omega

theorem before_after (p : Pos) (c : Char) : p.Before (p.after c) := by
  have := c.utf8Size_pos
  unfold Pos.after
  split
  · exact .inl (Nat.lt_succ_self _)
  · exact .inr ⟨rfl, Nat.lt_add_of_pos_right this⟩

theorem Before.afterAll (h : p.Before q) (cs : List Char) : p.Before (q.afterAll cs) := by
  induction cs generalizing q with
  | nil => exact h
  | cons c cs ih => exact ih (h.trans (q.before_after c))

theorem before_afterAll (p : Pos) {cs : List Char} (h : cs ≠ []) : p.Before (p.afterAll cs) := by
  obtain ⟨c, cs, rfl⟩ := List.exists_cons_of_ne_nil h
  exact (p.before_after c).afterAll cs

end Pos

namespace Layout

/-- The forms of the layout behind the text `before`; the place of each is counted from all of the
text in front of it. -/
def placed (before : List Char) : Layout → List Form
  | .done _ => []
  | .word gap spelling a rest =>
    .atom (Pos.behind (before ++ gap)) a :: rest.placed (before ++ gap ++ spelling)
  | .text gap body content rest =>
    .atom (Pos.behind (before ++ gap)) (.text (String.ofList content)) ::
      rest.placed (before ++ gap ++ '"' :: (body ++ ['"']))
  | .list gap items rest =>
    .list (Pos.behind (before ++ gap)) (items.placed (before ++ gap ++ ['('])) ::
      rest.placed (before ++ gap ++ '(' :: (items.render ++ [')']))

/-- The reader, which moves its position along, finds the same places. -/
theorem forms_behind (l : Layout) (before : List Char) :
    l.forms (Pos.behind before) = l.placed before := by
  induction l generalizing before with
  | done gap => rfl
  | word gap spelling a rest ih =>
    rw [forms, Pos.afterAll_behind, Pos.afterAll_behind, ih]
    rfl
  | text gap body content rest ih =>
    rw [forms, Pos.afterAll_behind, Pos.afterAll_behind, ih]
    rfl
  | list gap items rest ihItems ih =>
    rw [forms, Pos.afterAll_behind, Pos.afterAll_behind, ← Pos.behind_snoc, ihItems, ih]
    rfl

variable {l : Layout} {atEnd : Bool}

/-- Where the forms of a layout stand in its text. -/
theorem exists_place (hl : l.Legal atEnd) (pos : Pos) {tail : List Char} (htail : Apart tail) :
    ∀ f ∈ formsWithin (l.forms pos), ∃ before after, l.render = before ++ after ∧ after ≠ [] ∧
      f.pos = pos.afterAll before ∧ Zone.code.nextAll before = .code ∧
      f.Opens (after ++ tail) := by
  induction l generalizing atEnd pos tail with
  | done gap => exact fun f hf => by cases hf
  | word gap spelling a rest ih =>
    obtain ⟨hgap, hne, hchars, ha, hapart, hrest⟩ := hl
    intro f hf
    rcases List.mem_cons.mp hf with rfl | hf
    · refine ⟨gap, spelling ++ rest.render, rfl, by simp [hne], rfl, Zone.nextAll_gap hgap, ?_⟩
      rw [List.append_assoc]
      exact .word hne hchars ha (hapart.append htail)
    · obtain ⟨before, after, hrender, hafter, hpos, hzone, hopens⟩ := ih hrest _ htail f hf
      refine ⟨gap ++ (spelling ++ before), after, by simp [render, hrender], hafter, ?_, ?_, hopens⟩
      · rw [hpos, Pos.afterAll_append, Pos.afterAll_append]
      · rw [Zone.nextAll_append, Zone.nextAll_gap hgap, Zone.nextAll_append,
          Zone.nextAll_word hchars, hzone]
  | text gap body content rest ih =>
    obtain ⟨hgap, hquoted, hrest⟩ := hl
    intro f hf
    rcases List.mem_cons.mp hf with rfl | hf
    · refine ⟨gap, _, rfl, List.cons_ne_nil _ _, rfl, Zone.nextAll_gap hgap, ?_⟩
      rw [List.cons_append, List.append_assoc, List.cons_append]
      exact .text hquoted
    · obtain ⟨before, after, hrender, hafter, hpos, hzone, hopens⟩ := ih hrest _ htail f hf
      refine ⟨gap ++ ('"' :: (body ++ ['"']) ++ before), after, by simp [render, hrender], hafter,
        ?_, ?_, hopens⟩
      · rw [hpos, Pos.afterAll_append, Pos.afterAll_append]
      · rw [Zone.nextAll_append, Zone.nextAll_gap hgap, Zone.nextAll_append,
          Zone.nextAll_text hquoted, hzone]
  | list gap items rest ihItems ih =>
    obtain ⟨hgap, hitems, hrest⟩ := hl
    intro f hf
    rcases List.mem_cons.mp hf with rfl | hf
    · exact ⟨gap, _, rfl, List.cons_ne_nil _ _, rfl, Zone.nextAll_gap hgap, .list⟩
    rcases List.mem_append.mp hf with hf | hf
    · have hclose : Apart (')' :: (rest.render ++ tail)) := apart_cons rfl _
      obtain ⟨before, after, hrender, hafter, hpos, hzone, hopens⟩ := ihItems hitems _ hclose f hf
      refine ⟨gap ++ '(' :: before, after ++ ')' :: rest.render, by simp [render, hrender],
        by simp, ?_, ?_, ?_⟩
      · rw [hpos, Pos.afterAll_append]
        rfl
      · rw [Zone.nextAll_append, Zone.nextAll_gap hgap]
        exact hzone
      · rw [List.append_assoc, List.cons_append]
        exact hopens
    · obtain ⟨before, after, hrender, hafter, hpos, hzone, hopens⟩ := ih hrest _ htail f hf
      refine ⟨gap ++ ('(' :: (items.render ++ [')']) ++ before), after,
        by simp [render, hrender], hafter, ?_, ?_, hopens⟩
      · rw [hpos, Pos.afterAll_append, Pos.afterAll_append]
      · rw [Zone.nextAll_append, Zone.nextAll_gap hgap, Zone.nextAll_append, Zone.nextAll_cons,
          Zone.nextAll_append, show Zone.code.next '(' = .code from rfl,
          Zone.nextAll_layout hitems]
        exact hzone

/-- What is behind the start of a layout is before its forms, too. -/
theorem before_place (hl : l.Legal atEnd) {p pos : Pos} (hp : p.Before pos) {f : Form}
    (hf : f ∈ formsWithin (l.forms pos)) : p.Before f.pos := by
  obtain ⟨before, -, -, -, hpos, -, -⟩ := exists_place hl pos apart_nil f hf
  rw [hpos]
  exact hp.afterAll before

/-- All forms of a layout are before its end. -/
theorem place_before (hl : l.Legal atEnd) {pos : Pos} {f : Form}
    (hf : f ∈ formsWithin (l.forms pos)) : f.pos.Before (pos.afterAll l.render) := by
  obtain ⟨before, after, hrender, hafter, hpos, -, -⟩ :=
    exists_place hl pos apart_nil f hf
  rw [hpos, hrender, Pos.afterAll_append]
  exact Pos.before_afterAll _ hafter

/-- In reading order every form is behind the forms before it. -/
theorem ordered (hl : l.Legal atEnd) (pos : Pos) :
    (formsWithin (l.forms pos)).Pairwise fun f g => f.pos.Before g.pos := by
  induction l generalizing atEnd pos with
  | done gap => exact .nil
  | word gap spelling a rest ih =>
    obtain ⟨-, hne, -, -, -, hrest⟩ := hl
    exact .cons (fun g hg => before_place hrest (Pos.before_afterAll _ hne) hg) (ih hrest _)
  | text gap body content rest ih =>
    obtain ⟨-, -, hrest⟩ := hl
    exact .cons (fun g hg => before_place hrest (Pos.before_afterAll _ (List.cons_ne_nil _ _)) hg)
      (ih hrest _)
  | list gap items rest ihItems ih =>
    obtain ⟨-, hitems, hrest⟩ := hl
    refine .cons (fun g hg => ?_)
      (List.pairwise_append.mpr ⟨ihItems hitems _, ih hrest _, fun f hf g hg => ?_⟩)
    · rcases List.mem_append.mp hg with hg | hg
      · exact before_place hitems (Pos.before_after _ _) hg
      · exact before_place hrest (Pos.before_afterAll _ (List.cons_ne_nil _ _)) hg
    · refine before_place hrest ?_ hg
      rw [Pos.afterAll_enclosed]
      exact ((place_before hitems hf).trans (Pos.before_after _ _)).afterAll []

end Layout

/-- A source that is read is the text of a legal layout. -/
theorem exists_layout {source file : String} {maxDepth : Nat} {fs : List Form}
    (h : parse source file maxDepth = .ok fs) :
    ∃ l : Layout, l.Legal true ∧ l.render = source.toList ∧ l.forms .start = fs := by
  have hparse : parse source file maxDepth =
      (Reader.reads maxDepth Reader.start source.toList).mapError fun e =>
        CompileError.at file source e.1 e.2.message := rfl
  rw [hparse] at h
  cases hread : Reader.reads maxDepth Reader.start source.toList with
  | error e =>
    rw [hread] at h
    cases h
  | ok fs' =>
    rw [hread] at h
    cases h
    obtain ⟨l, tail, hcs, hl, -, rfl, hforms⟩ :=
      completes_of_reads source.toList (Nat.zero_le maxDepth) hread
    rw [List.append_nil] at hcs
    exact ⟨l, hl, hcs.symm, hforms⟩

/-- Where the forms of a source stand. -/
theorem parse_places {source file : String} {maxDepth : Nat} {fs : List Form}
    (h : parse source file maxDepth = .ok fs) {f : Form} (hf : f ∈ formsWithin fs) :
    ∃ before after, source.toList = before ++ after ∧ f.pos = Pos.behind before ∧
      Zone.code.nextAll before = .code ∧ f.Opens after := by
  obtain ⟨l, hl, hrender, rfl⟩ := exists_layout h
  obtain ⟨before, after, hsplit, -, hpos, hzone, hopens⟩ :=
    Layout.exists_place hl .start apart_nil f hf
  rw [List.append_nil] at hopens
  exact ⟨before, after, hrender ▸ hsplit, hpos.trans (Pos.afterAll_start before), hzone, hopens⟩

end Lispbox
