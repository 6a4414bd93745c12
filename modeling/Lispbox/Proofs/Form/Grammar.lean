import Lispbox.Proofs.Form.Scanning
import Lispbox.Proofs.Form.Word

/-!
# The grammar of forms

A `Layout` is a forest together with everything that its text leaves open: the blanks and comments
around its forms and the spelling of its atoms. It has a text (`Layout.render`), forms at the places
where they stand in that text (`Layout.forms`), and a depth. `Layout.Legal` is the grammar.

That a legal layout is read follows the layout (`reads_layout`, `reads_deep`). For the converse,
what is left of a source is cut into the rest of the list that is open, its parenthesis, the rest of
the list around that, and so on (`Completes`).

* `parse_grammar`: the sources that are read are the texts of the legal layouts that are not too
  deep, and what is read is their forms.
-/
namespace Lispbox
open Lispbox.Text (isAsciiBlank)

/-- Blanks and comments. A comment runs to the end of its line, or of the source. -/
inductive Gap : (atEnd : Bool) → List Char → Prop where
  | none {atEnd : Bool} : Gap atEnd []
  | blank {atEnd : Bool} {c : Char} {cs : List Char} : isAsciiBlank c = true → Gap atEnd cs →
      Gap atEnd (c :: cs)
  | comment {atEnd : Bool} {body cs : List Char} : '\n' ∉ body → Gap atEnd cs →
      Gap atEnd (';' :: (body ++ '\n' :: cs))
  | last {body : List Char} : '\n' ∉ body → Gap true (';' :: body)

/-- A sequence of forms and how it is laid out: what stands in front of each form and behind the
last one, and how each atom is written. -/
inductive Layout where
  | done (gap : List Char)
  | word (gap spelling : List Char) (atom : Atom) (rest : Layout)
  | text (gap body content : List Char) (rest : Layout)
  | list (gap : List Char) (items rest : Layout)

namespace Layout

/-- The text of the forms. -/
def render : Layout → List Char
  | .done gap => gap
  | .word gap spelling _ rest => gap ++ (spelling ++ rest.render)
  | .text gap body _ rest => gap ++ '"' :: (body ++ '"' :: rest.render)
  | .list gap items rest => gap ++ '(' :: (items.render ++ ')' :: rest.render)

/-- The forms, if their text starts at `pos`. -/
def forms (pos : Pos) : Layout → List Form
  | .done _ => []
  | .word gap spelling a rest =>
    let start := pos.afterAll gap
    .atom start a :: rest.forms (start.afterAll spelling)
  | .text gap body content rest =>
    let start := pos.afterAll gap
    .atom start (.text (String.ofList content)) ::
      rest.forms (start.afterAll ('"' :: (body ++ ['"'])))
  | .list gap items rest =>
    let start := pos.afterAll gap
    .list start (items.forms (start.after '(')) ::
      rest.forms (start.afterAll ('(' :: (items.render ++ [')'])))

/-- How deep lists are nested. -/
def depth : Layout → Nat
  | .done _ => 0
  | .word _ _ _ rest => rest.depth
  | .text _ _ _ rest => rest.depth
  | .list _ items rest => max (items.depth + 1) rest.depth

/-- The layout keeps to the grammar. Words are maximal: no character follows that would belong to
them. -/
def Legal (atEnd : Bool) : Layout → Prop
  | .done gap => Gap atEnd gap
  | .word gap spelling a rest =>
    Gap false gap ∧ spelling ≠ [] ∧ (∀ c ∈ spelling, isSymbolChar c = true) ∧
      Atom.Spelled spelling a ∧ Apart rest.render ∧ rest.Legal atEnd
  | .text gap body content rest => Gap false gap ∧ Quoted body content ∧ rest.Legal atEnd
  | .list gap items rest => Gap false gap ∧ items.Legal false ∧ rest.Legal atEnd

end Layout

section

variable {d : Nat} {pos : Pos} {n : Nest} {forms fs : List Form} {outer : List (Pos × List Form)}
  {atEnd : Bool} {cs g : List Char}

/-! ## Layouts are read -/

theorem Apart.append {as bs : List Char} (has : Apart as) (hbs : Apart bs) : Apart (as ++ bs) := by
  cases as with
  | nil => exact hbs
  | cons c as => exact has

theorem Apart.of_append {as bs : List Char} (h : Apart (as ++ bs)) : Apart as := by
  cases as with
  | nil => nofun
  | cons c as => exact h

theorem apart_cons {c : Char} (hc : isSymbolChar c = false) (cs : List Char) : Apart (c :: cs) := by
  rintro _ ⟨⟩
  exact hc

theorem reads_gap (hg : Gap false g) :
    Reader.reads d ⟨pos, .blank, n⟩ (g ++ cs) = Reader.reads d ⟨pos.afterAll g, .blank, n⟩ cs := by
  generalize hend : false = atEnd at hg
  induction hg generalizing pos with
  | none => rfl
  | blank hc _ ih =>
    rw [List.cons_append, Reader.reads_blank hc, ih hend]
    rfl
  | @comment _ body gap hbody _ ih =>
    rw [List.cons_append, List.append_assoc, List.cons_append, Reader.reads_comment hbody, ih hend,
      ← Pos.afterAll_append, List.cons_append, List.append_assoc, List.singleton_append]
  | last _ => cases hend

theorem reads_lastGap (hg : Gap true g) : Reader.reads d ⟨pos, .blank, n⟩ g = n.finish := by
  generalize hend : true = atEnd at hg
  induction hg generalizing pos with
  | none => rfl
  | blank hc _ ih => rw [Reader.reads_blank hc, ih hend]
  | comment hbody _ ih => rw [Reader.reads_comment hbody, ih hend]
  | last hbody => exact Reader.reads_lastComment hbody

theorem reads_done (hg : Gap atEnd g) (hend : atEnd = true → cs = []) :
    Reader.reads d ⟨pos, .blank, n⟩ (g ++ cs) = Reader.reads d ⟨pos.afterAll g, .blank, n⟩ cs := by
  cases atEnd with
  | false => exact reads_gap hg
  | true =>
    rw [hend rfl, List.append_nil, reads_lastGap hg]
    rfl

/-- A legal layout that is not too deep is read to its forms. -/
theorem reads_layout (l : Layout) (hl : l.Legal atEnd) (hd : l.depth + outer.length ≤ d)
    (hcs : Apart cs) (hend : atEnd = true → cs = []) :
    Reader.reads d ⟨pos, .blank, ⟨forms, outer⟩⟩ (l.render ++ cs) =
      Reader.reads d ⟨pos.afterAll l.render, .blank, ⟨(l.forms pos).reverse ++ forms, outer⟩⟩
        cs := by
  induction l generalizing pos forms outer cs atEnd with
  | done gap => exact reads_done hl hend
  | word gap spelling a rest ih =>
    obtain ⟨hgap, hne, hchars, hspelled, hapart, hrest⟩ := hl
    rw [Layout.render, List.append_assoc, List.append_assoc, reads_gap hgap,
      Reader.reads_word hne hchars (hapart.append hcs), Atom.ofWord_of_spelled hspelled]
    dsimp only
    rw [ih hrest hd hcs hend, Layout.forms, Pos.afterAll_append, Pos.afterAll_append,
      List.reverse_cons, List.append_assoc]
    rfl
  | text gap body content rest ih =>
    obtain ⟨hgap, hquoted, hrest⟩ := hl
    rw [Layout.render, List.append_assoc, List.cons_append, List.append_assoc, List.cons_append,
      reads_gap hgap, Reader.reads_text hquoted, ih hrest hd hcs hend, Layout.forms,
      List.reverse_cons, List.append_assoc, Pos.afterAll_append, Pos.afterAll_enclosed,
      Pos.afterAll_enclosed]
    rfl
  | list gap items rest ihItems ihRest =>
    obtain ⟨hgap, hitems, hrest⟩ := hl
    rw [Layout.depth] at hd
    rw [Layout.render, List.append_assoc, List.cons_append, List.append_assoc, List.cons_append,
      reads_gap hgap, Reader.reads_open (by omega), ihItems hitems
        (by simp only [List.length_cons]; omega) (apart_cons rfl _) nofun, Reader.reads_close,
      ihRest hrest (by omega) hcs hend, Layout.forms, List.append_nil, List.reverse_reverse,
      List.reverse_cons, List.append_assoc, Pos.afterAll_append, Pos.afterAll_enclosed,
      Pos.afterAll_enclosed]
    rfl

/-- A legal layout that is too deep is refused. -/
theorem reads_deep (l : Layout) (hl : l.Legal atEnd) (houter : outer.length ≤ d)
    (hd : d < l.depth + outer.length) (hcs : Apart cs) (hend : atEnd = true → cs = []) :
    ∃ e, Reader.reads d ⟨pos, .blank, ⟨forms, outer⟩⟩ (l.render ++ cs) = .error e := by
  induction l generalizing pos forms outer cs atEnd with
  | done gap =>
    rw [Layout.depth] at hd
    omega
  | word gap spelling a rest ih =>
    obtain ⟨hgap, hne, hchars, hspelled, hapart, hrest⟩ := hl
    rw [Layout.render, List.append_assoc, List.append_assoc, reads_gap hgap,
      Reader.reads_word hne hchars (hapart.append hcs), Atom.ofWord_of_spelled hspelled]
    exact ih hrest houter hd hcs hend
  | text gap body content rest ih =>
    obtain ⟨hgap, hquoted, hrest⟩ := hl
    rw [Layout.render, List.append_assoc, List.cons_append, List.append_assoc, List.cons_append,
      reads_gap hgap, Reader.reads_text hquoted]
    exact ih hrest houter hd hcs hend
  | list gap items rest ihItems ihRest =>
    obtain ⟨hgap, hitems, hrest⟩ := hl
    rw [Layout.depth] at hd
    rw [Layout.render, List.append_assoc, List.cons_append, List.append_assoc, List.cons_append,
      reads_gap hgap]
    by_cases hopen : outer.length < d
    · rw [Reader.reads_open hopen]
      by_cases hfits : items.depth + 1 + outer.length ≤ d
      · rw [reads_layout items hitems (by simp only [List.length_cons]; omega) (apart_cons rfl _)
          nofun, Reader.reads_close]
        exact ihRest hrest houter (by omega) hcs hend
      · exact ihItems hitems hopen (by simp only [List.length_cons]; omega) (apart_cons rfl _) nofun
    · exact ⟨_, Reader.reads_tooDeep (Nat.le_of_not_lt hopen)⟩

/-! ## What is read is a layout -/

theorem Gap.append (hg : Gap false g) (hcs : Gap atEnd cs) : Gap atEnd (g ++ cs) := by
  generalize hend : false = inner at hg
  induction hg with
  | none => exact hcs
  | blank hc _ ih => exact .blank hc (ih hend)
  | comment hbody _ ih =>
    rw [List.cons_append, List.append_assoc, List.cons_append]
    exact .comment hbody (ih hend)
  | last _ => cases hend

namespace Layout

/-- More blanks and comments in front. -/
def indent (g : List Char) : Layout → Layout
  | .done gap => .done (g ++ gap)
  | .word gap spelling a rest => .word (g ++ gap) spelling a rest
  | .text gap body content rest => .text (g ++ gap) body content rest
  | .list gap items rest => .list (g ++ gap) items rest

variable {l : Layout}

theorem render_indent : (l.indent g).render = g ++ l.render := by
  cases l <;> simp [indent, render]

theorem forms_indent : (l.indent g).forms pos = l.forms (pos.afterAll g) := by
  cases l <;> simp [indent, forms, Pos.afterAll_append]

theorem depth_indent : (l.indent g).depth = l.depth := by
  cases l <;> rfl

theorem Legal.indent (hg : Gap false g) (hl : l.Legal atEnd) : (l.indent g).Legal atEnd := by
  cases l with
  | done gap => exact hg.append hl
  | word gap spelling a rest => exact ⟨hg.append hl.1, hl.2⟩
  | text gap body content rest => exact ⟨hg.append hl.1, hl.2⟩
  | list gap items rest => exact ⟨hg.append hl.1, hl.2⟩

end Layout

/-- Behind the forms of the list that is open, or of the source, its end follows, and what is around
it is completed, such that `fs` are the forms of the source. -/
def Closes (d : Nat) (fs : List Form) :
    List (Pos × List Form) → List Form → Pos → List Char → Prop
  | [], items, _, cs => cs = [] ∧ items = fs
  | (start, before) :: outer, items, pos, cs =>
    ∃ (l : Layout) (tail : List Char), cs = ')' :: (l.render ++ tail) ∧ l.Legal outer.isEmpty ∧
      l.depth + outer.length ≤ d ∧
      Closes d fs outer ((Form.list start items :: before).reverse ++ l.forms (pos.after ')'))
        ((pos.after ')').afterAll l.render) tail

/-- What is left of a source goes on with further forms, and what is around them is completed, such
that `fs` are the forms of the source. -/
def Completes (d : Nat) (fs : List Form) (outer : List (Pos × List Form)) (forms : List Form)
    (pos : Pos) (cs : List Char) : Prop :=
  ∃ (l : Layout) (tail : List Char), cs = l.render ++ tail ∧ l.Legal outer.isEmpty ∧
    l.depth + outer.length ≤ d ∧
    Closes d fs outer (forms.reverse ++ l.forms pos) (pos.afterAll l.render) tail

namespace Completes

theorem gap (hg : Gap false g) (h : Completes d fs outer forms (pos.afterAll g) cs) :
    Completes d fs outer forms pos (g ++ cs) := by
  obtain ⟨l, tail, rfl, hl, hd, htail⟩ := h
  refine ⟨l.indent g, tail, ?_, hl.indent hg, ?_, ?_⟩
  · rw [Layout.render_indent, List.append_assoc]
  · rw [Layout.depth_indent]
    exact hd
  · rw [Layout.forms_indent, Layout.render_indent, Pos.afterAll_append]
    exact htail

theorem word {spelling : List Char} {a : Atom} (hne : spelling ≠ [])
    (hchars : ∀ c ∈ spelling, isSymbolChar c = true) (ha : Atom.Spelled spelling a)
    (hcs : Apart cs)
    (h : Completes d fs outer (.atom pos a :: forms) (pos.afterAll spelling) cs) :
    Completes d fs outer forms pos (spelling ++ cs) := by
  obtain ⟨l, tail, rfl, hl, hd, htail⟩ := h
  refine ⟨.word [] spelling a l, tail, ?_, ⟨.none, hne, hchars, ha, hcs.of_append, hl⟩, hd, ?_⟩
  · rw [Layout.render, List.nil_append, List.append_assoc]
  · rw [List.reverse_cons, List.append_assoc] at htail
    rw [Layout.render, List.nil_append, Pos.afterAll_append]
    exact htail

theorem text {body content : List Char} (hquoted : Quoted body content)
    (h : Completes d fs outer (.atom pos (.text (String.ofList content)) :: forms)
      (pos.afterAll ('"' :: (body ++ ['"']))) cs) :
    Completes d fs outer forms pos ('"' :: (body ++ '"' :: cs)) := by
  obtain ⟨l, tail, rfl, hl, hd, htail⟩ := h
  refine ⟨.text [] body content l, tail, ?_, ⟨.none, hquoted, hl⟩, hd, ?_⟩
  · rw [Layout.render, List.nil_append, List.cons_append, List.append_assoc, List.cons_append]
  · have hbehind : pos.afterAll ('"' :: (body ++ '"' :: l.render)) =
        (pos.afterAll ('"' :: (body ++ ['"']))).afterAll l.render := by
      rw [Pos.afterAll_enclosed, Pos.afterAll_enclosed]
      rfl
    rw [List.reverse_cons, List.append_assoc] at htail
    rw [Layout.render, List.nil_append, hbehind]
    exact htail

/-- The rest of a list and what follows it are the rest of the list around it. -/
theorem list (h : Completes d fs ((pos, forms) :: outer) [] (pos.after '(') cs) :
    Completes d fs outer forms pos ('(' :: cs) := by
  obtain ⟨items, tail, rfl, hitems, hdepth, htail⟩ := h
  obtain ⟨l, tail, rfl, hl, hd, htail⟩ := htail
  rw [List.length_cons] at hdepth
  refine ⟨.list [] items l, tail, ?_, ⟨.none, hitems, hl⟩, ?_, ?_⟩
  · rw [Layout.render, List.nil_append, List.cons_append, List.append_assoc, List.cons_append]
  · rw [Layout.depth]
    omega
  · rw [List.reverse_cons, List.append_assoc] at htail
    rw [Layout.forms, Layout.render, List.nil_append, Pos.afterAll_enclosed, Pos.afterAll_enclosed]
    exact htail

theorem close {start : Pos} {before : List Form} (hd : outer.length < d)
    (h : Completes d fs outer (.list start forms.reverse :: before) (pos.after ')') cs) :
    Completes d fs ((start, before) :: outer) forms pos (')' :: cs) := by
  obtain ⟨l, tail, rfl, hl, hdepth, htail⟩ := h
  refine ⟨.done [], ')' :: (l.render ++ tail), rfl, .none, ?_, l, tail, rfl, hl, hdepth, ?_⟩
  · rw [Layout.depth, List.length_cons]
    omega
  · rw [Layout.forms, List.append_nil]
    exact htail

/-- The source ends where no list is open. -/
theorem finish (hg : Gap true g) (h : Nest.finish ⟨forms, outer⟩ = .ok fs) :
    Completes d fs outer forms pos g := by
  cases outer with
  | nil =>
    cases h
    exact ⟨.done g, [], (List.append_nil _).symm, hg, Nat.zero_le d, rfl, List.append_nil _⟩
  | cons o outer => cases h

end Completes

/-- What is read from here completes what is open. -/
theorem completes_of_reads (cs : List Char) {pos : Pos} {forms : List Form}
    {outer : List (Pos × List Form)} (hd : outer.length ≤ d)
    (h : Reader.reads d ⟨pos, .blank, ⟨forms, outer⟩⟩ cs = .ok fs) :
    Completes d fs outer forms pos cs := by
  generalize hlen : cs.length = len
  induction len using Nat.strongRecOn generalizing cs pos forms outer with
  | _ len ih =>
  subst hlen
  cases cs with
  | nil => exact .finish .none h
  | cons c cs =>
    by_cases hc : isSymbolChar c = true
    · -- a word is as long as it can be
      have hsplit := List.takeWhile_append_dropWhile (p := isSymbolChar) (l := c :: cs)
      have hword : (c :: cs).takeWhile isSymbolChar ≠ [] := by
        rw [List.takeWhile_cons_of_pos hc]
        exact List.cons_ne_nil _ _
      have hchars : ∀ x ∈ (c :: cs).takeWhile isSymbolChar, isSymbolChar x = true :=
        List.all_eq_true.1 List.all_takeWhile
      have hapart : Apart ((c :: cs).dropWhile isSymbolChar) := by
        intro x hx
        have hhead := List.head?_dropWhile_not isSymbolChar (c :: cs)
        rw [hx] at hhead
        exact hhead
      generalize (c :: cs).takeWhile isSymbolChar = spelling at hsplit hword hchars
      generalize (c :: cs).dropWhile isSymbolChar = rest at hsplit hapart
      rw [← hsplit] at h ih ⊢
      rw [Reader.reads_word hword hchars hapart] at h
      cases ha : Atom.ofWord spelling with
      | error flaw =>
        rw [ha] at h
        cases h
      | ok a =>
        rw [ha] at h
        have hpos := List.length_pos_iff.2 hword
        exact .word hword hchars (Atom.spelled_of_ofWord ha) hapart
          (ih _ (by rw [List.length_append]; omega) rest hd h rfl)
    · rcases not_symbolChar (Bool.eq_false_iff.2 hc) with rfl | rfl | rfl | rfl | hblank
      · by_cases hopen : outer.length < d
        · rw [Reader.reads_open hopen] at h
          exact .list (ih _ (Nat.lt_succ_self _) cs hopen h rfl)
        · rw [Reader.reads_tooDeep (Nat.le_of_not_lt hopen)] at h
          cases h
      · cases outer with
        | nil =>
          rw [Reader.reads_unmatched] at h
          cases h
        | cons o outer =>
          rw [Reader.reads_close] at h
          exact .close hd (ih _ (Nat.lt_succ_self _) cs (Nat.le_of_succ_le hd) h rfl)
      · rcases Reader.text_total cs with ⟨body, content, rest, rfl, hquoted⟩ | hrefused
        · rw [Reader.reads_text hquoted] at h
          exact .text hquoted (ih _ (by simp only [List.length_cons, List.length_append]; omega)
            rest hd h rfl)
        · rw [Reader.reads_silent (.text pos []) rfl] at h
          obtain ⟨e, he⟩ := hrefused d _ pos [] ⟨forms, outer⟩
          rw [he] at h
          cases h
      · by_cases hend : '\n' ∈ cs
        · obtain ⟨body, rest, rfl, hbody⟩ := List.eq_append_cons_of_mem hend
          rw [Reader.reads_comment hbody] at h
          have hrest := Completes.gap (.comment hbody .none) (ih _
            (by simp only [List.length_cons, List.length_append]; omega) rest hd h rfl)
          rw [List.cons_append, List.append_assoc] at hrest
          exact hrest
        · rw [Reader.reads_lastComment hend] at h
          exact .finish (.last hend) h
      · rw [Reader.reads_blank hblank] at h
        exact .gap (.blank hblank .none) (ih _ (Nat.lt_succ_self _) cs hd h rfl)

end

/-- The sources that are read are the texts of the legal layouts that are not too deep, and what is
read is their forms. So the text of a forest is read back to the forest however it is laid out, and
refused if the forest is too deep. -/
theorem parse_grammar (file : String) (maxDepth : Nat) :
    (∀ (source : String) (fs : List Form), parse source file maxDepth = .ok fs ↔
      ∃ l : Layout, l.Legal true ∧ l.depth ≤ maxDepth ∧ String.ofList l.render = source ∧
        l.forms .start = fs) ∧
    ∀ l : Layout, l.Legal true → maxDepth < l.depth →
      ∃ e, parse (String.ofList l.render) file maxDepth = .error e := by
  have hparse (source : String) : parse source file maxDepth =
      (Reader.reads maxDepth Reader.start source.toList).mapError fun e =>
        CompileError.at file source e.1 e.2.message := rfl
  have hnil : Apart [] := fun _ h => by cases h
  refine ⟨fun source fs => ⟨fun h => ?_, ?_⟩, fun l hl hd => ?_⟩
  · rw [hparse] at h
    cases hread : Reader.reads maxDepth Reader.start source.toList with
    | error e =>
      rw [hread] at h
      cases h
    | ok fs' =>
      rw [hread] at h
      cases h
      obtain ⟨l, tail, hcs, hl, hd, rfl, hforms⟩ :=
        completes_of_reads source.toList (Nat.zero_le maxDepth) hread
      rw [List.append_nil] at hcs
      exact ⟨l, hl, hd, by rw [← hcs, String.ofList_toList], hforms⟩
  · rintro ⟨l, hl, hd, rfl, rfl⟩
    have hread : Reader.reads maxDepth Reader.start (l.render ++ []) = _ :=
      reads_layout l hl hd hnil fun _ => rfl
    rw [List.append_nil, List.append_nil] at hread
    rw [hparse, String.toList_ofList, hread, Reader.reads_nil, Nest.finish]
    dsimp only
    rw [List.reverse_reverse]
    rfl
  · have hread : ∃ e, Reader.reads maxDepth Reader.start (l.render ++ []) = .error e :=
      reads_deep l hl (Nat.zero_le maxDepth) hd hnil fun _ => rfl
    obtain ⟨e, he⟩ := hread
    rw [List.append_nil] at he
    rw [hparse, String.toList_ofList, he]
    exact ⟨_, rfl⟩

namespace Grammar

/-- A list without a blank that could be left out, and a comment that nothing ends. -/
def layout : Layout :=
  .list [] (.word [] "f".toList (.symbol "f") <| .word [' '] ":k".toList (.keyword "k") <|
    .word [' '] "-7".toList (.integer (-7)) <| .text [] "a\\n".toList "a\n".toList <| .done [])
    (.done ";)".toList)

theorem layout_legal : layout.Legal true := by
  have hf : Atom.Spelled "f".toList (.symbol "f") := Atom.spelled_of_ofWord rfl
  have hk : Atom.Spelled ":k".toList (.keyword "k") := Atom.spelled_of_ofWord rfl
  have hseven : Atom.Spelled "-7".toList (.integer (-7)) := Atom.spelled_of_ofWord rfl
  have hblank : Gap false [' '] := .blank rfl .none
  have htext : Quoted "a\\n".toList "a\n".toList :=
    .plain (by decide) (by decide) (.escaped (by decide) .nil)
  have hsymbols {word : String} (h : word.toList.all isSymbolChar = true) :
      ∀ c ∈ word.toList, isSymbolChar c = true := List.all_eq_true.1 h
  exact ⟨.none, ⟨.none, by decide, hsymbols rfl, hf, apart_cons rfl _, hblank, by decide,
    hsymbols rfl, hk, apart_cons rfl _, hblank, by decide, hsymbols rfl, hseven, apart_cons rfl _,
    .none, htext, .none⟩, .last (by decide)⟩

theorem parse_grammar_layout :
    parse "(f :k -7\"a\\n\");)" "main" 1 = .ok [.list ⟨1, 1⟩ [.atom ⟨1, 2⟩ (.symbol "f"),
      .atom ⟨1, 4⟩ (.keyword "k"), .atom ⟨1, 7⟩ (.integer (-7)), .atom ⟨1, 9⟩ (.text "a\n")]] ∧
    ∃ e, parse "(f :k -7\"a\\n\");)" "main" 0 = .error e :=
  ⟨((parse_grammar "main" 1).1 _ _).2 ⟨layout, layout_legal, by decide, rfl, rfl⟩,
    (parse_grammar "main" 0).2 layout layout_legal (by decide)⟩

end Grammar
end Lispbox
