import Lispbox.Form.Reader

/-!
# Reading what comes next

What the reader makes of the rest of a source (`Reader.reads`), one equation for each thing that may
come next: a blank, a comment, a parenthesis, a word, a text. They speak of whole words and texts,
so what is in the middle of one concerns nobody behind this module.

* `reads_word`: a word ends where the first character follows that words are not made of.
* `text_total`: a text that is not closed, or holds any other escape, is refused.
-/
namespace Lispbox
open Lispbox.Text (isAsciiBlank)

/-- The characters that may follow a backslash, and what they stand for. -/
def escapes : List (Char × Char) :=
  [('"', '"'), ('\\', '\\'), ('n', '\n'), ('r', '\r'), ('t', '\t')]

/-- What stands between the quotes of a text. -/
inductive Quoted : List Char → List Char → Prop where
  | nil : Quoted [] []
  | plain {c : Char} {body content : List Char} : c ≠ '"' → c ≠ '\\' → Quoted body content →
      Quoted (c :: body) (c :: content)
  | escaped {c d : Char} {body content : List Char} : (c, d) ∈ escapes → Quoted body content →
      Quoted ('\\' :: c :: body) (d :: content)

/-- A word may end here. -/
def Apart (cs : List Char) : Prop := ∀ c ∈ cs.head?, isSymbolChar c = false

theorem unescape?_eq_some_iff {c d : Char} : unescape? c = some d ↔ (c, d) ∈ escapes := by
  constructor
  · intro h
    unfold unescape? at h
    split at h <;> cases h <;> decide
  · intro h
    simp only [escapes, List.mem_cons, Prod.mk.injEq, List.not_mem_nil, or_false] at h
    rcases h with ⟨rfl, rfl⟩ | ⟨rfl, rfl⟩ | ⟨rfl, rfl⟩ | ⟨rfl, rfl⟩ | ⟨rfl, rfl⟩ <;> rfl

/-- What words are not made of. -/
theorem not_symbolChar {c : Char} (h : isSymbolChar c = false) :
    c = '(' ∨ c = ')' ∨ c = '"' ∨ c = ';' ∨ isAsciiBlank c = true := by
  simp only [isSymbolChar, Bool.not_eq_false', Bool.or_eq_true, beq_iff_eq] at h
  rcases h with (((h | h) | h) | h) | h
  · exact .inl h
  · exact .inr (.inl h)
  · exact .inr (.inr (.inl h))
  · exact .inr (.inr (.inr (.inl h)))
  · exact .inr (.inr (.inr (.inr h)))

theorem Reading.begin_word {c : Char} (h : isSymbolChar c = true) (pos : Pos) :
    Reading.begin pos c = ([], .word pos [c]) := by
  simp only [isSymbolChar, Bool.not_eq_true', Bool.or_eq_false_iff, beq_eq_false_iff_ne, ne_eq] at h
  obtain ⟨⟨⟨⟨hopen, hclose⟩, hquote⟩, hcomment⟩, hblank⟩ := h
  unfold Reading.begin
  rw [if_neg (by simp [hblank])]
  split
  · exact absurd rfl hopen
  · exact absurd rfl hclose
  · exact absurd rfl hquote
  · exact absurd rfl hcomment
  · rfl

theorem Pos.afterAll_append (pos : Pos) (cs ds : List Char) :
    pos.afterAll (cs ++ ds) = (pos.afterAll cs).afterAll ds := by
  simp [afterAll]

theorem Pos.afterAll_enclosed (pos : Pos) (a b : Char) (cs ds : List Char) :
    pos.afterAll (a :: (cs ++ b :: ds)) = (((pos.after a).afterAll cs).after b).afterAll ds := by
  simp [afterAll]

namespace Reader

/-- The forms that come out if the rest of the source is `cs`. -/
def reads (maxDepth : Nat) (r : Reader) (cs : List Char) : Except (Pos × Flaw) (List Form) := do
  let r ← r.run maxDepth cs
  r.finish maxDepth

variable {d : Nat} {pos start : Pos} {reading : Reading} {n : Nest}
  {forms before : List Form} {outer : List (Pos × List Form)} {c : Char}
  {cs body seen : List Char} {e : Pos × Flaw}

theorem reads_cons (r : Reader) :
    r.reads d (c :: cs) = r.step d c >>= fun r => r.reads d cs := by
  simp [reads, run]

theorem reads_silent (next : Reading) (h : reading.step pos c = .ok ([], next)) :
    reads d ⟨pos, reading, n⟩ (c :: cs) = reads d ⟨pos.after c, next, n⟩ cs := by
  rw [reads_cons, step, h]
  rfl

theorem reads_found (l : Lexeme) (next : Reading) (h : reading.step pos c = .ok ([l], next)) :
    reads d ⟨pos, reading, n⟩ (c :: cs) =
      n.take d l >>= fun n => reads d ⟨pos.after c, next, n⟩ cs := by
  rw [reads_cons, step, h]
  cases hn : n.take d l <;> simp [bind, Except.bind, pure, Except.pure, hn]

theorem reads_refused (h : reading.step pos c = .error e) :
    reads d ⟨pos, reading, n⟩ (c :: cs) = .error e := by
  rw [reads_cons, step, h]
  rfl

/-! ## Between forms -/

theorem reads_blank (h : isAsciiBlank c = true) :
    reads d ⟨pos, .blank, n⟩ (c :: cs) = reads d ⟨pos.after c, .blank, n⟩ cs :=
  reads_silent _ (by simp [Reading.step, Reading.begin, h])

theorem reads_commentBody (h : '\n' ∉ body) :
    reads d ⟨pos, .comment, n⟩ (body ++ cs) = reads d ⟨pos.afterAll body, .comment, n⟩ cs := by
  induction body generalizing pos with
  | nil => rfl
  | cons c body ih =>
    rw [List.mem_cons, not_or] at h
    rw [List.cons_append, reads_silent .comment (by simp [Reading.step, Ne.symm h.1])]
    exact ih h.2

theorem reads_comment (h : '\n' ∉ body) :
    reads d ⟨pos, .blank, n⟩ (';' :: (body ++ '\n' :: cs)) =
      reads d ⟨pos.afterAll (';' :: (body ++ ['\n'])), .blank, n⟩ cs := by
  rw [reads_silent _ rfl, reads_commentBody h, reads_silent _ rfl, Pos.afterAll_enclosed]
  rfl

theorem reads_lastComment (h : '\n' ∉ body) :
    reads d ⟨pos, .blank, n⟩ (';' :: body) = n.finish := by
  rw [reads_silent _ rfl]
  have hbody : reads d ⟨pos.after ';', .comment, n⟩ (body ++ []) = _ := reads_commentBody h
  rw [List.append_nil] at hbody
  rw [hbody]
  rfl

theorem reads_nil : reads d ⟨pos, .blank, n⟩ [] = n.finish := rfl

theorem reads_open (h : outer.length < d) :
    reads d ⟨pos, .blank, ⟨forms, outer⟩⟩ ('(' :: cs) =
      reads d ⟨pos.after '(', .blank, ⟨[], (pos, forms) :: outer⟩⟩ cs := by
  rw [reads_found ⟨pos, .openList⟩ .blank rfl, Nest.take]
  dsimp only
  rw [if_neg (Nat.not_le_of_lt h)]
  rfl

theorem reads_tooDeep (h : d ≤ outer.length) :
    reads d ⟨pos, .blank, ⟨forms, outer⟩⟩ ('(' :: cs) = .error (pos, .tooDeep) := by
  rw [reads_found ⟨pos, .openList⟩ .blank rfl, Nest.take]
  dsimp only
  rw [if_pos h]
  rfl

theorem reads_close :
    reads d ⟨pos, .blank, ⟨forms, (start, before) :: outer⟩⟩ (')' :: cs) =
      reads d ⟨pos.after ')', .blank, ⟨.list start forms.reverse :: before, outer⟩⟩ cs := by
  rw [reads_found ⟨pos, .closeList⟩ .blank rfl]
  rfl

theorem reads_unmatched :
    reads d ⟨pos, .blank, ⟨forms, []⟩⟩ (')' :: cs) = .error (pos, .unmatchedClose) := by
  rw [reads_found ⟨pos, .closeList⟩ .blank rfl]
  rfl

/-! ## Words -/

theorem reads_wordBody {word : List Char} (h : ∀ c ∈ word, isSymbolChar c = true) :
    reads d ⟨pos, .word start seen, n⟩ (word ++ cs) =
      reads d ⟨pos.afterAll word, .word start (word.reverse ++ seen), n⟩ cs := by
  induction word generalizing pos seen with
  | nil => rfl
  | cons c word ih =>
    rw [List.cons_append, reads_silent (.word start (c :: seen))
      (by simp [Reading.step, h c (List.mem_cons_self)]),
      ih fun c hc => h c (List.mem_cons_of_mem _ hc), List.reverse_cons, List.append_assoc]
    rfl

/-- Behind a word goes on what would go on without it. -/
theorem reads_wordEnd (h : Apart cs) :
    reads d ⟨pos, .word start seen, n⟩ cs = (do
      let l ← Lexeme.ofWord start pos seen
      let n ← n.take d l
      reads d ⟨pos, .blank, n⟩ cs) := by
  cases cs with
  | nil =>
    show Reader.finish d _ = _
    rw [Reader.finish, Reading.finish]
    cases hl : Lexeme.ofWord start pos seen with
    | error e => rfl
    | ok l =>
      cases hn : n.take d l with
      | error e => simp [Except.map, bind, Except.bind, hn]
      | ok n' =>
        simp only [Except.map, bind, Except.bind, pure, Except.pure, List.foldlM, hn]
        rfl
  | cons c cs =>
    have hc : isSymbolChar c = false := h c rfl
    rw [reads_cons, step]
    simp only [Reading.step, hc, Bool.false_eq_true, ↓reduceIte]
    cases hl : Lexeme.ofWord start pos seen with
    | error e => rfl
    | ok l =>
      cases hn : n.take d l with
      | error e => simp [bind, Except.bind, hn]
      | ok n' =>
        simp only [bind, Except.bind, List.foldlM, hn]
        exact (reads_cons ⟨pos, .blank, n'⟩).symm

theorem reads_word {word : List Char} (hne : word ≠ []) (h : ∀ c ∈ word, isSymbolChar c = true)
    (hcs : Apart cs) :
    reads d ⟨pos, .blank, ⟨forms, outer⟩⟩ (word ++ cs) =
      match Atom.ofWord word with
      | .ok a => reads d ⟨pos.afterAll word, .blank, ⟨.atom pos a :: forms, outer⟩⟩ cs
      | .error flaw => .error (pos.afterAll word, flaw) := by
  cases word with
  | nil => exact absurd rfl hne
  | cons c word =>
    have hc := h c List.mem_cons_self
    rw [List.cons_append, reads_silent (.word pos [c])
        (by rw [Reading.step, Reading.begin_word hc]),
      reads_wordBody fun c hc => h c (List.mem_cons_of_mem _ hc), reads_wordEnd hcs, Lexeme.ofWord,
      List.reverse_append, List.reverse_reverse, List.reverse_singleton, List.singleton_append]
    cases Atom.ofWord (c :: word) <;> rfl

/-! ## Texts -/

theorem reads_textBody {content : List Char} (h : Quoted body content) :
    reads d ⟨pos, .text start seen, n⟩ (body ++ cs) =
      reads d ⟨pos.afterAll body, .text start (content.reverse ++ seen), n⟩ cs := by
  induction h generalizing pos seen with
  | nil => rfl
  | @plain c body content hquote hescape _ ih =>
    rw [List.cons_append, reads_silent (.text start (c :: seen))
      (by simp [Reading.step, hquote, hescape]), ih, List.reverse_cons, List.append_assoc]
    rfl
  | @escaped c c' body content hc _ ih =>
    rw [List.cons_append, List.cons_append, reads_silent (.escape start seen) rfl,
      reads_silent (.text start (c' :: seen))
        (by simp [Reading.step, unescape?_eq_some_iff.2 hc]),
      ih, List.reverse_cons, List.append_assoc]
    rfl

theorem reads_text {content : List Char} (h : Quoted body content) :
    reads d ⟨pos, .blank, ⟨forms, outer⟩⟩ ('"' :: (body ++ '"' :: cs)) =
      reads d ⟨pos.afterAll ('"' :: (body ++ ['"'])), .blank,
        ⟨.atom pos (.text (String.ofList content)) :: forms, outer⟩⟩ cs := by
  rw [reads_silent (.text pos []) rfl, reads_textBody h, List.append_nil,
    reads_found ⟨pos, .atom (.text (String.ofList content))⟩ .blank
      (by simp [Reading.step]), Pos.afterAll_enclosed]
  rfl

/-- A text is closed and well written, or it is refused. -/
theorem text_total (cs : List Char) :
    (∃ body content rest, cs = body ++ '"' :: rest ∧ Quoted body content) ∨
    ∀ d pos start seen n, ∃ e, reads d ⟨pos, .text start seen, n⟩ cs = .error e := by
  match cs with
  | [] => exact .inr fun d pos start seen n => ⟨_, rfl⟩
  | c :: cs =>
    by_cases hquote : c = '"'
    · subst hquote
      exact .inl ⟨[], [], cs, rfl, .nil⟩
    by_cases hescape : c = '\\'
    · subst hescape
      match cs with
      | [] => exact .inr fun d pos start seen n => ⟨_, rfl⟩
      | c :: cs =>
        cases hc : unescape? c with
        | none =>
          refine .inr fun d pos start seen n => ⟨refuseEscape (pos.after '\\') c, ?_⟩
          rw [reads_silent (.escape start seen) rfl, reads_refused]
          simp [Reading.step, hc]
        | some c' =>
          rcases text_total cs with ⟨body, content, rest, rfl, h⟩ | h
          · exact .inl ⟨_, _, rest, rfl, .escaped (unescape?_eq_some_iff.1 hc) h⟩
          · refine .inr fun d pos start seen n => ?_
            rw [reads_silent (.escape start seen) rfl,
              reads_silent (.text start (c' :: seen)) (by simp [Reading.step, hc])]
            exact h _ _ _ _ _
    · rcases text_total cs with ⟨body, content, rest, rfl, h⟩ | h
      · exact .inl ⟨_, _, rest, rfl, .plain hquote hescape h⟩
      · refine .inr fun d pos start seen n => ?_
        rw [reads_silent (.text start (c :: seen))
          (by simp [Reading.step, hquote, hescape])]
        exact h _ _ _ _ _
termination_by cs.length

end Reader
end Lispbox
