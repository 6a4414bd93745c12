import Lispbox.Proofs.Form.ByteWords
import Lispbox.Proofs.Form.Grammar
import Lispbox.Proofs.Form.Refusals

/-!
# Reading bytes is reading characters

The reader of bytes takes a source by recursive descent, the other reader takes its characters one
by one and keeps the open lists on a stack. What carries the comparison is where the former is:
between two characters, whenever it is done with blanks and comments, with an atom or with a form.
There both are compared by what the rest of the source is read to (`Agrees`), whatever is open
around it. So each part of the reader is compared on its own, and the forms by induction on the
steps.

* `agrees_text`: the bytes of a text are those of characters, whatever is escaped in it.
* `agrees`: the steps suffice that are twice as many as characters.
* `read_eq`: both readers come to the same forms or to the same refusal.
* `guards_idle`: no guard of the reader of bytes ever acts, and what a source is refused for is one
  of its flaws.
-/
namespace Lispbox

open Reader (reads)

variable {source : String} {d depth n : Nat} {before rest cs : List Char} {c : Char}

/-! ## Blanks and comments -/

theorem gap_of_blanks (h : ∀ c ∈ cs, Text.isAsciiBlank c = true) : Gap false cs := by
  induction cs with
  | nil => exact .none
  | cons c cs ih =>
    obtain ⟨hc, hcs⟩ := List.forall_mem_cons.mp h
    exact .blank hc (ih hcs)

/-- What follows is the end, or something that is neither a blank nor a comment. -/
def AtToken (cs : List Char) : Prop :=
  ∀ c ∈ cs.head?, Text.isAsciiBlank c = false ∧ c ≠ ';'

theorem atToken_nil : AtToken [] := nofun

theorem Cursor.skip_atToken (h : AtToken cs) : (between before cs).skip = between before cs := by
  have hstay : (between before ([] ++ cs)).advanceWhile Text.isAsciiBlank =
      between (before ++ []) cs :=
    advanceWhile_between _ coarse_isAsciiBlank (fun c hc => by cases hc) fun c hc => (h c hc).1
  rw [List.nil_append, List.append_nil] at hstay
  rw [skip, hstay, if_neg]
  intro hcomment
  exact (h ';' ((current_eq_iff (by decide)).mp hcomment)).2 rfl

/-- The cursor skips what is between forms. -/
theorem Cursor.skip_between (before cs : List Char) :
    ∃ atEnd gap rest, cs = gap ++ rest ∧ Gap atEnd gap ∧ (atEnd = true → rest = []) ∧
      AtToken rest ∧ (between before cs).skip = between (before ++ gap) rest := by
  induction hlength : cs.length using Nat.strongRecOn generalizing before cs with
  | _ len ih =>
  subst hlength
  obtain ⟨blanks, rest, rfl, hblanks, hrest⟩ := Text.exists_run Text.isAsciiBlank cs
  have hgap := gap_of_blanks hblanks
  rw [skip, advanceWhile_between _ coarse_isAsciiBlank hblanks hrest]
  by_cases hcomment : rest.head? = some ';'
  · rw [if_pos ((current_eq_iff (by decide)).mpr hcomment)]
    obtain ⟨line, below, hline, hplain, hbelow⟩ := Text.exists_run (· != '\n') rest
    obtain ⟨body, rfl⟩ : ∃ body, line = ';' :: body := by
      cases line with
      | nil =>
        rw [hline, List.nil_append] at hcomment
        exact absurd (hbelow _ hcomment) (by decide)
      | cons c body =>
        rw [hline, List.cons_append, List.head?_cons, Option.some_inj] at hcomment
        exact ⟨body, by rw [hcomment]⟩
    have hbody : '\n' ∉ body := fun hmem => by
      simpa using hplain '\n' (List.mem_cons_of_mem _ hmem)
    rw [hline, advanceWhile_between _ (coarse_ne (by decide)) hplain hbelow]
    cases below with
    | nil =>
      -- the comment ends with the source
      refine ⟨true, blanks ++ ';' :: body, [], by simp, hgap.append (.last hbody), fun _ => rfl,
        atToken_nil, ?_⟩
      rw [← List.append_assoc]
      exact skip_atToken atToken_nil
    | cons c below =>
      obtain rfl : c = '\n' := by simpa using hbelow c rfl
      rw [advance_between (by decide)]
      obtain ⟨atEnd, gap, rest', rfl, hgap', hend, htoken, hskip⟩ :=
        ih _ (by simp only [hline, List.length_append, List.length_cons]; omega)
          (before ++ blanks ++ ';' :: body ++ ['\n']) below rfl
      refine ⟨atEnd, blanks ++ ';' :: (body ++ '\n' :: gap), rest', by simp,
        hgap.append (.comment hbody hgap'), hend, htoken, ?_⟩
      rw [hskip]
      simp
  · rw [if_neg fun h => hcomment ((current_eq_iff (by decide)).mp h)]
    have htoken : AtToken rest := fun c hc => ⟨hrest c hc, fun h => hcomment (h ▸ hc)⟩
    exact ⟨false, blanks, rest, rfl, hgap, nofun, htoken, rfl⟩

/-- Where the cursor is behind blanks and comments, and that they are skipped in reading as well. -/
theorem exists_token (hsource : source.toList = before ++ cs) :
    ∃ before' rest, source.toList = before' ++ rest ∧ rest.length ≤ cs.length ∧ AtToken rest ∧
      (Cursor.between before cs).skip = .between before' rest ∧
      ∀ d nest, reads d ⟨.behind before, .blank, nest⟩ cs =
        reads d ⟨.behind before', .blank, nest⟩ rest := by
  obtain ⟨atEnd, gap, rest, rfl, hgap, hend, htoken, hskip⟩ := Cursor.skip_between before cs
  refine ⟨before ++ gap, rest, by rw [hsource, List.append_assoc], ?_, htoken, hskip,
    fun d nest => by rw [reads_done hgap hend, Pos.afterAll_behind]⟩
  rw [List.length_append]
  exact Nat.le_add_left _ _

/-! ## Agreement -/

namespace ByteReader

/-- A form that is read from bytes, or a refusal, agrees with what characters are read to. Behind
the form, fewer than `n` characters are left, and what is read is what the rest is read to behind
the form, whatever is open around it. -/
inductive Agrees (source : String) (d depth n : Nat) {α : Type} (made : α → Form)
    (reading : Nest → Except (Pos × Flaw) (List Form)) : Except Stop (α × Cursor) → Prop where
  | read {a : α} {before cs : List Char} (hsource : source.toList = before ++ cs)
    (hlength : cs.length < n)
    (h : ∀ nest : Nest, nest.outer.length = depth →
      reading nest = reads d ⟨.behind before, .blank, ⟨made a :: nest.forms, nest.outer⟩⟩ cs) :
    Agrees source d depth n made reading (.ok (a, .between before cs))
  | refused {pos : Pos} {flaw : Flaw}
    (h : ∀ nest : Nest, nest.outer.length = depth → reading nest = .error (pos, flaw)) :
    Agrees source d depth n made reading (.error (.refused pos (.flaw flaw)))

namespace Agrees

variable {α : Type} {made : α → Form} {reading reading' : Nest → Except (Pos × Flaw) (List Form)}
  {out : Except Stop (α × Cursor)}

/-- More may be left, and what is read may be told in another way. -/
theorem weaken {m : Nat} (h : Agrees source d depth n made reading out) (hn : n ≤ m)
    (hreading : ∀ nest : Nest, nest.outer.length = depth → reading' nest = reading nest) :
    Agrees source d depth m made reading' out := by
  cases h with
  | read hsource hlength h =>
    exact .read hsource (Nat.lt_of_lt_of_le hlength hn) fun nest hnest =>
      (hreading nest hnest).trans (h nest hnest)
  | refused h => exact .refused fun nest hnest => (hreading nest hnest).trans (h nest hnest)

/-- What is read is made into a form. -/
theorem form (h : Agrees source d depth n made reading out) :
    Agrees source d depth n id reading (out >>= fun (a, after) => pure (made a, after)) := by
  cases h with
  | read hsource hlength h => exact .read hsource hlength h
  | refused h => exact .refused h

end Agrees

/-- A word agrees with what it is read to. -/
theorem agrees_taken {word : List Char} (h : IsWord source before word rest) (hne : word ≠ []) :
    Agrees source d depth (word ++ rest).length (Form.atom (.behind before))
      (fun nest => reads d ⟨.behind before, .blank, nest⟩ (word ++ rest))
      (taken before word rest) := by
  unfold taken
  cases hword : Atom.ofWord word with
  | ok a =>
    refine .read (by rw [h.source_eq, List.append_assoc]) ?_ fun nest _ => ?_
    · rw [List.length_append]
      exact Nat.lt_add_of_pos_left (List.length_pos_iff.mpr hne)
    · rw [Reader.reads_word hne h.symbols h.apart, hword, Pos.afterAll_behind]
  | error flaw =>
    refine .refused fun nest _ => ?_
    rw [Reader.reads_word hne h.symbols h.apart, hword, Pos.afterAll_behind]

/-! ## Texts -/

variable {content : List Char} {start : Pos}

/-- Bytes that end nothing belong to the text. -/
theorem text_run {bs : List UInt8} (h : ∀ b ∈ bs, Char.ofUInt8 b ≠ '"' ∧ Char.ofUInt8 b ≠ '\\')
    (seen rest : List UInt8) (index : Nat) (pos : Pos) :
    text seen ⟨index, pos, bs ++ rest⟩ =
      text (bs.reverse ++ seen) ⟨index + bs.length, bs.foldl Pos.afterByte pos, rest⟩ := by
  induction bs generalizing seen index pos with
  | nil => rfl
  | cons b bs ih =>
    obtain ⟨hb, hbs⟩ := List.forall_mem_cons.mp h
    rw [List.cons_append, text.eq_def]
    dsimp only
    rw [if_neg hb.1, if_neg hb.2, ih hbs, List.reverse_cons,
      List.append_assoc, List.length_cons, List.foldl_cons, Nat.add_assoc, Nat.add_comm 1]
    rfl

theorem text_plain (hquote : c ≠ '"') (hescape : c ≠ '\\') :
    text (utf8 content).reverse (.between before (c :: cs)) =
      text (utf8 (content ++ [c])).reverse (.between (before ++ [c]) cs) := by
  have hplain : ∀ b ∈ String.utf8EncodeChar c, Char.ofUInt8 b ≠ '"' ∧ Char.ofUInt8 b ≠ '\\' :=
    fun b hb =>
      ⟨mt (byte_eq_iff (by decide) hb).mp hquote, mt (byte_eq_iff (by decide) hb).mp hescape⟩
  have hone : utf8 [c] = String.utf8EncodeChar c := (utf8_cons c []).trans (List.append_nil _)
  rw [← Cursor.between_append, hone, Cursor.between, utf8_cons, text_run hplain, utf8_append, hone,
    List.reverse_append]

/-- The gathered bytes are those of characters, so they are a text. -/
theorem text_quote (content before cs : List Char) :
    text (utf8 content).reverse (.between before ('"' :: cs)) =
      .ok (.text (String.ofList content), .between (before ++ ['"']) cs) := by
  obtain ⟨hcursor, hbehind⟩ := Cursor.between_ascii (by decide : '"'.toNat < 128) before cs
  rw [hcursor, hbehind, text.eq_def]
  dsimp only
  rw [if_pos (by decide), List.reverse_reverse, fromUTF8?_utf8]

theorem text_incomplete (content before : List Char) :
    text (utf8 content).reverse (.between before ['\\']) =
      refuse (.between (before ++ ['\\']) []) (.flaw .incompleteEscape) := by
  obtain ⟨hcursor, hbehind⟩ := Cursor.between_ascii (by decide : '\\'.toNat < 128) before []
  rw [hcursor, hbehind, text.eq_def]
  dsimp only
  rw [if_neg (by decide), if_pos (by decide)]
  rfl

theorem escapes_ascii {value : Char} (h : unescape? c = some value) :
    c.toNat < 128 ∧ value.toNat < 128 := by
  have hescapes : ∀ e ∈ escapes, e.1.toNat < 128 ∧ e.2.toNat < 128 := by decide
  exact hescapes (c, value) (unescape?_eq_some_iff.mp h)

/-- An escape is told by the first byte of the character. -/
theorem unescape?_byte {b : UInt8} (hb : b ∈ String.utf8EncodeChar c) :
    unescape? (Char.ofUInt8 b) = unescape? c := by
  have hnone {ch : Char} (hch : 128 ≤ ch.toNat) : unescape? ch = none := by
    cases hvalue : unescape? ch with
    | none => rfl
    | some value => exact absurd (escapes_ascii hvalue).1 (Nat.not_lt.mpr hch)
  rcases utf8EncodeChar_cases c with ⟨-, hencode, hsame⟩ | ⟨hc, hbytes⟩
  · rw [hencode, List.mem_singleton] at hb
    rw [hb, hsame]
  · rw [hnone hc, hnone (hbytes b hb)]

/-- Behind a backslash, one byte decides what is read next. -/
theorem text_escape {b : UInt8} {bs : List UInt8} {out : Except Stop (Atom × Cursor)}
    (hc : String.utf8EncodeChar c = b :: bs) (seen : List UInt8) (before cs : List Char)
    (hsome : ∀ value, unescape? c = some value → text (value.toUInt8 :: seen)
      ⟨(utf8 before).length + 2, (Pos.behind (before ++ ['\\'])).afterByte b, bs ++ utf8 cs⟩ = out)
    (hnone : unescape? c = none → .error (.refused ((Pos.behind (before ++ ['\\'])).afterByte b)
      (.flaw (.unknownEscape (Char.ofUInt8 b)))) = out) :
    text seen (.between before ('\\' :: c :: cs)) = out := by
  obtain ⟨hcursor, hbehind⟩ :=
    Cursor.between_ascii (by decide : '\\'.toNat < 128) before (c :: cs)
  obtain ⟨-, hpos, -⟩ := Cursor.mk.inj hbehind
  rw [hpos] at hsome hnone
  rw [hcursor, utf8_cons, hc, List.cons_append, text.eq_def]
  dsimp only
  rw [if_neg (by decide), if_pos (by decide), unescape?_byte (hc ▸ List.mem_cons_self)]
  split
  · next value hvalue => exact hsome value hvalue
  · next hvalue => exact hnone hvalue

theorem text_escaped {value : Char} (hc : unescape? c = some value)
    (content before cs : List Char) :
    text (utf8 content).reverse (.between before ('\\' :: c :: cs)) =
      text (utf8 (content ++ [value])).reverse (.between (before ++ ['\\'] ++ [c]) cs) := by
  obtain ⟨hascii, hvalue⟩ := escapes_ascii hc
  have hcontent : (utf8 (content ++ [value])).reverse =
      value.toUInt8 :: (utf8 content).reverse := by
    rw [utf8_append, utf8_cons, (utf8EncodeChar_of_lt hvalue).1, List.reverse_append]
    rfl
  have hindex : (utf8 before).length + 2 = (utf8 (before ++ ['\\'])).length + 1 := by
    have hone : (utf8 ['\\']).length = 1 := rfl
    rw [utf8_append, List.length_append, hone]
  refine text_escape (utf8EncodeChar_of_lt hascii).1 _ before cs (fun value' hvalue' => ?_) ?_
  · obtain rfl := Option.some.inj (hc.symm.trans hvalue')
    rw [hcontent, (Cursor.between_ascii hascii (before ++ ['\\']) cs).2, hindex, List.nil_append]
  · intro hnone
    cases hc.symm.trans hnone

/-- Any other escape is refused, where and how the reader of characters does. -/
theorem text_unknown (hc : unescape? c = none) (seen : List UInt8) (before cs : List Char) :
    text seen (.between before ('\\' :: c :: cs)) =
      .error (.refused (refuseEscape (.behind (before ++ ['\\'])) c).1
        (.flaw (refuseEscape (.behind (before ++ ['\\'])) c).2)) := by
  obtain ⟨b, bs, hbytes⟩ := List.exists_cons_of_ne_nil (String.utf8EncodeChar_ne_nil (c := c))
  have hpos (pos : Pos) : pos.afterByte b = (refuseEscape pos c).1 := by
    unfold Pos.afterByte refuseEscape
    simp only [byte_eq_iff (by decide : '\n'.toNat < 128) (hbytes ▸ List.mem_cons_self : b ∈ _)]
    split
    · next hnewline => rw [hnewline, Pos.after_newline]
    · rfl
  have hflaw (pos : Pos) : (refuseEscape pos c).2 = .unknownEscape (Char.ofUInt8 b) := by
    unfold refuseEscape
    rw [hbytes, List.headD_cons]
  refine text_escape hbytes seen before cs (fun value hvalue => ?_) fun _ => ?_
  · cases hc.symm.trans hvalue
  · rw [hpos, hflaw]

/-- A text agrees with what it is read to. -/
theorem agrees_text (start : Pos) (content : List Char) (hsource : source.toList = before ++ cs) :
    Agrees source d depth cs.length (Form.atom start)
      (fun nest => reads d ⟨.behind before, .text start content.reverse, nest⟩ cs)
      (text (utf8 content).reverse (.between before cs)) := by
  induction hlength : cs.length using Nat.strongRecOn generalizing content before cs with
  | _ len ih =>
  subst hlength
  cases cs with
  | nil =>
    have htext : text (utf8 content).reverse (.between before []) =
        refuse (.between before []) (.flaw .unterminatedText) := by
      rw [text.eq_def]
      rfl
    rw [htext]
    exact .refused fun nest _ => rfl
  | cons c cs =>
    have hbehind : source.toList = before ++ [c] ++ cs := by rw [hsource, List.append_assoc]; rfl
    by_cases hquote : c = '"'
    · subst hquote
      rw [text_quote]
      refine .read hbehind (Nat.lt_succ_self _) fun nest _ => ?_
      rw [Reader.reads_found ⟨start, .atom (.text (String.ofList content))⟩ .blank
        (by simp [Reading.step]), Pos.behind_snoc]
      rfl
    by_cases hescape : c = '\\'
    · subst hescape
      cases cs with
      | nil =>
        rw [text_incomplete]
        refine .refused fun nest _ => ?_
        rw [Reader.reads_silent (.escape start content.reverse) rfl, ← Pos.behind_snoc]
        rfl
      | cons c cs =>
        cases hc : unescape? c with
        | some value =>
          have hlength : cs.length < ('\\' :: c :: cs).length :=
            Nat.lt_succ_of_lt (Nat.lt_succ_self _)
          have hbehind' : source.toList = before ++ ['\\'] ++ [c] ++ cs := by
            rw [hbehind, List.append_assoc _ [c]]
            rfl
          rw [text_escaped hc]
          refine (ih _ hlength (content ++ [value]) hbehind' rfl).weaken (Nat.le_of_lt hlength)
            fun nest _ => ?_
          rw [Reader.reads_silent (.escape start content.reverse) rfl,
            Reader.reads_silent (.text start (value :: content.reverse))
              (by simp [Reading.step, hc]), Pos.behind_snoc, Pos.behind_snoc, List.reverse_append]
          rfl
        | none =>
          rw [text_unknown hc]
          refine .refused fun nest _ => ?_
          rw [Reader.reads_silent (.escape start content.reverse) rfl, ← Pos.behind_snoc]
          exact Reader.reads_refused (by simp [Reading.step, hc])
    · rw [text_plain hquote hescape]
      refine (ih _ (Nat.lt_succ_self _) (content ++ [c]) hbehind rfl).weaken (Nat.le_succ _)
        fun nest _ => ?_
      rw [Reader.reads_silent (.text start (c :: content.reverse))
        (by simp [Reading.step, hquote, hescape]), Pos.behind_snoc, List.reverse_append]
      rfl

/-! ## Forms -/

/-- With so many steps, the form at a cursor agrees with what it is read to. -/
def FormAgrees (source : String) (d fuel : Nat) : Prop :=
  ∀ (depth : Nat) (before : List Char) (c : Char) (cs : List Char),
    source.toList = before ++ c :: cs → AtToken (c :: cs) → c ≠ ')' →
    2 * (c :: cs).length + 1 ≤ fuel →
    Agrees source d depth (c :: cs).length id
      (fun nest => reads d ⟨.behind before, .blank, nest⟩ (c :: cs))
      (form source d fuel depth (.between before (c :: cs)))

/-- With so many steps, the rest of a list agrees with what it is read to. -/
def ListAgrees (source : String) (d fuel : Nat) : Prop :=
  ∀ (depth : Nat) (before cs : List Char) (start : Pos) (items : List Form),
    source.toList = before ++ cs → 2 * cs.length + 2 ≤ fuel →
    Agrees source d depth (cs.length + 1) id
      (fun nest => reads d ⟨.behind before, .blank, ⟨items, (start, nest.forms) :: nest.outer⟩⟩ cs)
      (list source d fuel depth start items (.between before cs))

variable {fuel : Nat}

section

variable {cursor : Cursor} {first : Char} {items : List Form} {start : Pos}

theorem form_open (h : cursor.skip.current = some '(') :
    form source d (fuel + 1) depth cursor =
      if d ≤ depth then refuse cursor.skip (.flaw .tooDeep)
      else list source d fuel depth cursor.skip.pos [] cursor.skip.advance := by
  rw [form, h]
  rfl

theorem form_atom (h : cursor.skip.current = some first) (hopen : first ≠ '(')
    (hclose : first ≠ ')') :
    form source d (fuel + 1) depth cursor =
      atom source first cursor.skip >>= fun (a, after) =>
        pure (.atom cursor.skip.pos a, after) := by
  rw [form, h]
  dsimp only
  split
  · contradiction
  · next heq => exact absurd (Option.some.inj heq) hopen
  · next heq => exact absurd (Option.some.inj heq) hclose
  · next heq => cases heq; rfl

theorem list_end (h : cursor.skip.current = none) :
    list source d (fuel + 1) depth start items cursor =
      .error (.refused start (.flaw .neverClosed)) := by
  rw [list, h]

theorem list_close (h : cursor.skip.current = some ')') :
    list source d (fuel + 1) depth start items cursor =
      .ok (.list start items.reverse, cursor.skip.advance) := by
  rw [list, h]
  rfl

theorem list_item (h : cursor.skip.current = some first) (hclose : first ≠ ')') :
    list source d (fuel + 1) depth start items cursor =
      form source d fuel (depth + 1) cursor.skip >>= fun (f, after) =>
        list source d fuel depth start (f :: items) after := by
  rw [list, h]
  dsimp only
  split
  · contradiction
  · next heq => exact absurd (Option.some.inj heq) hclose
  · rfl

theorem forms_end (h : cursor.skip.current = none) :
    forms source d (fuel + 1) items cursor = .ok items.reverse := by
  rw [forms, h]

theorem forms_close (h : cursor.skip.current = some ')') :
    forms source d (fuel + 1) items cursor = refuse cursor.skip (.flaw .unmatchedClose) := by
  rw [forms, h]
  rfl

theorem forms_item (h : cursor.skip.current = some first) (hclose : first ≠ ')') :
    forms source d (fuel + 1) items cursor =
      form source d fuel 0 cursor.skip >>= fun (f, after) =>
        forms source d fuel (f :: items) after := by
  rw [forms, h]
  dsimp only
  split
  · contradiction
  · next heq => exact absurd (Option.some.inj heq) hclose
  · rfl

end

theorem formAgrees_succ (hlist : ListAgrees source d fuel) : FormAgrees source d (fuel + 1) := by
  intro depth before c cs hsource htoken hclose hfuel
  have hskip : (Cursor.between before (c :: cs)).skip = _ := Cursor.skip_atToken htoken
  have hbehind : source.toList = before ++ [c] ++ cs := by rw [hsource, List.append_assoc]; rfl
  by_cases hopen : c = '('
  · subst hopen
    rw [form_open (by rw [hskip, Cursor.current_ascii (by decide)]), hskip,
      Cursor.advance_between (by decide)]
    split
    · next hdepth =>
      exact .refused fun nest hnest => Reader.reads_tooDeep (by rw [hnest]; exact hdepth)
    · next hdepth =>
      rw [List.length_cons] at hfuel
      refine (hlist depth _ cs (.behind before) [] hbehind (by omega)).weaken (Nat.le_refl _)
        fun nest hnest => ?_
      rw [Pos.behind_snoc]
      exact Reader.reads_open (by omega)
  by_cases hquote : c = '"'
  · subst hquote
    have hfirst : (Cursor.between before ('"' :: cs)).skip.current = some '"' := by
      rw [hskip, Cursor.current_ascii (by decide)]
    rw [form_atom hfirst (by decide) (by decide), hskip]
    refine Agrees.form ?_
    show Agrees source d depth _ _ _ (text [] (Cursor.between before ('"' :: cs)).advance)
    rw [Cursor.advance_between (by decide)]
    refine (agrees_text (.behind before) [] hbehind).weaken (Nat.le_succ _) fun nest _ => ?_
    rw [Pos.behind_snoc]
    exact Reader.reads_silent _ rfl
  · have hsymbol : isSymbolChar c = true := by
      rw [← Bool.not_eq_false]
      intro hc
      obtain ⟨hblank, hcomment⟩ := htoken c rfl
      rcases not_symbolChar hc with hc | hc | hc | hc | hc
      · exact hopen hc
      · exact hclose hc
      · exact hquote hc
      · exact hcomment hc
      · rw [hblank] at hc
        cases hc
    obtain ⟨word, rest, rfl, hword, hrest⟩ := Text.exists_run isSymbolChar cs
    have hisWord : IsWord source before (c :: word) rest :=
      ⟨hsource, List.forall_mem_cons.mpr ⟨hsymbol, hword⟩, hrest⟩
    obtain ⟨b, hb, hfirst⟩ := Cursor.current_cons before c (word ++ rest)
    rw [form_atom (by rw [hskip, hfirst]) (mt (byte_eq_iff (by decide) hb).mp hopen)
      (mt (byte_eq_iff (by decide) hb).mp hclose), hskip]
    refine Agrees.form ?_
    rw [atom_eq hisWord hfirst]
    exact agrees_taken hisWord (List.cons_ne_nil _ _)

theorem listAgrees_succ (hform : FormAgrees source d fuel) (hlist : ListAgrees source d fuel) :
    ListAgrees source d (fuel + 1) := by
  intro depth before cs start items hsource hfuel
  obtain ⟨before', rest, hplace, hlength, htoken, hskip, hreads⟩ := exists_token hsource
  cases rest with
  | nil =>
    rw [list_end (by rw [hskip, Cursor.current_nil])]
    exact .refused fun nest _ => hreads d _
  | cons c rest =>
    have hbehind : source.toList = before' ++ [c] ++ rest := by
      rw [hplace, List.append_assoc]
      rfl
    rw [List.length_cons] at hlength
    by_cases hclose : c = ')'
    · subst hclose
      rw [list_close (by rw [hskip, Cursor.current_ascii (by decide)]), hskip,
        Cursor.advance_between (by decide)]
      refine .read hbehind (by omega) fun nest _ => ?_
      rw [hreads, Reader.reads_close, Pos.behind_snoc]
      rfl
    · obtain ⟨b, hb, hfirst⟩ := Cursor.current_cons before' c rest
      rw [list_item (by rw [hskip, hfirst]) (mt (byte_eq_iff (by decide) hb).mp hclose), hskip]
      have hitem := hform (depth + 1) before' c rest hplace htoken hclose
        (by rw [List.length_cons]; omega)
      generalize form source d fuel (depth + 1) (.between before' (c :: rest)) = out at hitem ⊢
      cases hitem with
      | refused h => exact .refused fun nest hnest => (hreads d _).trans (h _ (congrArg _ hnest))
      | @read f before'' rest' hsource' hlength' h =>
        rw [List.length_cons] at hlength'
        refine (hlist depth before'' rest' start (f :: items) hsource' (by omega)).weaken
          (by omega) fun nest hnest => ?_
        exact (hreads d _).trans (h _ (congrArg _ hnest))

theorem agrees (source : String) (d fuel : Nat) :
    FormAgrees source d fuel ∧ ListAgrees source d fuel := by
  induction fuel with
  | zero =>
    exact ⟨fun _ _ _ _ _ _ _ h => absurd h (by omega), fun _ _ _ _ _ _ h => absurd h (by omega)⟩
  | succ fuel ih => exact ⟨formAgrees_succ ih.2, listAgrees_succ ih.1 ih.2⟩

/-! ## Sources -/

/-- A source is refused for a flaw. -/
def Stop.ofFlaw (e : Pos × Flaw) : Stop := .refused e.1 (.flaw e.2)

theorem forms_eq (items : List Form) (hsource : source.toList = before ++ cs)
    (hfuel : 2 * cs.length + 2 ≤ fuel) :
    forms source d fuel items (.between before cs) =
      (reads d ⟨.behind before, .blank, ⟨items, []⟩⟩ cs).mapError Stop.ofFlaw := by
  induction fuel generalizing before cs items with
  | zero => omega
  | succ fuel ih =>
    obtain ⟨before', rest, hplace, hlength, htoken, hskip, hreads⟩ := exists_token hsource
    rw [hreads]
    cases rest with
    | nil =>
      rw [forms_end (by rw [hskip, Cursor.current_nil])]
      rfl
    | cons c rest =>
      rw [List.length_cons] at hlength
      by_cases hclose : c = ')'
      · subst hclose
        rw [forms_close (by rw [hskip, Cursor.current_ascii (by decide)]), hskip,
          Reader.reads_unmatched]
        rfl
      · obtain ⟨b, hb, hfirst⟩ := Cursor.current_cons before' c rest
        rw [forms_item (by rw [hskip, hfirst]) (mt (byte_eq_iff (by decide) hb).mp hclose), hskip]
        have hitem := (agrees source d fuel).1 0 before' c rest hplace htoken hclose
          (by rw [List.length_cons]; omega)
        generalize form source d fuel 0 (.between before' (c :: rest)) = out at hitem ⊢
        cases hitem with
        | refused h =>
          rw [h ⟨items, []⟩ rfl]
          rfl
        | @read f before'' rest' hsource' hlength' h =>
          rw [List.length_cons] at hlength'
          rw [h ⟨items, []⟩ rfl]
          exact ih (f :: items) hsource' (by omega)

/-- Both readers come to the same. -/
theorem read_eq (maxDepth : Nat) (source : String) :
    read maxDepth source = (readForms maxDepth source).mapError Stop.ofFlaw := by
  have hfuel : 2 * source.toList.length + 2 ≤ 2 * source.utf8ByteSize + 2 := by
    have hlength := length_le_utf8 source.toList
    rw [length_utf8, String.ofList_toList] at hlength
    omega
  rw [read, Cursor.start_eq, forms_eq [] (List.nil_append _).symm hfuel]
  rfl

/-- The reasons that the guards have. -/
def Reason.guards : List Reason :=
  [.unexpectedEnd, .unexpectedCharacter, .invalidText, .invalidFloat]

/-- The flaws of sources that the reader finds. -/
theorem isOfReading_cases {flaw : Flaw} (h : flaw.isOfReading = true) :
    flaw ∈ [.unmatchedClose, .tooDeep, .neverClosed, .unterminatedText, .incompleteEscape,
        .emptyKeyword, .integerOutOfRange] ∨ ∃ c, flaw = .unknownEscape c := by
  cases flaw with
  | unknownEscape c => exact .inr ⟨c, rfl⟩
  | unmatchedClose | tooDeep | neverClosed | unterminatedText | incompleteEscape | emptyKeyword
  | integerOutOfRange => exact .inl (by decide)
  | _ => cases h

/-- They are told in other words than a guard would use. -/
theorem message_ne_guard {flaw : Flaw} (h : flaw.isOfReading = true) :
    ∀ guard ∈ Reason.guards, flaw.message ≠ guard.message := by
  rcases isOfReading_cases h with h | ⟨c, rfl⟩
  · have hall : ∀ flaw ∈ [Flaw.unmatchedClose, .tooDeep, .neverClosed, .unterminatedText,
        .incompleteEscape, .emptyKeyword, .integerOutOfRange],
        ∀ guard ∈ Reason.guards, flaw.message ≠ guard.message := by decide +kernel
    exact hall flaw h
  · -- they differ in the third letter or in the first
    intro guard hguard heq
    have hmessage : (Flaw.unknownEscape c).message = "unknown escape: \\" ++ c.toString := rfl
    have hfirst : (Flaw.unknownEscape c).message.toList.take 3 = ['u', 'n', 'k'] := by
      simp [hmessage]
    have hother : ∀ guard ∈ Reason.guards, guard.message.toList.take 3 ≠ ['u', 'n', 'k'] := by
      decide +kernel
    exact hother guard hguard (heq ▸ hfirst)

/-- A source is read, or it has one of the flaws that a source can have. The reader never cuts out a
part that does not start and end between characters, and no guard refuses a source. -/
theorem guards_idle (maxDepth : Nat) (source file : String) :
    (∃ forms, read maxDepth source = .ok forms ∧ parse source file maxDepth = .ok forms) ∨
      ∃ pos flaw, read maxDepth source = .error (.refused pos (.flaw flaw)) ∧
        parse source file maxDepth = .error (CompileError.at file source pos flaw.message) ∧
        (flaw ∈ [.unmatchedClose, .tooDeep, .neverClosed, .unterminatedText, .incompleteEscape,
          .emptyKeyword, .integerOutOfRange] ∨ ∃ c, flaw = .unknownEscape c) ∧
        ∀ guard ∈ Reason.guards, flaw.message ≠ guard.message := by
  rw [read_eq, parse]
  cases hread : readForms maxDepth source with
  | ok forms => exact .inl ⟨forms, rfl, rfl⟩
  | error e =>
    have hflaw := readForms_isOfReading maxDepth source e hread
    exact .inr ⟨e.1, e.2, rfl, rfl, isOfReading_cases hflaw, message_ne_guard hflaw⟩

end ByteReader
end Lispbox
