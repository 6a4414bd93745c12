import Lispbox.Proofs.Form.Places

/-!
# Where a source is refused

The reader and the compiler refuse a source at a place. `Settles` says of a computation of either
what holds of its result, and where it is if it is a refusal. The reader keeps a few places, of
lists that are open and of the token it is in the middle of; all of them are on lines of the source
(`Reader.InLines`), so a refusal is as well.

* `readForms_refused`: the line of a refusal is one of those of the source, or the empty one behind
  the last line feed.
* `readForms_isOfReading`: the flaws for which the reader refuses a source.
-/
namespace Lispbox

/-- What is made is as required, or it is refused at a place as required. -/
def Settles {α : Type} (L : Pos → Prop) (P : α → Prop) : Except (Pos × Flaw) α → Prop
  | .ok a => P a
  | .error e => L e.1

section

variable {α β : Type} {L : Pos → Prop} {P : α → Prop} {Q : β → Prop}

theorem settles_bind {x : Except (Pos × Flaw) α} {f : α → Except (Pos × Flaw) β}
    (hx : Settles L P x) (hf : ∀ a, P a → Settles L Q (f a)) : Settles L Q (x >>= f) := by
  cases x with
  | ok a => exact hf a hx
  | error e => exact hx

theorem settles_foldlM {σ : Type} {step : σ → α → Except (Pos × Flaw) σ} {I : σ → Prop}
    (hstep : ∀ s a, I s → P a → Settles L I (step s a)) {as : List α} (has : ∀ a ∈ as, P a) {s : σ}
    (hs : I s) : Settles L I (as.foldlM step s) := by
  induction as generalizing s with
  | nil => exact hs
  | cons a as ih =>
    obtain ⟨ha, has⟩ := List.forall_mem_cons.mp has
    rw [List.foldlM_cons]
    exact settles_bind (hstep s a hs ha) fun s' hs' => ih has hs'

end

/-- The place is on one of the first lines. -/
def Pos.InLines (lines : Nat) (p : Pos) : Prop := 1 ≤ p.line ∧ p.line ≤ lines

/-- Where what is in progress started. -/
def Reading.start? : Reading → Option Pos
  | .blank | .comment => none
  | .word start _ | .text start _ | .escape start _ => some start

variable {lines maxDepth : Nat}

theorem Pos.InLines.after {p : Pos} (h : p.InLines lines) {c : Char}
    (hc : (p.after c).line ≤ lines) : (p.after c).InLines lines := by
  refine ⟨Nat.le_trans h.1 ?_, hc⟩
  unfold Pos.after
  split <;> simp

theorem Pos.line_le_afterAll (p : Pos) (cs : List Char) : p.line ≤ (p.afterAll cs).line := by
  cases cs with
  | nil => exact Nat.le_refl _
  | cons c cs =>
    have h := p.before_afterAll (List.cons_ne_nil c cs)
    unfold Before at h
    omega

/-- What is known of the lexemes that a character completes and of what is in progress then. -/
def Reading.Noted (lines : Nat) (found : List Lexeme × Reading) : Prop :=
  (∀ l ∈ found.1, l.pos.InLines lines) ∧ ∀ p ∈ found.2.start?, p.InLines lines

theorem settles_ofWord {start pos : Pos} (hs : start.InLines lines) (hp : pos.InLines lines)
    (seen : List Char) :
    Settles (Pos.InLines lines) (fun l => l.pos.InLines lines) (Lexeme.ofWord start pos seen) := by
  unfold Lexeme.ofWord
  split
  · exact hs
  · exact hp

theorem noted_begin {pos : Pos} (hp : pos.InLines lines) (c : Char) :
    Reading.Noted lines (Reading.begin pos c) := by
  have silent {next : Reading} (h : ∀ p ∈ next.start?, p.InLines lines) :
      Reading.Noted lines ([], next) := ⟨fun l hl => (by cases hl), h⟩
  have one (token : Token) : Reading.Noted lines ([⟨pos, token⟩], .blank) :=
    ⟨List.forall_mem_singleton.mpr hp, fun p h => (by cases h)⟩
  have here {p : Pos} (h : p = pos) : p.InLines lines := h ▸ hp
  unfold Reading.begin
  split
  · exact silent fun p h => (by cases h)
  · split
    · exact one .openList
    · exact one .closeList
    · exact silent fun p h => here (Option.some.inj h).symm
    · exact silent fun p h => (by cases h)
    · exact silent fun p h => here (Option.some.inj h).symm

/-- A character is refused at its own place or at the next one. -/
theorem settles_readingStep {r : Reading} {pos : Pos} {c : Char} (hp : pos.InLines lines)
    (hc : (pos.after c).line ≤ lines) (hr : ∀ p ∈ r.start?, p.InLines lines) :
    Settles (Pos.InLines lines) (Reading.Noted lines) (r.step pos c) := by
  have silent {next : Reading} (h : ∀ p ∈ next.start?, p.InLines lines) :
      Reading.Noted lines ([], next) := ⟨fun l hl => (by cases hl), h⟩
  cases r with
  | blank => exact noted_begin hp c
  | comment =>
    refine silent fun p h => ?_
    split at h <;> cases h
  | word start seen =>
    rw [Reading.step]
    split
    · exact silent hr
    · have hword := settles_ofWord (hr _ rfl) hp seen
      cases hl : Lexeme.ofWord start pos seen with
      | error e =>
        rw [hl] at hword
        exact hword
      | ok l =>
        rw [hl] at hword
        have hbegin := noted_begin hp c
        exact ⟨List.forall_mem_cons.mpr ⟨hword, hbegin.1⟩, hbegin.2⟩
  | text start seen =>
    rw [Reading.step]
    split
    · exact ⟨List.forall_mem_singleton.mpr (hr _ rfl), fun p h => by cases h⟩
    · split
      · exact silent hr
      · exact silent hr
  | escape start seen =>
    rw [Reading.step]
    split
    · exact silent hr
    · show Pos.InLines lines (if c = '\n' then pos.after c else ⟨pos.line, pos.column + 1⟩)
      split
      · exact hp.after hc
      · exact hp

/-- The open lists start on lines of the source. -/
def Nest.InLines (lines : Nat) (n : Nest) : Prop := ∀ o ∈ n.outer, o.1.InLines lines

theorem settles_take {n : Nest} {l : Lexeme} (hn : n.InLines lines) (hl : l.pos.InLines lines) :
    Settles (Pos.InLines lines) (Nest.InLines lines) (n.take maxDepth l) := by
  unfold Nest.take
  split
  · exact hn
  · split
    · exact hl
    · exact List.forall_mem_cons.mpr ⟨hl, hn⟩
  · split
    · exact hl
    · next houter =>
      rw [Nest.InLines, houter] at hn
      exact (List.forall_mem_cons.mp hn).2

/-- All places that the reader knows are on lines of the source. -/
structure Reader.InLines (lines : Nat) (r : Reader) : Prop where
  pos : r.pos.InLines lines
  reading : ∀ p ∈ r.reading.start?, p.InLines lines
  nest : r.nest.InLines lines

namespace Reader

variable {r : Reader} {c : Char} {cs : List Char}

theorem settles_step (h : r.InLines lines) (hc : (r.pos.after c).line ≤ lines) :
    Settles (Pos.InLines lines) (fun s => s.InLines lines ∧ s.pos = r.pos.after c)
      (r.step maxDepth c) := by
  refine settles_bind (settles_readingStep h.pos hc h.reading) fun (found, next) hnoted => ?_
  exact settles_bind (settles_foldlM (fun n l => settles_take) hnoted.1 h.nest) fun n hn =>
    ⟨⟨h.pos.after hc, hnoted.2, hn⟩, rfl⟩

theorem settles_run (h : r.InLines lines) (hcs : (r.pos.afterAll cs).line ≤ lines) :
    Settles (Pos.InLines lines) (InLines lines) (r.run maxDepth cs) := by
  induction cs generalizing r with
  | nil => exact h
  | cons c cs ih =>
    have hc : (r.pos.after c).line ≤ lines :=
      Nat.le_trans ((r.pos.after c).line_le_afterAll cs) hcs
    unfold Reader.run
    rw [List.foldlM_cons]
    refine settles_bind (settles_step h hc) fun s hs => ?_
    exact ih hs.1 (by rw [hs.2]; exact hcs)

theorem settles_finish (h : r.InLines lines) :
    Settles (Pos.InLines lines) (fun _ => True) (r.finish maxDepth) := by
  have hfound : Settles (Pos.InLines lines) (fun ls => ∀ l ∈ ls, l.pos.InLines lines)
      (r.reading.finish r.pos) := by
    obtain ⟨pos, reading, nest⟩ := r
    cases reading with
    | word start seen =>
      have hword := settles_ofWord (h.reading _ rfl) h.pos seen
      rw [Reading.finish]
      cases hl : Lexeme.ofWord start pos seen with
      | error e =>
        rw [hl] at hword
        exact hword
      | ok l =>
        rw [hl] at hword
        exact List.forall_mem_singleton.mpr hword
    | blank => exact fun l hl => by cases hl
    | comment => exact fun l hl => by cases hl
    | text start seen => exact h.pos
    | escape start seen => exact h.pos
  refine settles_bind hfound fun found hls => ?_
  refine settles_bind (settles_foldlM (fun n l => settles_take) hls h.nest) fun n hn => ?_
  unfold Nest.finish
  split
  · trivial
  · next houter => exact hn _ (by rw [houter]; exact List.mem_cons_self)

end Reader

/-- A source is refused on one of its lines. -/
theorem readForms_refused {source : String} {e : Pos × Flaw}
    (h : readForms maxDepth source = .error e) :
    e.1.InLines (1 + source.toList.count '\n') := by
  have hend : (Pos.start.afterAll source.toList).line = 1 + source.toList.count '\n' := by
    rw [Pos.afterAll_start]
    rfl
  have hstart : Reader.start.InLines (1 + source.toList.count '\n') :=
    ⟨⟨Nat.le_refl 1, Nat.le_add_right 1 _⟩, fun p h => (by cases h), fun o h => (by cases h)⟩
  have hsettles : Settles (Pos.InLines (1 + source.toList.count '\n')) (fun _ => True)
      (readForms maxDepth source) :=
    settles_bind (Reader.settles_run hstart (Nat.le_of_eq hend))
      fun r hr => Reader.settles_finish hr
  rw [h] at hsettles
  exact hsettles

/-! ## Why a source is refused -/

/-- The flaw is found in the middle of a source: at a character, or at the end of a word. -/
def Flaw.isMidway : Flaw → Bool
  | .unmatchedClose | .tooDeep | .unknownEscape _ | .emptyKeyword | .integerOutOfRange => true
  | _ => false

/-- The flaw is found in the midst of a token, or by a token. -/
def Flaw.isOfToken : Flaw → Bool
  | .unterminatedText | .incompleteEscape => true
  | flaw => flaw.isMidway

/-- The flaw is found by the reader. -/
def Flaw.isOfReading : Flaw → Bool
  | .neverClosed => true
  | flaw => flaw.isOfToken

theorem Flaw.isOfToken_of_isMidway {flaw : Flaw} (h : flaw.isMidway = true) :
    flaw.isOfToken = true := by
  unfold isOfToken
  split
  · rfl
  · rfl
  · exact h

theorem Flaw.isOfReading_of_isOfToken {flaw : Flaw} (h : flaw.isOfToken = true) :
    flaw.isOfReading = true := by
  unfold isOfReading
  split
  · rfl
  · exact h

/-- A refusal comes from the first part of a computation, or from what it goes on with. -/
theorem error_of_bind {α β : Type} {x : Except (Pos × Flaw) α} {f : α → Except (Pos × Flaw) β}
    {e : Pos × Flaw} (h : x >>= f = .error e) : x = .error e ∨ ∃ a, x = .ok a ∧ f a = .error e := by
  cases x with
  | ok a => exact .inr ⟨a, rfl, h⟩
  | error e' =>
    cases h
    exact .inl rfl

/-- A result comes from both parts. -/
theorem ok_of_bind {α β : Type} {x : Except (Pos × Flaw) α} {f : α → Except (Pos × Flaw) β}
    {b : β} (h : x >>= f = .ok b) : ∃ a, x = .ok a ∧ f a = .ok b := by
  cases x with
  | ok a => exact ⟨a, rfl, h⟩
  | error e => cases h

/-- If the computation comes to a refusal, its flaw is as required. -/
def RefusedFor {α : Type} (Q : Flaw → Bool) (x : Except (Pos × Flaw) α) : Prop :=
  ∀ e, x = .error e → Q e.2 = true

section

variable {α β : Type} {Q R : Flaw → Bool}

theorem refusedFor_ok (a : α) : RefusedFor Q (.ok a) := fun _ h => by cases h

theorem refusedFor_error {pos : Pos} {flaw : Flaw} (h : Q flaw = true) :
    RefusedFor (α := α) Q (.error (pos, flaw)) := fun _ he => by cases he; exact h

theorem RefusedFor.mono {x : Except (Pos × Flaw) α} (h : RefusedFor Q x)
    (hQR : ∀ flaw, Q flaw = true → R flaw = true) : RefusedFor R x :=
  fun e he => hQR e.2 (h e he)

theorem refusedFor_bind {x : Except (Pos × Flaw) α} {f : α → Except (Pos × Flaw) β}
    (hx : RefusedFor Q x) (hf : ∀ a, RefusedFor Q (f a)) : RefusedFor Q (x >>= f) := by
  intro e h
  rcases error_of_bind h with h | ⟨a, -, h⟩
  · exact hx e h
  · exact hf a e h

theorem refusedFor_foldlM {step : β → α → Except (Pos × Flaw) β}
    (hstep : ∀ b a, RefusedFor Q (step b a)) (as : List α) (b : β) :
    RefusedFor Q (as.foldlM step b) := by
  induction as generalizing b with
  | nil => exact refusedFor_ok b
  | cons a as ih =>
    rw [List.foldlM_cons]
    exact refusedFor_bind (hstep b a) ih

end

/-- A word is refused as a keyword or as an integer. -/
theorem refusedFor_ofWord (start pos : Pos) (seen : List Char) :
    RefusedFor Flaw.isMidway (Lexeme.ofWord start pos seen) := by
  have hword (word : List Char) {flaw : Flaw} (h : Atom.ofWord word = .error flaw) :
      flaw.isMidway = true := by
    unfold Atom.ofWord at h
    split at h
    · cases h
      rfl
    · cases h
    · split at h
      · split at h
        · cases h
        · cases h
          rfl
      · split at h
        · cases h
        · split at h <;> cases h
  unfold Lexeme.ofWord
  split
  · exact refusedFor_ok _
  · next hflaw => exact refusedFor_error (hword _ hflaw)

theorem refusedFor_take (maxDepth : Nat) (n : Nest) (l : Lexeme) :
    RefusedFor Flaw.isMidway (n.take maxDepth l) := by
  unfold Nest.take
  split
  · exact refusedFor_ok _
  · split
    · exact refusedFor_error rfl
    · exact refusedFor_ok _
  · split
    · exact refusedFor_error rfl
    · exact refusedFor_ok _

theorem refusedFor_readingStep (r : Reading) (pos : Pos) (c : Char) :
    RefusedFor Flaw.isMidway (r.step pos c) := by
  cases r with
  | blank => exact refusedFor_ok _
  | comment => exact refusedFor_ok _
  | word start seen =>
    have hword := refusedFor_ofWord start pos seen
    rw [Reading.step]
    split
    · exact refusedFor_ok _
    · split
      · exact refusedFor_ok _
      · next e he => exact fun e' h => by cases h; exact hword e he
  | text start seen =>
    rw [Reading.step]
    split
    · exact refusedFor_ok _
    · split <;> exact refusedFor_ok _
  | escape start seen =>
    rw [Reading.step]
    split
    · exact refusedFor_ok _
    · exact refusedFor_error rfl

theorem refusedFor_readingFinish (r : Reading) (pos : Pos) :
    RefusedFor Flaw.isOfToken (r.finish pos) := by
  cases r with
  | blank => exact refusedFor_ok _
  | comment => exact refusedFor_ok _
  | word start seen =>
    rw [Reading.finish]
    cases hl : Lexeme.ofWord start pos seen with
    | ok l => exact refusedFor_ok _
    | error e =>
      exact fun e' h => by
        cases h
        exact Flaw.isOfToken_of_isMidway (refusedFor_ofWord start pos seen e hl)
  | text start seen => exact refusedFor_error rfl
  | escape start seen => exact refusedFor_error rfl

/-- The only flaw of a nest itself is a list that is open at the end: the innermost one. -/
theorem Nest.finish_error {n : Nest} {e : Pos × Flaw} (h : n.finish = .error e) :
    e.2 = .neverClosed ∧ ∃ before outer, n.outer = (e.1, before) :: outer := by
  unfold Nest.finish at h
  split at h
  · cases h
  · next pos before outer houter =>
    cases h
    exact ⟨rfl, before, outer, houter⟩

namespace Reader

theorem refusedFor_run (r : Reader) (cs : List Char) :
    RefusedFor Flaw.isMidway (r.run maxDepth cs) := by
  refine refusedFor_foldlM (fun r c => ?_) cs r
  refine refusedFor_bind (refusedFor_readingStep r.reading r.pos c) fun (found, next) => ?_
  exact refusedFor_bind (refusedFor_foldlM (refusedFor_take maxDepth) found r.nest) fun n =>
    refusedFor_ok _

theorem refusedFor_finish (r : Reader) : RefusedFor Flaw.isOfReading (r.finish maxDepth) := by
  have hfound := (refusedFor_readingFinish r.reading r.pos).mono fun _ =>
    Flaw.isOfReading_of_isOfToken
  refine refusedFor_bind hfound fun found => ?_
  have hnest := (refusedFor_foldlM (refusedFor_take maxDepth) found r.nest).mono fun _ h =>
    Flaw.isOfReading_of_isOfToken (Flaw.isOfToken_of_isMidway h)
  refine refusedFor_bind hnest fun n e h => ?_
  rw [(Nest.finish_error h).1]
  rfl

end Reader

/-- The reader finds no other flaws. -/
theorem readForms_isOfReading (maxDepth : Nat) (source : String) :
    RefusedFor Flaw.isOfReading (readForms maxDepth source) :=
  refusedFor_bind ((Reader.refusedFor_run _ _).mono fun _ h =>
    Flaw.isOfReading_of_isOfToken (Flaw.isOfToken_of_isMidway h)) fun r => r.refusedFor_finish

end Lispbox
