import Lispbox.Proofs.Form.Cursors
import Lispbox.Proofs.Form.Scanning
import Lispbox.Proofs.Form.Word
import Lispbox.Proofs.Text.Numerals

/-!
# Words by their bytes

How the reader of bytes takes a word that starts at a cursor between two characters: it finds out by
its bytes what kind of word it is, cuts it out and converts it. A number is scanned first for its
sign, its digits, and a point with digits; if the word does not end there, it is a symbol, which is
scanned again from its start.

* `atom_eq`: a word is taken for what `Atom.ofWord` takes it for, with the cursor behind it. So it
  is cut out between characters, is not empty, and what is taken for a number with a point is one.
-/
namespace Lispbox

variable {source : String} {before word rest cs : List Char} {c : Char}

/-! ## Words -/

theorem isSymbolChar_of_isDigit (h : c.isDigit = true) : isSymbolChar c = true := by
  rw [← Bool.not_eq_false]
  intro hc
  rcases not_symbolChar hc with rfl | rfl | rfl | rfl | hblank
  any_goals cases h
  simp only [Text.isAsciiBlank, Bool.or_eq_true, beq_iff_eq] at hblank
  rcases hblank with (((rfl | rfl) | rfl) | rfl) | rfl <;> cases h

theorem Apart.no_digit (h : Apart rest) : ∀ c ∈ rest.head?, c.isDigit = false := by
  intro c hc
  have hsymbol := h c hc
  rw [← Bool.not_eq_true] at hsymbol ⊢
  exact fun hdigit => hsymbol (isSymbolChar_of_isDigit hdigit)

theorem Apart.append_no_digit {more : List Char} (h : Apart rest)
    (hmore : ∀ c ∈ more.head?, c.isDigit = false) :
    ∀ c ∈ (more ++ rest).head?, c.isDigit = false := by
  cases more with
  | nil => exact h.no_digit
  | cons c more => exact hmore

theorem Apart.any_head (h : Apart rest) : rest.head?.any isSymbolChar = false := by
  cases rest with
  | nil => rfl
  | cons c rest => exact h c rfl

namespace ByteReader

/-- What a word is taken for, with the cursor behind it. -/
def taken (before word rest : List Char) : Except Stop (Atom × Cursor) :=
  match Atom.ofWord word with
  | .ok a => .ok (a, .between (before ++ word) rest)
  | .error flaw => .error (.refused (.behind (before ++ word)) (.flaw flaw))

/-- A word in a source: all of it is made of what words are made of, and it ends there. -/
structure IsWord (source : String) (before word rest : List Char) : Prop where
  source_eq : source.toList = before ++ (word ++ rest)
  symbols : ∀ c ∈ word, isSymbolChar c = true
  apart : Apart rest

theorem keyword_eq (h : IsWord source before (':' :: word) rest) :
    keyword source (.between before (':' :: (word ++ rest))) = taken before (':' :: word) rest := by
  have hsource : source.toList = before ++ [':'] ++ (word ++ rest) := by
    rw [h.source_eq, List.append_assoc]
    rfl
  have hword : before ++ ':' :: word = before ++ [':'] ++ word := by rw [List.append_assoc]; rfl
  rw [keyword, Cursor.advance_between (by decide), Cursor.advanceWhile_between _ coarse_isSymbolChar
    (fun c hc => h.symbols c (List.mem_cons_of_mem _ hc)) h.apart, taken, hword]
  cases word with
  | nil =>
    rw [if_pos ((Cursor.index_eq_iff _ _ _ _).mpr rfl)]
    rfl
  | cons c word =>
    rw [if_neg fun heq => List.cons_ne_nil _ _ ((Cursor.index_eq_iff _ _ _ _).mp heq),
      slice_between hsource]
    rfl

theorem ofWord_named (hcolon : word.head? ≠ some ':') (hwhole : ¬ IsWhole word)
    (hpointed : ¬ IsPointed word) : Atom.ofWord word = .ok (named (String.ofList word)) := by
  by_cases hreserved : word ∈ reservedWords
  · simp only [reservedWords, List.mem_cons, List.not_mem_nil, or_false] at hreserved
    rcases hreserved with rfl | rfl | rfl <;> rfl
  · have hname {name : String} (hmem : name.toList ∈ reservedWords) :
        String.ofList word ≠ name := by
      rintro rfl
      rw [String.toList_ofList] at hmem
      exact hreserved hmem
    rw [Atom.ofWord_of_spelled (.symbol hcolon hwhole hpointed hreserved)]
    unfold named
    split
    · next h => exact absurd h (hname (by decide))
    · next h => exact absurd h (hname (by decide))
    · next h => exact absurd h (hname (by decide))
    · rfl

/-- A word that is no keyword and no number is taken for a symbol, or for the value that it stands
for. -/
theorem symbol_eq (h : IsWord source before word rest) (hne : word ≠ [])
    (hcolon : word.head? ≠ some ':') (hwhole : ¬ IsWhole word) (hpointed : ¬ IsPointed word) :
    symbol source (.between before (word ++ rest)) = taken before word rest := by
  rw [symbol, Cursor.advanceWhile_between _ coarse_isSymbolChar h.symbols h.apart, taken,
    ofWord_named hcolon hwhole hpointed,
    if_neg fun heq => hne ((Cursor.index_eq_iff _ _ _ _).mp heq), slice_between h.source_eq]
  rfl

/-! ## Numbers -/

/-- All of the sign in front of `ds` is `sign`. -/
def Leads (sign : Sign) (ds : List Char) : Prop :=
  sign = .none → ∀ c ∈ ds.head?, c ≠ '-' ∧ c ≠ '+'

theorem exists_leads (word : List Char) :
    ∃ sign ds, word = Sign.chars sign ++ ds ∧ Leads sign ds := by
  cases word with
  | nil => exact ⟨.none, [], rfl, fun _ => nofun⟩
  | cons c word =>
    by_cases hminus : c = '-'
    · exact ⟨.minus, word, by rw [hminus]; rfl, nofun⟩
    · by_cases hplus : c = '+'
      · exact ⟨.plus, word, by rw [hplus]; rfl, nofun⟩
      · refine ⟨.none, c :: word, rfl, fun _ c' hc' => ?_⟩
        cases hc'
        exact ⟨hminus, hplus⟩

variable {sign : Sign} {ds whole fraction tail : List Char}

theorem splitSign_leads (h : Leads sign ds) :
    Text.splitSign (sign.chars ++ ds) = (sign.isMinus, ds) := by
  cases sign with
  | none =>
    rw [Sign.chars, List.nil_append]
    unfold Text.splitSign
    split
    · exact absurd rfl (h rfl '-' rfl).1
    · exact absurd rfl (h rfl '+' rfl).2
    · rfl
  | plus => rfl
  | minus => rfl

theorem Leads.append (h : Leads sign ds) (hne : sign.chars ++ ds ≠ []) (cs : List Char) :
    Leads sign (ds ++ cs) := by
  cases ds with
  | nil =>
    rintro rfl
    exact absurd rfl hne
  | cons c ds => exact h

theorem isDigits_of_isWhole (h : Leads sign ds) (hword : IsWhole (sign.chars ++ ds)) :
    Text.isDigits ds = true := by
  obtain ⟨sign', digits, hword, hdigits⟩ := hword
  have hsplit := splitSign_leads h
  obtain ⟨c, cs, rfl, hc⟩ := digits_head hdigits
  rw [hword, splitSign_of_digit sign' cs hc] at hsplit
  rw [← (Prod.mk.inj hsplit).2]
  exact hdigits

/-- In a number with a point, the point stands where the first digits end. -/
theorem point_of_isPointed (h : Leads sign (whole ++ tail))
    (hrun : ∀ c ∈ whole, c.isDigit = true) (htail : ∀ c ∈ tail.head?, c.isDigit = false)
    (hword : IsPointed (sign.chars ++ (whole ++ tail))) :
    whole ≠ [] ∧ ∃ fraction, tail = '.' :: fraction ∧ Text.isDigits fraction = true := by
  obtain ⟨sign', whole', fraction, hword, hwhole', hfraction⟩ := hword
  have hsplit := splitSign_leads h
  obtain ⟨c, cs, rfl, hc⟩ := digits_head hwhole'
  rw [hword, List.cons_append, splitSign_of_digit sign' _ hc] at hsplit
  obtain ⟨rfl, rfl⟩ := Text.run_unique (Prod.mk.inj hsplit).2.symm hrun htail (digits_all hwhole')
    (point_not_digit fraction)
  exact ⟨List.cons_ne_nil c cs, fraction, rfl, hfraction⟩

theorem not_isWhole (h : Leads sign ds) (hc : c ∈ ds) (hdigit : c.isDigit = false) :
    ¬ IsWhole (sign.chars ++ ds) := by
  intro hword
  rw [digits_all (isDigits_of_isWhole h hword) c hc] at hdigit
  cases hdigit

/-- The number starts behind its sign. -/
theorem afterSign_between (h : Leads sign cs) :
    afterSign (.between before (sign.chars ++ cs)) = .between (before ++ sign.chars) cs := by
  unfold afterSign
  cases sign with
  | none =>
    rw [if_neg, Sign.chars, List.nil_append, List.append_nil]
    rintro (hc | hc)
    · exact (h rfl _ ((Cursor.current_eq_iff (by decide)).mp hc)).1 rfl
    · exact (h rfl _ ((Cursor.current_eq_iff (by decide)).mp hc)).2 rfl
  | plus =>
    rw [if_pos (.inr (Cursor.current_ascii (by decide)))]
    exact Cursor.advance_between (by decide)
  | minus =>
    rw [if_pos (.inl (Cursor.current_ascii (by decide)))]
    exact Cursor.advance_between (by decide)

/-- Without digits there is no number. -/
theorem number_symbol (h : Leads sign cs) (hcs : ∀ c ∈ cs.head?, c.isDigit = false) :
    number source (.between before (sign.chars ++ cs)) =
      symbol source (.between before (sign.chars ++ cs)) := by
  have hnone : (Cursor.between (before ++ sign.chars) ([] ++ cs)).advanceWhile Char.isDigit =
      .between (before ++ sign.chars ++ []) cs :=
    Cursor.advanceWhile_between _ coarse_isDigit nofun hcs
  rw [List.nil_append, List.append_nil] at hnone
  unfold number
  dsimp only
  rw [afterSign_between h, hnone, bne_self_eq_false, Bool.not_false, Bool.true_or, if_pos rfl]

/-- Digits that no point and digit follow are an integer, if the word ends there. -/
theorem number_whole (h : Leads sign (whole ++ tail)) (hwhole : Text.isDigits whole = true)
    (htail : ∀ c ∈ tail.head?, c.isDigit = false)
    (hpoint : ∀ more, tail = '.' :: more → ∀ c ∈ more.head?, c.isDigit = false) :
    number source (.between before (sign.chars ++ (whole ++ tail))) =
      if tail.head?.any isSymbolChar then
        symbol source (.between before (sign.chars ++ (whole ++ tail)))
      else numeral source false (.between before (sign.chars ++ (whole ++ tail)))
        (.between (before ++ sign.chars ++ whole) tail) := by
  have hrun := Cursor.advanceWhile_between (before ++ sign.chars) coarse_isDigit
    (digits_all hwhole) htail
  have hne : whole ≠ [] := by
    rintro rfl
    cases hwhole
  have hfloat : ((Cursor.between (before ++ sign.chars ++ whole) tail).current == some '.' &&
      (Cursor.between (before ++ sign.chars ++ whole) tail).peek.any Char.isDigit) = false := by
    rw [Bool.and_eq_false_imp]
    intro hcurrent
    obtain ⟨more, rfl⟩ := List.head?_eq_some_iff.mp
      ((Cursor.current_eq_iff (by decide)).mp (beq_iff_eq.mp hcurrent))
    rw [Cursor.peek_between (by decide), Cursor.any_current coarse_isDigit, Option.any_eq_false]
    intro c hc
    rw [hpoint more rfl c hc]
  unfold number
  dsimp only
  rw [afterSign_between h, hrun, bne_iff_ne.mpr (mt (Cursor.index_eq_iff _ _ _ _).mp hne),
    Bool.true_and, hfloat, Bool.not_true, Bool.false_or, if_neg Bool.false_ne_true,
    Cursor.any_current coarse_isSymbolChar]

/-- Digits that a point and digits follow are a number with a point, if the word ends there. -/
theorem number_pointed (h : Leads sign (whole ++ '.' :: (fraction ++ tail)))
    (hwhole : Text.isDigits whole = true) (hfraction : Text.isDigits fraction = true)
    (htail : ∀ c ∈ tail.head?, c.isDigit = false) :
    number source (.between before (sign.chars ++ (whole ++ '.' :: (fraction ++ tail)))) =
      if tail.head?.any isSymbolChar then
        symbol source (.between before (sign.chars ++ (whole ++ '.' :: (fraction ++ tail))))
      else numeral source true
        (.between before (sign.chars ++ (whole ++ '.' :: (fraction ++ tail))))
        (.between (before ++ sign.chars ++ whole ++ ['.'] ++ fraction) tail) := by
  have hrun := Cursor.advanceWhile_between (before ++ sign.chars) coarse_isDigit
    (digits_all hwhole) (point_not_digit (fraction ++ tail))
  have hbehind := Cursor.advanceWhile_between (before ++ sign.chars ++ whole ++ ['.'])
    coarse_isDigit (digits_all hfraction) htail
  have hne : whole ≠ [] := by
    rintro rfl
    cases hwhole
  have hdigit : (fraction ++ tail).head?.any Char.isDigit = true := by
    obtain ⟨c, cs, rfl, hc⟩ := digits_head hfraction
    exact hc
  unfold number
  dsimp only
  rw [afterSign_between h, hrun, bne_iff_ne.mpr (mt (Cursor.index_eq_iff _ _ _ _).mp hne),
    Cursor.current_ascii (by decide), Cursor.peek_between (by decide),
    Cursor.any_current coarse_isDigit, hdigit, beq_self_eq_true, Bool.and_self, Bool.and_self,
    Bool.not_true, Bool.false_or, if_pos rfl, Cursor.advance_between (by decide), hbehind,
    Cursor.any_current coarse_isSymbolChar]

theorem ok_bind {ε α β : Type} (a : α) (f : α → Except ε β) : (Except.ok a >>= f) = f a := rfl

theorem numeral_integer (h : source.toList = before ++ (word ++ rest)) (hword : IsWhole word) :
    numeral source false (.between before (word ++ rest)) (.between (before ++ word) rest) =
      taken before word rest := by
  obtain ⟨sign, digits, rfl, hdigits⟩ := hword
  obtain ⟨c, cs, hcons, hc⟩ := digits_head hdigits
  have hcolon : (sign.chars ++ digits).head? ≠ some ':' := hcons ▸ sign_head sign cs hc
  rw [numeral, slice_between h, taken, Atom.ofWord_of_head hcolon, ofSigned?_signed sign hdigits]
  rw [ok_bind, if_neg Bool.false_ne_true, Integer.ofText?, String.toList_ofList,
    ofSigned?_signed sign hdigits, Option.bind_some]
  dsimp only
  cases Integer.fit? (Integer.signed sign.isMinus (Text.cappedValue word64 digits)) <;> rfl

theorem numeral_float (h : source.toList = before ++ (word ++ rest)) (hword : IsPointed word) :
    numeral source true (.between before (word ++ rest)) (.between (before ++ word) rest) =
      taken before word rest := by
  obtain ⟨sign, whole, fraction, rfl, hwhole, hfraction⟩ := id hword
  have hvalue := Decimal.ofText_pointed sign hwhole hfraction
  rw [numeral, slice_between h, taken, Atom.ofWord_of_spelled (.float hword hvalue)]
  rw [ok_bind, if_pos rfl, hvalue]
  rfl

/-- What has no digit behind its sign is a symbol. -/
theorem symbol_eq_of_no_digit (h : IsWord source before (sign.chars ++ tail) rest)
    (hne : sign.chars ++ tail ≠ []) (hcolon : (sign.chars ++ tail).head? ≠ some ':')
    (hsign : Leads sign tail) (htail : ∀ c ∈ tail.head?, c.isDigit = false) :
    symbol source (.between before (sign.chars ++ tail ++ rest)) =
      taken before (sign.chars ++ tail) rest := by
  have hwhole : ¬ IsWhole (sign.chars ++ tail) := by
    intro hword
    obtain ⟨c, cs, rfl, hc⟩ := digits_head (isDigits_of_isWhole hsign hword)
    rw [htail c rfl] at hc
    cases hc
  have hpointed : ¬ IsPointed (sign.chars ++ ([] ++ tail)) := fun hword =>
    (point_of_isPointed hsign (List.forall_mem_nil _) htail hword).1 rfl
  exact symbol_eq h hne hcolon hwhole hpointed

theorem number_eq_whole (h : IsWord source before (sign.chars ++ (whole ++ tail)) rest)
    (hne : sign.chars ++ (whole ++ tail) ≠ [])
    (hcolon : (sign.chars ++ (whole ++ tail)).head? ≠ some ':') (hsign : Leads sign (whole ++ tail))
    (hwhole : Text.isDigits whole = true) (htail : ∀ c ∈ tail.head?, c.isDigit = false)
    (hpoint : ∀ more, tail = '.' :: more → ∀ c ∈ more.head?, c.isDigit = false) :
    number source (.between before (sign.chars ++ (whole ++ tail) ++ rest)) =
      taken before (sign.chars ++ (whole ++ tail)) rest := by
  have hcs : sign.chars ++ (whole ++ tail) ++ rest = sign.chars ++ (whole ++ (tail ++ rest)) := by
    simp only [List.append_assoc]
  have hleads := hsign.append hne rest
  rw [List.append_assoc] at hleads
  have hrest : ∀ more, tail ++ rest = '.' :: more → ∀ c ∈ more.head?, c.isDigit = false := by
    intro more hmore
    cases tail with
    | nil =>
      rw [List.nil_append] at hmore
      have := h.apart '.' (by rw [hmore]; rfl)
      cases this
    | cons c tail =>
      obtain ⟨rfl, rfl⟩ := List.cons.inj hmore
      exact h.apart.append_no_digit (hpoint tail rfl)
  rw [hcs, number_whole hleads hwhole (h.apart.append_no_digit htail) hrest, ← hcs]
  cases tail with
  | nil =>
    have hword : IsWhole (sign.chars ++ (whole ++ [])) :=
      ⟨sign, whole, by rw [List.append_nil], hwhole⟩
    rw [List.nil_append, h.apart.any_head, if_neg Bool.false_ne_true,
      ← numeral_integer h.source_eq hword]
    simp only [List.append_nil, List.append_assoc]
  | cons c tail =>
    have hpointed : ¬ IsPointed (sign.chars ++ (whole ++ c :: tail)) := by
      intro hword
      obtain ⟨-, fraction, hfraction, hdigits⟩ :=
        point_of_isPointed hsign (digits_all hwhole) htail hword
      obtain ⟨d, ds, rfl, hd⟩ := digits_head hdigits
      rw [hpoint _ hfraction d rfl] at hd
      cases hd
    have hmem : c ∈ whole ++ c :: tail := List.mem_append_right _ List.mem_cons_self
    rw [List.cons_append, List.head?_cons, Option.any_some,
      h.symbols c (List.mem_append_right _ hmem), if_pos rfl]
    exact symbol_eq h hne hcolon (not_isWhole hsign hmem (htail c rfl)) hpointed

theorem number_eq_pointed
    (h : IsWord source before (sign.chars ++ (whole ++ '.' :: (fraction ++ tail))) rest)
    (hne : sign.chars ++ (whole ++ '.' :: (fraction ++ tail)) ≠ [])
    (hcolon : (sign.chars ++ (whole ++ '.' :: (fraction ++ tail))).head? ≠ some ':')
    (hsign : Leads sign (whole ++ '.' :: (fraction ++ tail)))
    (hwhole : Text.isDigits whole = true) (hfraction : Text.isDigits fraction = true)
    (htail : ∀ c ∈ tail.head?, c.isDigit = false) :
    number source (.between before (sign.chars ++ (whole ++ '.' :: (fraction ++ tail)) ++ rest)) =
      taken before (sign.chars ++ (whole ++ '.' :: (fraction ++ tail))) rest := by
  have hcs : sign.chars ++ (whole ++ '.' :: (fraction ++ tail)) ++ rest =
      sign.chars ++ (whole ++ '.' :: (fraction ++ (tail ++ rest))) := by
    simp only [List.append_assoc, List.cons_append]
  have hleads := hsign.append hne rest
  rw [List.append_assoc, List.cons_append, List.append_assoc] at hleads
  rw [hcs, number_pointed hleads hwhole hfraction (h.apart.append_no_digit htail), ← hcs]
  cases tail with
  | nil =>
    have hword : IsPointed (sign.chars ++ (whole ++ '.' :: (fraction ++ []))) :=
      ⟨sign, whole, fraction, by rw [List.append_nil], hwhole, hfraction⟩
    rw [List.nil_append, h.apart.any_head, if_neg Bool.false_ne_true,
      ← numeral_float h.source_eq hword]
    simp only [List.append_nil, List.append_assoc, List.cons_append, List.nil_append]
  | cons c tail =>
    have hnotWhole : ¬ IsWhole (sign.chars ++ (whole ++ '.' :: (fraction ++ c :: tail))) :=
      not_isWhole (c := '.') hsign (by simp) rfl
    have hpointed : ¬ IsPointed (sign.chars ++ (whole ++ '.' :: (fraction ++ c :: tail))) := by
      intro hword
      obtain ⟨-, fraction', hfraction', hdigits⟩ :=
        point_of_isPointed hsign (digits_all hwhole) (point_not_digit _) hword
      obtain rfl := (List.cons.inj hfraction').2
      have hc := digits_all hdigits c (by simp)
      rw [htail c rfl] at hc
      cases hc
    rw [List.cons_append, List.head?_cons, Option.any_some, h.symbols c (by simp), if_pos rfl]
    exact symbol_eq h hne hcolon hnotWhole hpointed

/-- A number is taken for what its word is taken for; it goes on being a symbol where the word does
not end with it. -/
theorem number_eq (h : IsWord source before word rest)
    (hfirst : ∃ c ∈ word.head?, c = '-' ∨ c = '+' ∨ c.isDigit = true) :
    number source (.between before (word ++ rest)) = taken before word rest := by
  obtain ⟨first, hhead, hfirst⟩ := hfirst
  have hne : word ≠ [] := by
    rintro rfl
    cases hhead
  have hcolon : word.head? ≠ some ':' := by
    intro hcolon
    rw [hcolon] at hhead
    cases hhead
    revert hfirst
    decide
  obtain ⟨sign, ds, rfl, hsign⟩ := exists_leads word
  obtain ⟨whole, tail, rfl, hrun, htail⟩ := Text.exists_run Char.isDigit ds
  by_cases hwhole : whole = []
  · subst hwhole
    rw [← symbol_eq_of_no_digit h hne hcolon hsign htail, List.append_assoc]
    exact number_symbol (hsign.append hne rest) (h.apart.append_no_digit htail)
  by_cases hpoint : ∃ more, tail = '.' :: more ∧ ∃ c ∈ more.head?, c.isDigit = true
  · obtain ⟨more, rfl, c, hc, hdigit⟩ := hpoint
    obtain ⟨fraction, more, rfl, hfraction, hstop⟩ := Text.exists_run Char.isDigit more
    have hne' : fraction ≠ [] := by
      rintro rfl
      rw [hstop c hc] at hdigit
      cases hdigit
    exact number_eq_pointed h hne hcolon hsign
      (Text.isDigits_of_all hwhole hrun) (Text.isDigits_of_all hne' hfraction) hstop
  · refine number_eq_whole h hne hcolon hsign (Text.isDigits_of_all hwhole hrun) htail
      fun more hmore c hc => ?_
    rw [← Bool.not_eq_true]
    exact fun hdigit => hpoint ⟨more, hmore, c, hc, hdigit⟩

theorem atom_of_ne {first : Char} (hquote : first ≠ '"') (hcolon : first ≠ ':') (c : Cursor) :
    atom source first c =
      if first = '-' ∨ first = '+' ∨ first.isDigit then number source c else symbol source c := by
  unfold atom
  split
  · contradiction
  · contradiction
  · rfl

/-- A word is taken for what it is, by whatever the cursor sees of its first character. -/
theorem atom_eq {first : Char} (h : IsWord source before (c :: word) rest)
    (hfirst : (Cursor.between before (c :: (word ++ rest))).current = some first) :
    atom source first (.between before (c :: (word ++ rest))) = taken before (c :: word) rest := by
  have hsymbol : isSymbolChar c = true := h.symbols c List.mem_cons_self
  have hquote : c ≠ '"' := by
    rintro rfl
    cases hsymbol
  have hsee {ch : Char} (hch : ch.toNat < 128) : first = ch ↔ c = ch := by
    have hcurrent : (Cursor.between before (c :: (word ++ rest))).current = some ch ↔ _ :=
      Cursor.current_eq_iff hch
    rwa [hfirst, List.head?_cons, Option.some_inj, Option.some_inj] at hcurrent
  have hdigit : first.isDigit = c.isDigit := by
    have hany : (Cursor.between before (c :: (word ++ rest))).current.any Char.isDigit = _ :=
      Cursor.any_current coarse_isDigit
    rwa [hfirst] at hany
  by_cases hcolon : c = ':'
  · rw [(hsee (by decide)).mpr hcolon]
    subst hcolon
    exact keyword_eq h
  rw [atom_of_ne (mt (hsee (by decide)).mp hquote) (mt (hsee (by decide)).mp hcolon)]
  split
  · next hnumber =>
    rw [hsee (by decide), hsee (by decide), hdigit] at hnumber
    rw [← List.cons_append]
    exact number_eq h ⟨c, rfl, hnumber⟩
  · next hnumber =>
    rw [hsee (by decide), hsee (by decide), hdigit, not_or, not_or, Bool.not_eq_true] at hnumber
    have hword : IsWord source before (Sign.chars .none ++ c :: word) rest := h
    have hhead {ch : Char} (hch : ch ∈ (c :: word).head?) : ch = c := (Option.some.inj hch).symm
    have hleads : Leads .none (c :: word) := fun _ ch hch => by
      rw [hhead hch]
      exact ⟨hnumber.1, hnumber.2.1⟩
    have hsymbol := symbol_eq_of_no_digit hword (List.cons_ne_nil _ _)
      (fun h => hcolon (hhead h).symm) hleads fun ch hch => by rw [hhead hch, hnumber.2.2]
    rw [Sign.chars, List.nil_append, List.cons_append] at hsymbol
    exact hsymbol

end ByteReader
end Lispbox
