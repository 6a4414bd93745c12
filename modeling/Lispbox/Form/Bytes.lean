import Lispbox.Form.Reader
/-!
# Reading forms from bytes

The reader of `Form.Reader` takes the characters of a source one by one. The one here works on bytes
and by recursive descent: it cuts words out of the source by the offsets where they start and end,
gathers the bytes of a text before they are a text, and goes back to where a word started that is no
number after all. It guards against what might go wrong in doing so, and has words for it
(`Reason.message`); that nothing does, and that both readers agree, is to be proved.

A byte is looked at as the character of the same number. All characters that have a meaning of their
own are below 128, where this is the character that the byte stands for.

* `Text.slice?`: a part of a text is there only between characters.
* `ByteReader.read`: the forms of a source, or why there are none.
-/
namespace Lispbox

/-- The part of a text between two offsets of bytes. There is none if they are in the wrong order or
one of them is inside of a character. -/
def Text.slice? (s : String) (start stop : Nat) : Option String :=
  if h : start ≤ stop ∧ String.Pos.Raw.IsValid s ⟨start⟩ ∧ String.Pos.Raw.IsValid s ⟨stop⟩ then
    some (String.extract (s.pos ⟨start⟩ h.2.1) (s.pos ⟨stop⟩ h.2.2))
  else none

/-- The place behind a byte. Mirrors `advance`. -/
def Pos.afterByte (p : Pos) (b : UInt8) : Pos :=
  if Char.ofUInt8 b = '\n' then ⟨p.line + 1, 1⟩ else ⟨p.line, p.column + 1⟩

/-! ## Cursors -/

/-- A place in a source: how many bytes are behind it, where that is, and the bytes to come. -/
structure Cursor where
  index : Nat
  pos : Pos
  rest : List UInt8
  deriving DecidableEq, Repr

namespace Cursor

/-- The start of a source. -/
def start (source : String) : Cursor := ⟨0, .start, source.toUTF8.data.toList⟩

/-- The byte at the cursor. Mirrors `current`. -/
def current (c : Cursor) : Option Char := c.rest.head?.map Char.ofUInt8

/-- The byte behind that. Mirrors `peek_char`. -/
def peek (c : Cursor) : Option Char := c.rest.tail.head?.map Char.ofUInt8

/-- Behind the byte at the cursor. Mirrors `advance`. -/
def advance (c : Cursor) : Cursor :=
  match c.rest with
  | [] => c
  | b :: rest => ⟨c.index + 1, c.pos.afterByte b, rest⟩

/-- Behind the bytes up to the first one that is not as required. -/
def advanceWhile (p : Char → Bool) (c : Cursor) : Cursor :=
  let run := c.rest.takeWhile (p ∘ Char.ofUInt8)
  ⟨c.index + run.length, run.foldl Pos.afterByte c.pos, c.rest.dropWhile (p ∘ Char.ofUInt8)⟩

theorem length_advance_le (c : Cursor) : c.advance.rest.length ≤ c.rest.length := by
  unfold advance
  split
  · exact Nat.le_refl _
  · next h => simp [h]

theorem length_advanceWhile_le (p : Char → Bool) (c : Cursor) :
    (c.advanceWhile p).rest.length ≤ c.rest.length :=
  (List.dropWhile_suffix _).length_le

theorem length_advanceWhile_lt {p : Char → Bool} {c : Cursor} {ch : Char}
    (h : c.current = some ch) (hp : p ch = true) :
    (c.advanceWhile p).rest.length < c.rest.length := by
  obtain ⟨b, hb, rfl⟩ := Option.map_eq_some_iff.mp h
  obtain ⟨rest, hrest⟩ := List.head?_eq_some_iff.mp hb
  have hdrop : (p ∘ Char.ofUInt8) b = true := hp
  rw [advanceWhile, hrest, List.dropWhile_cons_of_pos hdrop]
  exact Nat.lt_succ_of_le (List.dropWhile_suffix _).length_le

/-- Behind blanks and comments. Mirrors `skip_ws`. -/
def skip (c : Cursor) : Cursor :=
  let c := c.advanceWhile Text.isAsciiBlank
  if c.current = some ';' then ((c.advanceWhile (· != '\n')).advance).skip else c
termination_by c.rest.length
decreasing_by
  next h =>
  have hcomment := length_advanceWhile_lt h (p := (· != '\n')) (by decide)
  exact Nat.lt_of_le_of_lt (length_advance_le _)
    (Nat.lt_of_lt_of_le hcomment (length_advanceWhile_le _ _))

end Cursor

/-! ## The reader -/

namespace ByteReader

/-- Why a source is refused: it has a flaw, or one of the guards finds something amiss. -/
inductive Reason where
  | flaw (f : Flaw)
  | unexpectedEnd
  | unexpectedCharacter
  | invalidText
  | invalidFloat
  deriving DecidableEq, Repr

def Reason.message : Reason → String
  | .flaw f => f.message
  | .unexpectedEnd => "unexpected end of input"
  | .unexpectedCharacter => "unexpected character"
  | .invalidText => "string literal is not valid UTF-8"
  | .invalidFloat => "invalid float literal"

/-- How reading ends without forms. -/
inductive Stop where
  /-- A part of the source was to be cut out that does not start and end between characters. -/
  | tornSlice
  | refused (pos : Pos) (reason : Reason)
  /-- There were more steps than the reader was given. -/
  | exhausted
  deriving DecidableEq, Repr

/-- The source is refused at the cursor. -/
def refuse {α : Type} (c : Cursor) (reason : Reason) : Except Stop α :=
  .error (.refused c.pos reason)

/-- The part of the source between two cursors. -/
def slice (source : String) (start stop : Cursor) : Except Stop String :=
  match Text.slice? source start.index stop.index with
  | some part => .ok part
  | none => .error .tornSlice

/-- A keyword; the cursor is at its colon. Mirrors `parse_keyword`. -/
def keyword (source : String) (c : Cursor) : Except Stop (Atom × Cursor) :=
  let start := c.advance
  let stop := start.advanceWhile isSymbolChar
  if stop.index = start.index then refuse stop (.flaw .emptyKeyword)
  else do
    let name ← slice source start stop
    return (.keyword name, stop)

/-- What a word stands for that is no keyword and no number. -/
def named : String → Atom
  | "true" => .boolean true
  | "false" => .boolean false
  | "nil" => .nil
  | name => .symbol name

/-- A symbol, or a word that stands for a value of its own. Mirrors `parse_symbol_or_literal`. -/
def symbol (source : String) (c : Cursor) : Except Stop (Atom × Cursor) :=
  let stop := c.advanceWhile isSymbolChar
  if stop.index = c.index then refuse stop .unexpectedCharacter
  else do
    let word ← slice source c stop
    return (named word, stop)

/-- Behind a sign, if there is one. -/
def afterSign (c : Cursor) : Cursor :=
  if c.current = some '-' ∨ c.current = some '+' then c.advance else c

/-- The number between two cursors. -/
def numeral (source : String) (isFloat : Bool) (c stop : Cursor) :
    Except Stop (Atom × Cursor) := do
  let literal ← slice source c stop
  if isFloat then
    match Decimal.ofText literal with
    | some x => return (.float x, stop)
    | none => refuse stop .invalidFloat
  else
    match Integer.ofText? literal with
    | some n => return (.integer n, stop)
    | none => refuse stop (.flaw .integerOutOfRange)

/-- A number; if the word is none, a symbol, which is read from the start of the word. Mirrors
`parse_number_or_symbol`. -/
def number (source : String) (c : Cursor) : Except Stop (Atom × Cursor) :=
  let start := afterSign c
  let whole := start.advanceWhile Char.isDigit
  let hasDigit := whole.index != start.index
  let isFloat := hasDigit && whole.current == some '.' && whole.peek.any Char.isDigit
  let stop := if isFloat then whole.advance.advanceWhile Char.isDigit else whole
  if !hasDigit || stop.current.any isSymbolChar then symbol source c
  else numeral source isFloat c stop

/-- The rest of a text, whose bytes so far are `seen`, last one first. Mirrors `parse_string`. -/
def text (seen : List UInt8) : Cursor → Except Stop (Atom × Cursor)
  | ⟨index, pos, []⟩ => refuse ⟨index, pos, []⟩ (.flaw .unterminatedText)
  | ⟨index, pos, b :: rest⟩ =>
    let next : Cursor := ⟨index + 1, pos.afterByte b, rest⟩
    if Char.ofUInt8 b = '"' then
      match String.fromUTF8? ⟨seen.reverse.toArray⟩ with
      | some content => .ok (.text content, next)
      | none => refuse next .invalidText
    else if Char.ofUInt8 b = '\\' then
      match rest with
      | [] => refuse next (.flaw .incompleteEscape)
      | e :: rest =>
        let next : Cursor := ⟨index + 2, (pos.afterByte b).afterByte e, rest⟩
        match unescape? (Char.ofUInt8 e) with
        | some value => text (value.toUInt8 :: seen) next
        | none => refuse next (.flaw (.unknownEscape (Char.ofUInt8 e)))
    else text (b :: seen) next
termination_by c => c.rest.length

/-- An atom that starts with the given byte, which is the one at the cursor. -/
def atom (source : String) (first : Char) (c : Cursor) : Except Stop (Atom × Cursor) :=
  match first with
  | '"' => text [] c.advance
  | ':' => keyword source c
  | _ => if first = '-' ∨ first = '+' ∨ first.isDigit then number source c else symbol source c

mutual

/-- The next form, inside of `depth` lists. Mirrors `parse_expr`. -/
def form (source : String) (maxDepth : Nat) : (fuel depth : Nat) → Cursor →
    Except Stop (Form × Cursor)
  | 0, _, _ => .error .exhausted
  | fuel + 1, depth, c =>
    let c := c.skip
    match c.current with
    | none => refuse c .unexpectedEnd
    | some '(' =>
      if maxDepth ≤ depth then refuse c (.flaw .tooDeep)
      else list source maxDepth fuel depth c.pos [] c.advance
    | some ')' => refuse c (.flaw .unmatchedClose)
    | some first => do
      let (a, after) ← atom source first c
      return (.atom c.pos a, after)

/-- The rest of a list that was opened at `start` inside of `depth` lists; `items` are its forms so
far, last one first. Mirrors `parse_list`. -/
def list (source : String) (maxDepth : Nat) : (fuel depth : Nat) → Pos → List Form → Cursor →
    Except Stop (Form × Cursor)
  | 0, _, _, _, _ => .error .exhausted
  | fuel + 1, depth, start, items, c =>
    let c := c.skip
    match c.current with
    | none => .error (.refused start (.flaw .neverClosed))
    | some ')' => .ok (.list start items.reverse, c.advance)
    | some _ => do
      let (f, after) ← form source maxDepth fuel (depth + 1) c
      list source maxDepth fuel depth start (f :: items) after

end

/-- The rest of a source; `before` are its forms so far, last one first. -/
def forms (source : String) (maxDepth : Nat) : (fuel : Nat) → List Form → Cursor →
    Except Stop (List Form)
  | 0, _, _ => .error .exhausted
  | fuel + 1, before, c =>
    let c := c.skip
    match c.current with
    | none => .ok before.reverse
    | some ')' => refuse c (.flaw .unmatchedClose)
    | some _ => do
      let (f, after) ← form source maxDepth fuel 0 c
      forms source maxDepth fuel (f :: before) after

/-- The forms of a source. A form is at least one byte, so the steps suffice. Mirrors
`parse_program`. -/
def read (maxDepth : Nat) (source : String) : Except Stop (List Form) :=
  forms source maxDepth (2 * source.utf8ByteSize + 2) [] (.start source)

end ByteReader
end Lispbox
