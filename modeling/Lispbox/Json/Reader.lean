import Lispbox.Json.Number
/-!
# Reading JSON texts

A text is first read for its structure alone: a `Tree` keeps numbers as they are written, and keeps
strings even if they escape half of a surrogate pair. A tree has a value if its numbers are in
range, its strings are text and it is nested less than 128 deep. A record looks at the members it
knows and never asks for the value of the others.
-/
namespace Lispbox.Json

/-- The structure of a JSON text. -/
inductive Tree where
  | null
  | bool (b : Bool)
  | number (text : NumberText)
  /-- Nothing stands for a string that is not a text. -/
  | str (s : Option String)
  | arr (items : List Tree)
  | obj (members : List (Option String × Tree))
  deriving Repr, Inhabited

/-- How deep arrays and objects may be nested in a value. -/
def maxNesting : Nat := 127

mutual
/-- The value of a tree inside `depth` arrays and objects. -/
def Tree.value? (depth : Nat) : Tree → Option Json
  | .null => some .null
  | .bool b => some (.bool b)
  | .number t => t.value?
  | .str s => s.map .str
  | .arr items =>
    if depth < maxNesting then (itemValues? (depth + 1) items).map .arr else none
  | .obj members =>
    if depth < maxNesting then (memberValues? (depth + 1) members).map sorted else none

/-- The values of the items of an array. -/
def itemValues? (depth : Nat) : List Tree → Option (List Json)
  | [] => some []
  | t :: ts => do
    let v ← t.value? depth
    let vs ← itemValues? depth ts
    return v :: vs

/-- The members of an object, in the order of the text. -/
def memberValues? (depth : Nat) : List (Option String × Tree) → Option (List (String × Json))
  | [] => some []
  | (k, t) :: ms => do
    let key ← k
    let v ← t.value? depth
    let rest ← memberValues? depth ms
    return (key, v) :: rest
end

/-- The four characters that separate the tokens of a JSON text. -/
def isSpace (c : Char) : Bool := c == ' ' || c == '\n' || c == '\t' || c == '\r'

/-- The text from its first character that is no space. -/
def skip (cs : List Char) : List Char := cs.dropWhile isSpace

/-- The value of a hexadecimal digit. -/
def hexValue? (c : Char) : Option Nat :=
  if c.isDigit then some (c.toNat - '0'.toNat)
  else if 'a' ≤ c ∧ c ≤ 'f' then some (c.toNat - 'a'.toNat + 10)
  else if 'A' ≤ c ∧ c ≤ 'F' then some (c.toNat - 'A'.toNat + 10)
  else none

/-- The number written in four hexadecimal digits. -/
def hex4? (a b c d : Char) : Option Nat := do
  let w ← hexValue? a
  let x ← hexValue? b
  let y ← hexValue? c
  let z ← hexValue? d
  return ((w * 16 + x) * 16 + y) * 16 + z

/-- The part of a string that is read: its characters, last one first, the first half of a surrogate
pair that waits for the second, and whether all of it is text. -/
structure Quoted where
  seen : List Char
  half : Option Nat
  valid : Bool
  deriving DecidableEq, Repr

/-- A further character; a waiting half stays alone. -/
def Quoted.push (q : Quoted) (c : Char) : Quoted :=
  ⟨c :: q.seen, none, q.valid && q.half.isNone⟩

/-- A further 16-bit unit. -/
def Quoted.unit (q : Quoted) (n : Nat) : Quoted :=
  if 0xD800 ≤ n ∧ n < 0xDC00 then ⟨q.seen, some n, q.valid && q.half.isNone⟩
  else if 0xDC00 ≤ n ∧ n < 0xE000 then
    match q.half with
    | some h =>
      ⟨Char.ofNat (0x10000 + (h - 0xD800) * 0x400 + (n - 0xDC00)) :: q.seen, none, q.valid⟩
    | none => { q with valid := false }
  else q.push (Char.ofNat n)

/-- The text, if all of it is text. -/
def Quoted.text? (q : Quoted) : Option String :=
  if q.valid && q.half.isNone then some (String.ofList q.seen.reverse) else none

/-- The character that a one-letter escape stands for. -/
def shortEscape? : Char → Option Char
  | '"' => some '"'
  | '\\' => some '\\'
  | '/' => some '/'
  | 'b' => some '\x08'
  | 'f' => some '\x0C'
  | 'n' => some '\n'
  | 'r' => some '\r'
  | 't' => some '\t'
  | _ => none

/-- Reads a string from behind its opening quote. -/
def readQuoted (q : Quoted) : List Char → Option (Option String × List Char)
  | [] => none
  | '"' :: cs => some (q.text?, cs)
  | '\\' :: 'u' :: a :: b :: c :: d :: cs =>
    match hex4? a b c d with
    | some n => readQuoted (q.unit n) cs
    | none => none
  | '\\' :: c :: cs =>
    match shortEscape? c with
    | some d => readQuoted (q.push d) cs
    | none => none
  | c :: cs => if c = '\\' ∨ c.toNat < 0x20 then none else readQuoted (q.push c) cs

/-- Digits at the start, at least one. -/
def someDigits (cs : List Char) : Option (List Char × List Char) :=
  let digits := cs.takeWhile Char.isDigit
  if digits.isEmpty then none else some (digits, cs.dropWhile Char.isDigit)

/-- Reads the exponent of a number, if there is one. -/
def readExponent (cs : List Char) : Option (Option (Bool × List Char) × List Char) :=
  match cs with
  | c :: rest =>
    if c = 'e' ∨ c = 'E' then do
      let (down, rest) := Text.splitSign rest
      let (digits, rest) ← someDigits rest
      return (some (down, digits), rest)
    else some (none, cs)
  | [] => some (none, [])

/-- Reads a number. -/
def readNumber (cs : List Char) : Option (Tree × List Char) := do
  let (negative, cs) := match cs with
    | '-' :: rest => (true, rest)
    | _ => (false, cs)
  let (front, cs) ← someDigits cs
  if 1 < front.length ∧ front.head? = some '0' then none
  let (fraction, cs) ← match cs with
    | '.' :: rest => (someDigits rest).map fun (digits, rest) => (some digits, rest)
    | _ => some (none, cs)
  let (exponent, cs) ← readExponent cs
  return (.number ⟨negative, front, fraction, exponent⟩, cs)

mutual
/-- Reads a value; `fuel` bounds the number of values and separators. -/
def readTree : Nat → List Char → Option (Tree × List Char)
  | 0, _ => none
  | fuel + 1, cs =>
    match skip cs with
    | 'n' :: 'u' :: 'l' :: 'l' :: rest => some (.null, rest)
    | 't' :: 'r' :: 'u' :: 'e' :: rest => some (.bool true, rest)
    | 'f' :: 'a' :: 'l' :: 's' :: 'e' :: rest => some (.bool false, rest)
    | '"' :: rest => (readQuoted ⟨[], none, true⟩ rest).map fun (s, rest) => (.str s, rest)
    | '[' :: rest =>
      match skip rest with
      | ']' :: rest => some (.arr [], rest)
      | rest => readItems fuel [] rest
    | '\x7b' :: rest =>
      match skip rest with
      | '\x7d' :: rest => some (.obj [], rest)
      | rest => readMembers fuel [] rest
    | rest => readNumber rest

/-- Reads the items of an array; those that are read are kept last one first. -/
def readItems : Nat → List Tree → List Char → Option (Tree × List Char)
  | 0, _, _ => none
  | fuel + 1, seen, cs =>
    match readTree fuel cs with
    | none => none
    | some (t, rest) =>
      match skip rest with
      | ',' :: rest => readItems fuel (t :: seen) rest
      | ']' :: rest => some (.arr (t :: seen).reverse, rest)
      | _ => none

/-- Reads the members of an object; those that are read are kept last one first. -/
def readMembers : Nat → List (Option String × Tree) → List Char → Option (Tree × List Char)
  | 0, _, _ => none
  | fuel + 1, seen, cs =>
    match skip cs with
    | '"' :: rest =>
      match readQuoted ⟨[], none, true⟩ rest with
      | none => none
      | some (key, rest) =>
        match skip rest with
        | ':' :: rest =>
          match readTree fuel rest with
          | none => none
          | some (t, rest) =>
            match skip rest with
            | ',' :: rest => readMembers fuel ((key, t) :: seen) rest
            | '\x7d' :: rest => some (.obj ((key, t) :: seen).reverse, rest)
            | _ => none
        | _ => none
    | _ => none
end

/-- The structure of a text that is one JSON value. -/
def readText (s : String) : Option Tree :=
  let cs := s.toList
  match readTree (cs.length + 1) cs with
  | some (t, rest) => if (skip rest).isEmpty then some t else none
  | none => none

/-- The value of a text. -/
def parse (s : String) : Option Json :=
  (readText s).bind (Tree.value? 0)

end Lispbox.Json
