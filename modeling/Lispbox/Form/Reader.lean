import Lispbox.CompileError
import Lispbox.Form.Token
/-!
# Reading forms

The reader takes the characters of a source one by one. The lists that are open are a stack, each
with its position and with the forms that precede it; a parenthesis that closes a list appends the
list to those.
-/
namespace Lispbox

/-- The forms read so far at the current level, last one first, and the lists open around it, each
with its position and the forms before it. -/
structure Nest where
  forms : List Form
  outer : List (Pos × List Form)
  deriving Repr

/-- Takes a further token; lists may be nested to `maxDepth`. Mirrors `parse_list`. -/
def Nest.take (maxDepth : Nat) (n : Nest) (l : Lexeme) : Except (Pos × Flaw) Nest :=
  match l.token with
  | .atom a => .ok { n with forms := .atom l.pos a :: n.forms }
  | .openList =>
    if maxDepth ≤ n.outer.length then .error (l.pos, .tooDeep)
    else .ok ⟨[], (l.pos, n.forms) :: n.outer⟩
  | .closeList =>
    match n.outer with
    | [] => .error (l.pos, .unmatchedClose)
    | (pos, before) :: outer => .ok ⟨.list pos n.forms.reverse :: before, outer⟩

/-- The forms of a finished source: no list may be open. Mirrors an error of `parse_list`. -/
def Nest.finish (n : Nest) : Except (Pos × Flaw) (List Form) :=
  match n.outer with
  | [] => .ok n.forms.reverse
  | (pos, _) :: _ => .error (pos, .neverClosed)

/-- Where the reader is, what it is in the middle of, and what it has read. -/
structure Reader where
  pos : Pos
  reading : Reading
  nest : Nest
  deriving Repr

/-- The reader at the start of a source. -/
def Reader.start : Reader := ⟨.start, .blank, ⟨[], []⟩⟩

/-- Takes one character. -/
def Reader.step (maxDepth : Nat) (r : Reader) (c : Char) : Except (Pos × Flaw) Reader := do
  let (found, next) ← r.reading.step r.pos c
  let nest ← found.foldlM (Nest.take maxDepth) r.nest
  return ⟨r.pos.after c, next, nest⟩

/-- Takes characters one after another. -/
def Reader.run (maxDepth : Nat) (r : Reader) (cs : List Char) : Except (Pos × Flaw) Reader :=
  cs.foldlM (Reader.step maxDepth) r

/-- The forms read when the source ends. -/
def Reader.finish (maxDepth : Nat) (r : Reader) : Except (Pos × Flaw) (List Form) := do
  let found ← r.reading.finish r.pos
  let nest ← found.foldlM (Nest.take maxDepth) r.nest
  nest.finish

/-- The forms of a source, or the first flaw and its position. -/
def readForms (maxDepth : Nat) (source : String) : Except (Pos × Flaw) (List Form) := do
  let r ← Reader.start.run maxDepth source.toList
  r.finish maxDepth

/-- The forms of a file's source. Mirrors `parse_program`. -/
def parse (source file : String) (maxDepth : Nat) : Except CompileError (List Form) :=
  (readForms maxDepth source).mapError fun (pos, flaw) =>
    CompileError.at file source pos flaw.message

end Lispbox
