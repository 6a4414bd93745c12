/-!
# Positions in a text

Lines count from 1, columns count from 1 in bytes of UTF-8. Both are counted in 32 bits by the
reader that is mirrored here, and without a bound by this one, so the two agree on sources of less
than 4 GiB.

* `Pos.after_newline`: a line feed starts a line.
-/
namespace Lispbox

/-- A place in a text. The numbers stand for numbers of 32 bits, of which a text of less than 4 GiB
does not run out. -/
structure Pos where
  line : Nat
  column : Nat
  deriving DecidableEq, Repr

/-- The start of a text. -/
def Pos.start : Pos := ⟨1, 1⟩

/-- The place behind a character. Mirrors `advance`. -/
def Pos.after (p : Pos) (c : Char) : Pos :=
  if c = '\n' then ⟨p.line + 1, 1⟩ else ⟨p.line, p.column + c.utf8Size⟩

/-- The place behind some characters. -/
def Pos.afterAll (p : Pos) (cs : List Char) : Pos := cs.foldl Pos.after p

@[simp] theorem Pos.after_newline (p : Pos) : p.after '\n' = ⟨p.line + 1, 1⟩ := by simp [Pos.after]

end Lispbox
