/-!
# Lines of a text

A line feed ends a line, and so does the end of a text that does not end in one; a carriage return
directly before the line feed belongs to the ending. A text that ends in a line feed has no further,
empty line.

* `linesFrom_newline`: a line feed ends a line.
-/
namespace Lispbox.Text

/-- The read characters of a line (last one first) without the carriage return of its ending. -/
def dropReturn : List Char → List Char
  | '\r' :: cs => cs
  | cs => cs

/-- The lines of the characters to come, where `seen` holds those of the current line, last one
first. -/
def linesFrom (seen : List Char) : List Char → List (List Char)
  | [] => if seen.isEmpty then [] else [seen.reverse]
  | c :: cs =>
    if c = '\n' then (dropReturn seen).reverse :: linesFrom [] cs else linesFrom (c :: seen) cs

theorem linesFrom_newline (seen cs : List Char) :
    linesFrom seen ('\n' :: cs) = (dropReturn seen).reverse :: linesFrom [] cs := by
  simp [linesFrom]

/-- The lines of a text, without their endings. -/
def lines (s : String) : List String :=
  (linesFrom [] s.toList).map String.ofList

/-- The line with the given number, counted from 1 (a number 0 stands for the first line too); empty
past the end. Mirrors `line_text`. -/
def lineText (s : String) (n : Nat) : String :=
  ((lines s)[n - 1]?).getD ""

end Lispbox.Text
