/-!
# Pieces of a text

* `join_pieces`: pieces joined by the separator are the text they were split from.
-/
namespace Lispbox.Text

/-- The characters between separators; there is one piece more than there are separators. -/
def pieces (separator : Char) : List Char → List (List Char)
  | [] => [[]]
  | c :: cs =>
    if c = separator then [] :: pieces separator cs
    else
      match pieces separator cs with
      | [] => [[c]]
      | p :: ps => (c :: p) :: ps

theorem pieces_ne_nil (separator : Char) (cs : List Char) : pieces separator cs ≠ [] := by
  cases cs with
  | nil => simp [pieces]
  | cons c cs =>
    simp only [pieces]
    split
    · simp
    · split <;> simp

theorem join_pieces (separator : Char) (cs : List Char) :
    [separator].intercalate (pieces separator cs) = cs := by
  induction cs with
  | nil => simp [pieces, List.intercalate]
  | cons c cs ih =>
    have hne := pieces_ne_nil separator cs
    simp only [pieces]
    cases hp : pieces separator cs with
    | nil => exact absurd hp hne
    | cons p ps =>
      rw [hp] at ih
      split
      · next h =>
        subst h
        simp only [List.intercalate, List.intersperse] at ih ⊢
        simpa using ih
      · cases ps with
        | nil =>
          simp only [List.intercalate, List.intersperse] at ih ⊢
          simpa using ih
        | cons q qs =>
          simp only [List.intercalate, List.intersperse] at ih ⊢
          simpa using ih

/-- The pattern occurs in the text. -/
def occursIn (pattern : List Char) : List Char → Bool
  | [] => pattern.isEmpty
  | c :: cs => pattern.isPrefixOf (c :: cs) || occursIn pattern cs

/-- The text contains the pattern. -/
def contains (s pattern : String) : Bool := occursIn pattern.toList s.toList

/-- The pieces of a text. -/
def split (separator : Char) (s : String) : List String :=
  (pieces separator s.toList).map String.ofList

/-- The text with every occurrence of a pattern replaced, from left to right; `skip` characters
belong to an occurrence that is replaced already. -/
def replaceFrom (pattern replacement : List Char) (skip : Nat) : List Char → List Char
  | [] => []
  | c :: cs =>
    match skip with
    | n + 1 => replaceFrom pattern replacement n cs
    | 0 =>
      if pattern.isPrefixOf (c :: cs) then
        replacement ++ replaceFrom pattern replacement (pattern.length - 1) cs
      else c :: replaceFrom pattern replacement 0 cs

/-- The text with every occurrence of a pattern, which is not empty, replaced. -/
def replace (s pattern replacement : String) : String :=
  String.ofList (replaceFrom pattern.toList replacement.toList 0 s.toList)

end Lispbox.Text
