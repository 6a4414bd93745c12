import Lispbox.Proofs.Form.Places

/-!
# Symbols

Symbols are written as they are, without quotes or escapes, so every character of a symbol is one
that words are made of.

* `parse_symbols`: this holds of all symbols of a source that is read.
-/
namespace Lispbox

/-- The name is made of characters of words. -/
def IsWord (name : String) : Prop := ∀ c ∈ name.toList, isSymbolChar c = true

theorem IsWord.single_line {name : String} (h : IsWord name) : '\n' ∉ name.toList :=
  fun hmem => absurd (h _ hmem) (by decide)

/-- A symbol is spelled as it is. -/
theorem Atom.Spelled.symbol_eq {word : List Char} {name : String}
    (h : Atom.Spelled word (.symbol name)) : name = String.ofList word := by
  cases h
  rfl

theorem Form.Opens.symbol {f : Form} {cs : List Char} {name : String} (h : f.Opens cs)
    (hname : f.symbol? = some name) : IsWord name := by
  cases h with
  | list => cases hname
  | text _ => cases hname
  | @word _ word after a _ hchars ha _ =>
    cases a with
    | symbol name' =>
      cases hname
      rw [ha.symbol_eq, IsWord, String.toList_ofList]
      exact hchars
    | _ => cases hname

theorem parse_symbols {source file : String} {maxDepth : Nat} {fs : List Form}
    (h : parse source file maxDepth = .ok fs) {f : Form} (hf : f ∈ formsWithin fs) {name : String}
    (hname : f.symbol? = some name) : IsWord name := by
  obtain ⟨before, after, -, -, -, hopens⟩ := parse_places h hf
  exact hopens.symbol hname

end Lispbox
