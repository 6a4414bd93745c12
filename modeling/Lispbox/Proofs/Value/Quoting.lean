import Lispbox.Proofs.Form.Scanning
import Lispbox.Text.Split
import Lispbox.Value.Display

/-!
# Quoted texts

The quoted form of a text is a literal of the language, and the reader makes the text of it again.
The writer has four escapes and leaves all other characters as they are, carriage returns included;
the reader has five.

* `quoteText_eq`: writing character by character is replacing the four characters in the whole text,
  one after another. The backslash comes first: the others put backslashes into the text.
* `reads_quoteText`: wherever a form may stand, a quoted text is read as one.
* `quoted_read_back`: a source that is a quoted text has this one form.
-/
namespace Lispbox

namespace Text

variable {c : Char} {cs : List Char}

/-- A pattern of one character is replaced where the character stands. -/
theorem replaceFrom_char (c : Char) (replacement cs : List Char) :
    replaceFrom [c] replacement 0 cs = cs.flatMap fun d => if d = c then replacement else [d] := by
  induction cs with
  | nil => rfl
  | cons d cs ih =>
    by_cases hd : d = c
    · subst hd
      simp [replaceFrom, ih]
    · simp [replaceFrom, hd, Ne.symm hd, ih]

theorem toList_replace_char (s replacement : String) (c : Char) :
    (replace s (String.singleton c) replacement).toList =
      s.toList.flatMap fun d => if d = c then replacement.toList else [d] := by
  rw [replace, String.toList_ofList, String.toList_singleton, replaceFrom_char]

end Text

/-! ## The writer -/

/-- The escapes of a text by four replacements. -/
def escapeText (s : String) : String :=
  Text.replace (Text.replace (Text.replace (Text.replace s "\\" "\\\\") "\"" "\\\"") "\n" "\\n")
    "\t" "\\t"

/-- The replacements do not get into each other's way: what stands for a character in the end is
what the writer puts there at once. -/
theorem toList_escapeText (s : String) : (escapeText s).toList = s.toList.flatMap quoteChar := by
  have hone (pattern replacement s : String) (c : Char) (h : pattern = String.singleton c) :
      (Text.replace s pattern replacement).toList =
        s.toList.flatMap fun d => if d = c then replacement.toList else [d] :=
    h ▸ Text.toList_replace_char s replacement c
  unfold escapeText
  rw [hone "\t" _ _ '\t' rfl, hone "\n" _ _ '\n' rfl, hone "\"" _ _ '"' rfl, hone "\\" _ _ '\\' rfl,
    List.flatMap_assoc, List.flatMap_assoc, List.flatMap_assoc]
  refine congrArg s.toList.flatMap (funext fun c => ?_)
  unfold quoteChar
  split
  · subst_vars; decide
  split
  · subst_vars; decide
  split
  · subst_vars; decide
  split
  · subst_vars; decide
  · simp [*]

theorem quoteText_eq (s : String) : quoteText s = "\"" ++ escapeText s ++ "\"" := by
  rw [quoteText, ← toList_escapeText, String.ofList_toList]

/-! ## The reader -/

/-- What the writer puts between the quotes, the reader takes for the text. -/
theorem Quoted.quote (cs : List Char) : Quoted (cs.flatMap quoteChar) cs := by
  induction cs with
  | nil => exact .nil
  | cons c cs ih =>
    rw [List.flatMap_cons]
    unfold quoteChar
    split
    · subst_vars; exact .escaped (by decide) ih
    split
    · subst_vars; exact .escaped (by decide) ih
    split
    · subst_vars; exact .escaped (by decide) ih
    split
    · subst_vars; exact .escaped (by decide) ih
    · exact .plain ‹_› ‹_› ih

theorem toList_quoteText (s : String) :
    (quoteText s).toList = '"' :: (s.toList.flatMap quoteChar ++ ['"']) := by
  simp [quoteText]

theorem reads_quoteText {d : Nat} {pos : Pos} {forms : List Form} {outer : List (Pos × List Form)}
    (s : String) (cs : List Char) :
    Reader.reads d ⟨pos, .blank, ⟨forms, outer⟩⟩ ((quoteText s).toList ++ cs) =
      Reader.reads d ⟨pos.afterAll (quoteText s).toList, .blank,
        ⟨.atom pos (.text s) :: forms, outer⟩⟩ cs := by
  rw [toList_quoteText, List.cons_append, List.append_assoc, List.singleton_append,
    Reader.reads_text (Quoted.quote s.toList), String.ofList_toList]

/-- The quoted form of a text, written with the four replacements, is a source of exactly one form:
the text, at the start of the source. -/
theorem quoted_read_back (s file : String) (maxDepth : Nat) :
    (Value.text s).repr = "\"" ++ escapeText s ++ "\"" ∧
      parse (Value.text s).repr file maxDepth = .ok [.atom ⟨1, 1⟩ (.text s)] := by
  have hrepr : (Value.text s).repr = quoteText s := by rw [Value.repr]
  refine ⟨hrepr.trans (quoteText_eq s), ?_⟩
  have hreads : Reader.reads maxDepth ⟨.start, .blank, ⟨[], []⟩⟩ ((quoteText s).toList ++ []) = _ :=
    reads_quoteText s []
  rw [List.append_nil, Reader.reads_nil] at hreads
  have hforms : readForms maxDepth (quoteText s) = .ok [.atom .start (.text s)] := hreads
  rw [hrepr, parse, hforms]
  rfl

/-- A backslash in front of an n is not taken for a line feed. -/
example : quoteText "\\n\n" = "\"\\\\n\\n\"" := by decide

end Lispbox
