import Lispbox.Text.Split
/-!
# Completions

An editor asks for names that could stand at the cursor. A provider suggests them, best first; the
response keeps that order in the ranks of its options.
-/
namespace Lispbox

/-- The text before the cursor that a completion replaces. -/
structure TypedMatch where
  text : String
  start : Nat
  stop : Nat
  deriving DecidableEq, Repr

/-- A request for completions. -/
structure CompletionRequest where
  text : String
  line : Nat
  column : Nat
  /-- The place of the cursor in the text. -/
  position : Nat
  /-- The user asked for completions. -/
  explicit : Bool
  before : Option TypedMatch
  deriving DecidableEq, Repr

/-- A suggestion. -/
structure Candidate where
  kind : String
  label : String
  doc : Option String
  deriving DecidableEq, Repr

/-- An option that an editor shows. -/
structure CompletionOption where
  kind : String
  label : String
  info : Option String
  /-- Options with a higher rank come first. -/
  boost : Int
  deriving DecidableEq, Repr

/-- The options for a request, and where the chosen one starts. -/
structure CompletionResponse where
  options : List CompletionOption
  start : Nat
  deriving DecidableEq, Repr

/-- A source of suggestions for a text, a line and a column. -/
abbrev CompletionProvider := String → Nat → Nat → List Candidate

namespace CompletionResponse

/-- The options of suggestions, whose ranks count down from `rank`; keywords need no
documentation. -/
def optionsFrom (rank : Int) : List Candidate → List CompletionOption
  | [] => []
  | c :: cs =>
    ⟨c.kind, c.label, if c.kind = "keyword" then none else c.doc, rank⟩
      :: optionsFrom (rank - 1) cs

/-- The provider is asked: the user wants completions, or has typed something. -/
def isAsked (r : CompletionRequest) : Bool :=
  r.explicit || match r.before with
    | some b => !b.text.isEmpty
    | none => false

/-- The response to a request. Behind a point the chosen option is added, otherwise it replaces what
was typed. -/
def ranked (r : CompletionRequest) (provider : CompletionProvider) : CompletionResponse :=
  let typed : TypedMatch := r.before.getD ⟨"", r.position, r.position⟩
  if isAsked r then
    ⟨optionsFrom 0 (provider r.text r.line r.column),
      if Text.contains typed.text "." then typed.stop else typed.start⟩
  else ⟨[], typed.start⟩

end CompletionResponse
end Lispbox
