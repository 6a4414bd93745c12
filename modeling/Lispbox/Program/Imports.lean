import Lispbox.Program.Basic
/-!
# The modules that a program imports

* `mem_dedup`: leaving out repetitions leaves out no name.
-/
namespace Lispbox

mutual
/-- The modules imported anywhere in a node, in reading order and with repetitions. Mirrors
`collect_node`. -/
def Node.loads : Node → List String
  | .literal _ _ | .variable _ _ | .member _ _ _ => []
  | .bind _ _ value | .assign _ _ value | .await _ value => value.loads
  | .define _ _ _ body _ _ | .block _ body | .defer _ body | .allOf _ body | .anyOf _ body =>
    blockLoads body
  | .branch _ condition taken other => condition.loads ++ blockLoads taken ++ blockLoads other
  | .loop _ condition body => condition.loads ++ blockLoads body
  | .leave _ none | .raise _ _ none => []
  | .leave _ (some value) | .raise _ _ (some value) => value.loads
  | .load _ name => [name]
  | .attempt _ body handlers => blockLoads body ++ handlerLoads handlers
  | .call _ callee args => callee.loads ++ blockLoads args

/-- The modules imported anywhere in a block. Mirrors `collect_imports`. -/
def blockLoads : List Node → List String
  | [] => []
  | n :: ns => n.loads ++ blockLoads ns

/-- The modules imported anywhere in handlers. -/
def handlerLoads : List (Clause (List Node)) → List String
  | [] => []
  | ⟨_, _, body⟩ :: hs => blockLoads body ++ handlerLoads hs
end

/-- The names in order of first occurrence, where those in `seen` are left out. -/
def dedup (seen : List String) : List String → List String
  | [] => []
  | n :: ns => if seen.contains n then dedup seen ns else n :: dedup (n :: seen) ns

theorem mem_dedup {n : String} {names : List String} : ∀ {seen : List String},
    n ∈ dedup seen names ↔ n ∈ names ∧ n ∉ seen := by
  induction names with
  | nil => simp [dedup]
  | cons m ms ih =>
    intro seen
    by_cases hm : seen.contains m
    · rw [dedup, if_pos hm, ih]
      have hm' : m ∈ seen := by simpa using hm
      constructor
      · rintro ⟨h1, h2⟩
        exact ⟨List.mem_cons_of_mem _ h1, h2⟩
      · rintro ⟨h1, h2⟩
        rcases List.mem_cons.1 h1 with rfl | h1
        · exact absurd hm' h2
        · exact ⟨h1, h2⟩
    · rw [dedup, if_neg hm, List.mem_cons, ih]
      have hm' : m ∉ seen := by simpa using hm
      by_cases hn : n = m
      · subst hn; simp [hm']
      · simp [hn]

/-- The modules that a program imports anywhere, in order of first occurrence. Mirrors
`imported_modules`. -/
def Program.imports (p : Program) : List String := dedup [] (blockLoads p.body)

end Lispbox
