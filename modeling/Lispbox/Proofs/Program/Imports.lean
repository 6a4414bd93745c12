import Lispbox.Proofs.Program.Code
import Lispbox.Program.Imports
import Mathlib.Data.List.Basic

/-!
# Modules that a program imports

All nodes of a program, at any depth, stand in the order in which they are read (`Program.nodes`).
The modules that a program imports are those that its import forms name among them
(`loads_eq_nodes`), and leaving out repetitions keeps the order in which they are named first
(`dedup_order`).

* `imports_absent`: those that are not installed (`Registry.IsAbsent`).
-/
namespace Lispbox

/-! ## Leaving out repetitions -/

theorem nodup_dedup (seen names : List String) : (dedup seen names).Nodup := by
  induction names generalizing seen with
  | nil => exact List.nodup_nil
  | cons n ns ih =>
    unfold dedup
    split
    · exact ih seen
    · exact List.nodup_cons.mpr ⟨fun h => (mem_dedup.mp h).2 List.mem_cons_self, ih _⟩

/-- What is left is in the order of first occurrence. -/
theorem dedup_order (seen names : List String) :
    (dedup seen names).Pairwise fun a b => names.idxOf a < names.idxOf b := by
  induction names generalizing seen with
  | nil => exact List.Pairwise.nil
  | cons n ns ih =>
    -- where the first name was seen, none of those that are left is it
    have shifted {seen : List String} (hn : n ∈ seen) {a : String} (ha : a ∈ dedup seen ns) :
        (n :: ns).idxOf a = ns.idxOf a + 1 := by
      have hne : n ≠ a := fun h => (mem_dedup.mp ha).2 (h ▸ hn)
      rw [List.idxOf_cons, beq_eq_false_iff_ne.mpr hne, cond_false]
    have rest {seen : List String} (hn : n ∈ seen) :
        (dedup seen ns).Pairwise fun a b => (n :: ns).idxOf a < (n :: ns).idxOf b := by
      refine (ih seen).imp_of_mem fun ha hb hlt => ?_
      rw [shifted hn ha, shifted hn hb]
      exact Nat.succ_lt_succ hlt
    unfold dedup
    split
    · next hseen => exact rest (by simpa using hseen)
    · refine List.pairwise_cons.mpr ⟨fun a ha => ?_, rest List.mem_cons_self⟩
      rw [List.idxOf_cons_self, shifted List.mem_cons_self ha]
      exact Nat.succ_pos _

/-! ## Import forms -/

/-- The module that an import form names. -/
def Node.loaded? : Node → Option String
  | .load _ name => some name
  | _ => none

/-- What a node consists of is smaller than the node. -/
theorem Node.sizeOf_inside {n c : Node} (h : c ∈ n.inside) : sizeOf c < sizeOf n := by
  have listed {ns : List Node} (h : c ∈ ns) : sizeOf c < sizeOf ns := List.sizeOf_lt_of_mem h
  cases n with
  | leave line value => cases value <;> simp_all [inside, parts]; omega
  | raise line name message => cases message <;> simp_all [inside, parts]; omega
  | branch line condition taken other =>
    simp only [inside, parts, List.mem_cons, List.mem_append] at h
    rcases h with rfl | h | h
    · simp; omega
    · have := listed h
      simp; omega
    · have := listed h
      simp; omega
  | loop line condition body =>
    simp only [inside, parts, List.mem_cons] at h
    rcases h with rfl | h
    · simp; omega
    · have := listed h
      simp; omega
  | call line callee args =>
    simp only [inside, parts, List.mem_cons] at h
    rcases h with rfl | h
    · simp; omega
    · have := listed h
      simp; omega
  | attempt line body handlers =>
    simp only [inside, parts, List.mem_append, List.mem_flatMap] at h
    rcases h with h | ⟨⟨name, binding, inner⟩, hclause, h⟩
    · have := listed h
      simp; omega
    · have hclause := List.sizeOf_lt_of_mem hclause
      have hinner : sizeOf c < sizeOf inner := listed h
      simp only [Clause.mk.sizeOf_spec] at hclause
      simp; omega
  | bind line name value | assign line name value | await line value =>
    simp only [inside, parts, List.mem_singleton] at h
    subst h
    simp only [bind.sizeOf_spec, assign.sizeOf_spec, await.sizeOf_spec]
    omega
  | literal | «variable» | member | load => cases h
  | _ =>
    simp only [inside, parts] at h
    have := listed h
    simp; omega

/-- The node and all that it consists of, to any depth, in reading order. -/
def Node.nodes (n : Node) : List Node :=
  n :: n.inside.attach.flatMap fun c => c.1.nodes
termination_by sizeOf n
decreasing_by exact Node.sizeOf_inside c.2

theorem Node.nodes_eq (n : Node) : n.nodes = n :: n.inside.flatMap Node.nodes := by
  rw [nodes]
  simp

/-- All nodes of a program, in reading order. -/
def Program.nodes (p : Program) : List Node := p.body.flatMap Node.nodes

theorem blockLoads_eq (ns : List Node) : blockLoads ns = ns.flatMap Node.loads := by
  induction ns with
  | nil => rfl
  | cons n ns ih => rw [blockLoads, ih, List.flatMap_cons]

theorem handlerLoads_eq (hs : List Handler) :
    handlerLoads hs = (hs.flatMap Clause.body).flatMap Node.loads := by
  induction hs with
  | nil => rfl
  | cons h hs ih =>
    rw [handlerLoads, ih, blockLoads_eq, List.flatMap_cons, List.flatMap_append]

/-- A node imports the module that it names, and those that the nodes inside it import. -/
theorem Node.loads_eq_inside (n : Node) :
    n.loads = n.loaded?.toList ++ n.inside.flatMap Node.loads := by
  cases n with
  | leave line value => cases value <;> simp [loads, loaded?, inside, parts]
  | raise line name message => cases message <;> simp [loads, loaded?, inside, parts]
  | _ => simp [loads, loaded?, inside, parts, blockLoads_eq, handlerLoads_eq]

theorem Node.loads_eq_nodes (n : Node) : n.loads = n.nodes.filterMap Node.loaded? := by
  induction n using Node.nodes.induct with
  | case1 n ih =>
    have hinside : n.inside.flatMap loads = (n.inside.flatMap nodes).filterMap loaded? := by
      rw [List.filterMap_flatMap]
      exact List.flatMap_congr fun c hc => ih ⟨c, hc⟩
    rw [nodes_eq, loads_eq_inside, hinside, List.filterMap_cons]
    cases n.loaded? <;> rfl

/-- The modules that are imported anywhere, with repetitions. -/
theorem Program.loads_eq_nodes (p : Program) :
    blockLoads p.body = p.nodes.filterMap Node.loaded? := by
  rw [blockLoads_eq, nodes, List.filterMap_flatMap]
  congr 1
  funext n
  exact n.loads_eq_nodes

/-! ## Modules that are not installed -/

/-- The modules that import forms of the program name, wherever these are, and that are not
installed: without repetitions, and in the order in which the program names them first. -/
structure Registry.IsAbsent (r : Registry) (p : Program) (names : List String) : Prop where
  mem : ∀ name, name ∈ names ↔ (∃ n ∈ p.nodes, n.loaded? = some name) ∧ r.get? name = none
  nodup : names.Nodup
  order : names.Pairwise fun a b =>
    (p.nodes.filterMap Node.loaded?).idxOf a < (p.nodes.filterMap Node.loaded?).idxOf b

theorem imports_absent (r : Registry) (p : Program) :
    r.IsAbsent p (p.imports.filter fun name => !r.contains name) where
  mem name := by
    rw [List.mem_filter, Program.imports, mem_dedup, p.loads_eq_nodes, List.mem_filterMap]
    simp [Registry.contains]
  nodup := (nodup_dedup _ _).filter _
  order := by
    rw [← p.loads_eq_nodes]
    exact (dedup_order _ _).filter _

end Lispbox
