import Lispbox.Proofs.Form.Refusals
import Lispbox.Proofs.Form.Symbols
import Lispbox.Proofs.Run.Discipline
import Lispbox.Program.Build

/-!
# Compiled code

A definition knows the file it was written in, and the function that it makes knows it from there.
`Node.IsOf` says of code that all its definitions, to any depth and in bodies of any kind, name one
file. The compiler produces such code, for the file that the program is of. Every node is made from
a form of the source (`Node.MadeFrom`): it is on the line of the form, and it raises an exception
only if the form is one that does, where the name of the exception is a symbol of the form.

* `settles_forms`: what the compiler makes of forms, and where it refuses them.
* `compile_made`: what a program that is compiled consists of, at any depth.
* `compile_isOwn`: every program that is compiled is code of its own file.
* `compile_raisesLines`: it raises only exceptions whose names have no line feed.
-/
namespace Lispbox

/-- What a node consists of, in its frame and in bodies with a frame of their own. -/
def Node.inside : Node → List Node
  | .define _ _ _ body _ _ | .defer _ body => body
  | n => n.parts

/-- The file that a definition names. -/
def Node.file? : Node → Option String
  | .define _ _ _ _ file _ => some file
  | _ => none

/-- The name of the exception that a node raises. -/
def Node.raised? : Node → Option String
  | .raise _ name _ => some name
  | _ => none

/-- The node is as required, and so is all that it consists of, to any depth. -/
inductive Node.Everywhere (P : Node → Prop) : Node → Prop where
  | of {n : Node} (self : P n) (inside : ∀ c ∈ n.inside, Node.Everywhere P c) :
    Node.Everywhere P n

/-- The definitions in the node, to any depth, name the file. -/
inductive Node.IsOf (file : String) : Node → Prop where
  | of {n : Node} (self : ∀ f ∈ n.file?, f = file) (inside : ∀ c ∈ n.inside, Node.IsOf file c) :
    Node.IsOf file n

/-- The program is code of its file. -/
def Program.IsOwn (p : Program) : Prop := ∀ n ∈ p.body, n.IsOf p.file

/-- The exceptions that the node raises, to any depth, have names without a line feed. -/
abbrev Node.RaisesLines : Node → Prop :=
  Node.Everywhere fun n => ∀ name ∈ n.raised?, '\n' ∉ name.toList

/-- The program raises only exceptions whose names have no line feed. -/
def Program.RaisesLines (p : Program) : Prop := ∀ n ∈ p.body, n.RaisesLines

theorem Node.mem_inside {n c : Node} (h : c ∈ n.parts) : c ∈ n.inside := by
  cases n <;> first | exact h | simp [parts] at h

namespace Node.IsOf

variable {file : String} {n : Node}

theorem self (h : n.IsOf file) : ∀ f ∈ n.file?, f = file := by
  obtain ⟨hself, -⟩ := h
  exact hself

theorem inside (h : n.IsOf file) : ∀ c ∈ n.inside, c.IsOf file := by
  obtain ⟨-, hinside⟩ := h
  exact hinside

/-- A node that is no definition. -/
theorem plain (hf : n.file? = none) (hi : ∀ c ∈ n.inside, c.IsOf file) : n.IsOf file :=
  .of (fun f h => by rw [hf] at h; cases h) hi

end Node.IsOf

namespace Node.Everywhere

variable {P Q : Node → Prop} {n : Node}

theorem self (h : n.Everywhere P) : P n := by
  obtain ⟨hself, -⟩ := h
  exact hself

theorem inside (h : n.Everywhere P) : ∀ c ∈ n.inside, c.Everywhere P := by
  obtain ⟨-, hinside⟩ := h
  exact hinside

theorem mono (hPQ : ∀ n, P n → Q n) (h : n.Everywhere P) : n.Everywhere Q := by
  induction h with
  | of self _ ih => exact .of (hPQ _ self) ih

theorem isOf {file : String} (h : n.Everywhere fun n => ∀ f ∈ n.file?, f = file) :
    n.IsOf file := by
  induction h with
  | of self _ ih => exact .of self ih

end Node.Everywhere

/-- A node without parts that is no definition. -/
theorem isOf_leaf (file : String) {n : Node} (hf : n.file? = none) (hi : n.inside = []) :
    n.IsOf file :=
  .plain hf (by simp [hi])

/-! ## What the compiler builds -/

/-- The node is made from the form: it is on the line of the form, a definition names the file, and
it raises an exception only if the form is one that does, which names it by a symbol. -/
structure Node.MadeFrom (file : String) (f : Form) (n : Node) : Prop where
  line : n.line = f.pos.line
  file : ∀ g ∈ n.file?, g = file
  raised : ∀ name ∈ n.raised?, f.isHeadedBy "raise" ∧ ∃ g ∈ f.items, g.symbol? = some name

section

variable {file : String} {S : Form → Prop} {f : Form} {pos : Pos}

/-- Code that is made from forms as required. -/
abbrev Node.Made (file : String) (S : Form → Prop) : Node → Prop :=
  Node.Everywhere fun n => ∃ f, S f ∧ n.MadeFrom file f

/-- At the place is a form as required. -/
def HasForm (S : Form → Prop) (pos : Pos) : Prop := ∃ f, S f ∧ f.pos = pos

/-- Nodes that are no definitions and raise nothing. -/
theorem made_plain (hf : S f) {n : Node} (hline : n.line = f.pos.line) (hfile : n.file? = none)
    (hraised : n.raised? = none) (hinside : ∀ c ∈ n.inside, c.Made file S) : n.Made file S := by
  refine .of ⟨f, hf, hline, ?_, ?_⟩ hinside
  · intro g hg
    rw [hfile] at hg
    cases hg
  · intro name hname
    rw [hraised] at hname
    cases hname

/-- Such a node without parts. -/
theorem made_leaf (hf : S f) {n : Node} (hline : n.line = f.pos.line) (hfile : n.file? = none)
    (hraised : n.raised? = none) (hinside : n.inside = []) : n.Made file S :=
  made_plain hf hline hfile hraised (by simp [hinside])

/-- Such a node with one part. -/
theorem settles_one (hf : S f) {x : Built Node} {make : Node → Node}
    (hx : Settles (HasForm S) (Node.Made file S) x) (hline : ∀ n, (make n).line = f.pos.line)
    (hfile : ∀ n, (make n).file? = none) (hraised : ∀ n, (make n).raised? = none)
    (hinside : ∀ n, (make n).inside = [n]) :
    Settles (HasForm S) (Node.Made file S) (x >>= fun n => pure (make n)) :=
  settles_bind hx fun n hn => made_plain hf (hline n) (hfile n) (hraised n)
    (hinside n ▸ List.forall_mem_singleton.mpr hn)

/-- Such a node that consists of a block. -/
theorem settles_block (hf : S f) {x : Built Block} {make : Block → Node}
    (hx : Settles (HasForm S) (∀ n ∈ ·, n.Made file S) x)
    (hline : ∀ ns, (make ns).line = f.pos.line) (hfile : ∀ ns, (make ns).file? = none)
    (hraised : ∀ ns, (make ns).raised? = none) (hinside : ∀ ns, (make ns).inside = ns) :
    Settles (HasForm S) (Node.Made file S) (x >>= fun ns => pure (make ns)) :=
  settles_bind hx fun ns hns => made_plain hf (hline ns) (hfile ns) (hraised ns)
    ((hinside ns).symm ▸ hns)

/-! ### Names -/

theorem settles_refuse {α : Type} {P : α → Prop} (hf : S f) (flaw : Flaw) :
    Settles (HasForm S) P (refuse f flaw) := ⟨f, hf, rfl⟩

theorem settles_plainName (hf : S f) : Settles (HasForm S) (fun _ => True) (plainName f) := by
  unfold plainName
  split
  · split
    · trivial
    · exact settles_refuse hf _
  · exact settles_refuse hf _

theorem settles_moduleName (hf : S f) : Settles (HasForm S) (fun _ => True) (moduleName f) := by
  unfold moduleName
  split
  · split
    · trivial
    · exact settles_refuse hf _
  · split
    · trivial
    · exact settles_refuse hf _
  · exact settles_refuse hf _

theorem settles_exceptionName (hf : S f) :
    Settles (HasForm S) (fun name => f.symbol? = some name) (exceptionName f) := by
  unfold exceptionName
  split
  · next h => exact h
  · exact settles_refuse hf _

theorem settles_parameters (before : List String) {fs : List Form} (h : ∀ f ∈ fs, S f) :
    Settles (HasForm S) (fun _ => True) (parameters before fs) := by
  induction fs generalizing before with
  | nil => trivial
  | cons f fs ih =>
    obtain ⟨hf, hfs⟩ := List.forall_mem_cons.mp h
    refine settles_bind (settles_plainName hf) fun name _ => ?_
    split
    · exact settles_refuse hf _
    · exact settles_bind (ih _ hfs) fun _ _ => trivial

/-! ### Nodes -/

theorem settles_atomNode {a : Atom} (hf : S (.atom pos a)) :
    Settles (HasForm S) (Node.Made file S) (atomNode pos a) := by
  cases a with
  | symbol name =>
    unfold atomNode
    dsimp only
    split
    · split
      · exact ⟨_, hf, rfl⟩
      · exact made_leaf hf rfl rfl rfl rfl
    · exact made_leaf hf rfl rfl rfl rfl
  | _ => exact made_leaf hf rfl rfl rfl rfl

/-- What is built from the form is as required, and if the form is a list, what is built from its
items. -/
structure Form.Builds (file : String) (S : Form → Prop) (f : Form) : Prop where
  self : S f
  node : Settles (HasForm S) (Node.Made file S) (f.node file)
  items : ∀ g ∈ f.items, S g ∧ Settles (HasForm S) (Node.Made file S) (g.node file)

theorem settles_formNodes {fs : List Form}
    (h : ∀ f ∈ fs, Settles (HasForm S) (Node.Made file S) (f.node file)) :
    Settles (HasForm S) (∀ n ∈ ·, n.Made file S) (formNodes file fs) := by
  induction fs with
  | nil => exact fun n hn => by cases hn
  | cons f fs ih =>
    obtain ⟨hf, hfs⟩ := List.forall_mem_cons.mp h
    exact settles_bind hf fun n hn => settles_bind (ih hfs) fun ns hns =>
      List.forall_mem_cons.mpr ⟨hn, hns⟩

theorem settles_handlerNode {items : List Form}
    (h : ∀ f ∈ items, S f ∧ Settles (HasForm S) (Node.Made file S) (f.node file)) :
    Settles (HasForm S) (fun handler => ∀ n ∈ handler.body, n.Made file S)
      (handlerNode file items) := by
  cases items with
  | nil => exact fun n hn => by cases hn
  | cons first rest =>
    obtain ⟨hfirst, hrest⟩ := List.forall_mem_cons.mp h
    have hnodes := settles_formNodes fun f hf => (hrest f hf).2
    unfold handlerNode
    split
    · exact settles_bind hfirst.2 fun n hn => settles_bind hnodes fun ns hns =>
        List.forall_mem_cons.mpr ⟨hn, hns⟩
    · split
      · exact fun n hn => by cases hn
      · obtain ⟨hsecond, hbody⟩ := List.forall_mem_cons.mp hrest
        have hnodes := settles_formNodes fun f hf => (hbody f hf).2
        split
        · exact settles_bind hsecond.2 fun n hn => settles_bind hnodes fun ns hns =>
            List.forall_mem_cons.mpr ⟨hn, hns⟩
        · exact settles_bind (settles_plainName hsecond.1) fun binding _ =>
            settles_bind hnodes fun ns hns => hns

theorem settles_attemptParts (handling : Bool) {fs : List Form} (h : ∀ f ∈ fs, f.Builds file S) :
    Settles (HasForm S) (fun parts => (∀ n ∈ parts.1, n.Made file S) ∧
      ∀ handler ∈ parts.2, ∀ n ∈ handler.body, n.Made file S) (attemptParts file handling fs) := by
  induction fs generalizing handling with
  | nil => exact ⟨by simp, by simp⟩
  | cons f fs ih =>
    obtain ⟨hf, hfs⟩ := List.forall_mem_cons.mp h
    have statement {x : Built Node} (hx : Settles (HasForm S) (Node.Made file S) x) :
        Settles (HasForm S) (fun parts => (∀ n ∈ parts.1, n.Made file S) ∧
            ∀ handler ∈ parts.2, ∀ n ∈ handler.body, n.Made file S)
          (x >>= fun n => attemptParts file false fs >>= fun parts =>
            pure (n :: parts.1, parts.2)) :=
      settles_bind hx fun n hn => settles_bind (ih false hfs) fun parts hparts =>
        ⟨List.forall_mem_cons.mpr ⟨hn, hparts.1⟩, hparts.2⟩
    cases f with
    | atom pos a =>
      unfold attemptParts
      dsimp only
      split
      · exact ⟨_, hf.self, rfl⟩
      · exact statement hf.node
    | list pos items =>
      cases items with
      | nil => exact ⟨_, hf.self, rfl⟩
      | cons head items =>
        unfold attemptParts
        dsimp only
        split
        · have hitems := List.forall_mem_cons.mp hf.items
          exact settles_bind (settles_handlerNode hitems.2) fun handler hhandler =>
            settles_bind (ih true hfs) fun parts hparts =>
              ⟨hparts.1, List.forall_mem_cons.mpr ⟨hhandler, hparts.2⟩⟩
        · split
          · exact ⟨_, hf.self, rfl⟩
          · exact statement hf.node

theorem settles_listNode {items : List Form} (hlist : S (.list pos items))
    (h : ∀ f ∈ items, f.Builds file S) :
    Settles (HasForm S) (Node.Made file S) (listNode file pos items) := by
  have hhere : HasForm S pos := ⟨_, hlist, rfl⟩
  cases items with
  | nil => exact hhere
  | cons head args =>
    have hnodes : ∀ f ∈ head :: args, Settles (HasForm S) (Node.Made file S) (f.node file) :=
      fun f hf => (h f hf).node
    obtain ⟨hhead, hargs⟩ := List.forall_mem_cons.mp hnodes
    unfold listNode
    dsimp only
    split
    · -- let
      split
      · exact settles_bind (settles_plainName (h _ (by simp)).self) fun name _ =>
          settles_one hlist (hargs _ (by simp)) (fun _ => rfl) (fun _ => rfl) (fun _ => rfl)
            fun _ => rfl
      · exact hhere
    · -- set
      split
      · exact settles_bind (settles_plainName (h _ (by simp)).self) fun name _ =>
          settles_one hlist (hargs _ (by simp)) (fun _ => rfl) (fun _ => rfl) (fun _ => rfl)
            fun _ => rfl
      · exact hhere
    · -- def
      split
      · obtain ⟨-, hbody⟩ := List.forall_mem_cons.mp (List.forall_mem_cons.mp hargs).2
        refine settles_bind (settles_plainName (h _ (by simp)).self) fun name _ => ?_
        split
        · next hparams _ =>
          have hitems := (h _ (List.mem_cons_of_mem _ (List.mem_cons_of_mem _
            List.mem_cons_self))).items
          refine settles_bind (settles_parameters [] fun g hg => (hitems g hg).1) fun params _ => ?_
          refine settles_bind (settles_formNodes hbody) fun ns hns => ?_
          exact .of ⟨_, hlist, rfl, fun g hg => by cases hg; rfl, nofun⟩ hns
        · exact settles_refuse (h _ (by simp)).self _
      · exact hhere
    · -- if
      split
      · refine settles_bind (hargs _ (by simp)) fun c hc => ?_
        refine settles_bind (hargs _ (by simp)) fun t ht => ?_
        exact made_plain hlist rfl rfl rfl
          (List.forall_mem_cons.mpr ⟨hc, List.forall_mem_singleton.mpr ht⟩)
      · refine settles_bind (hargs _ (by simp)) fun c hc => ?_
        refine settles_bind (hargs _ (by simp)) fun t ht => ?_
        refine settles_bind (hargs _ (by simp)) fun o ho => ?_
        exact made_plain hlist rfl rfl rfl (List.forall_mem_cons.mpr ⟨hc,
          List.forall_mem_cons.mpr ⟨ht, List.forall_mem_singleton.mpr ho⟩⟩)
      · exact hhere
    · -- while
      split
      · obtain ⟨hcondition, hbody⟩ := List.forall_mem_cons.mp hargs
        refine settles_bind hcondition fun c hc => ?_
        refine settles_bind (settles_formNodes hbody) fun ns hns => ?_
        exact made_plain hlist rfl rfl rfl (List.forall_mem_cons.mpr ⟨hc, hns⟩)
      · exact hhere
    · -- do
      exact settles_block hlist (settles_formNodes hargs) (fun _ => rfl) (fun _ => rfl)
        (fun _ => rfl) fun _ => rfl
    · -- return
      split
      · exact made_leaf hlist rfl rfl rfl rfl
      · exact settles_one hlist (hargs _ (by simp)) (fun _ => rfl) (fun _ => rfl) (fun _ => rfl)
          fun _ => rfl
      · exact hhere
    · -- import
      split
      · exact settles_bind (settles_moduleName (h _ (by simp)).self) fun name _ =>
          made_leaf hlist rfl rfl rfl rfl
      · exact hhere
    · -- async
      exact settles_block hlist (settles_formNodes hargs) (fun _ => rfl) (fun _ => rfl)
        (fun _ => rfl) fun _ => rfl
    · -- await
      split
      · exact settles_one hlist (hargs _ (by simp)) (fun _ => rfl) (fun _ => rfl) (fun _ => rfl)
          fun _ => rfl
      · exact hhere
    · -- and
      exact settles_block hlist (settles_formNodes hargs) (fun _ => rfl) (fun _ => rfl)
        (fun _ => rfl) fun _ => rfl
    · -- or
      exact settles_block hlist (settles_formNodes hargs) (fun _ => rfl) (fun _ => rfl)
        (fun _ => rfl) fun _ => rfl
    · next hword => -- raise
      have hraised {name : String} {g : Form} (hg : g ∈ args) (hname : g.symbol? = some name)
          (message : Option Node) : ∀ raised ∈ (Node.raise pos.line name message).raised?,
            (Form.list pos (head :: args)).isHeadedBy "raise" ∧
              ∃ g ∈ (Form.list pos (head :: args)).items, g.symbol? = some raised := by
        rintro _ ⟨⟩
        exact ⟨beq_iff_eq.mpr hword, g, List.mem_cons_of_mem _ hg, hname⟩
      split
      · refine settles_bind (settles_exceptionName (h _ (by simp)).self) fun name hname => ?_
        exact .of ⟨_, hlist, rfl, nofun, hraised (by simp) hname none⟩ nofun
      · refine settles_bind (settles_exceptionName (h _ (by simp)).self) fun name hname => ?_
        refine settles_bind (hargs _ (by simp)) fun message hmessage => ?_
        exact .of ⟨_, hlist, rfl, nofun, hraised (by simp) hname _⟩
          (List.forall_mem_singleton.mpr hmessage)
      · exact hhere
    · -- try
      split
      · refine settles_bind (settles_attemptParts false (List.forall_mem_cons.mp h).2)
          fun parts hparts => ?_
        obtain ⟨hbody, hhandlers⟩ := hparts
        refine made_plain hlist rfl rfl rfl fun c hc => ?_
        rcases List.mem_append.mp hc with hc | hc
        · exact hbody c hc
        · obtain ⟨handler, hhandler, hc⟩ := List.mem_flatMap.mp hc
          exact hhandlers handler hhandler c hc
      · exact hhere
    · -- except
      exact hhere
    · -- a call
      refine settles_bind hhead fun callee hcallee => ?_
      refine settles_bind (settles_formNodes hargs) fun ns hns => ?_
      exact made_plain hlist rfl rfl rfl (List.forall_mem_cons.mpr ⟨hcallee, hns⟩)

/-- What is built from a form where it and all forms in it are as required. -/
theorem Form.Everywhere.builds (file : String) (h : f.Everywhere S) : f.Builds file S := by
  induction h with
  | @of f self items ih =>
    have hitems : ∀ g ∈ f.items, S g ∧ Settles (HasForm S) (Node.Made file S) (g.node file) :=
      fun g hg => ⟨(ih g hg).self, (ih g hg).node⟩
    refine ⟨self, ?_, hitems⟩
    cases f with
    | atom pos a => exact settles_atomNode self
    | list pos items => exact settles_listNode self ih

end

/-- The code of a source is made from its forms, and what is refused is one of them. -/
theorem settles_forms (file : String) (fs : List Form) :
    Settles (HasForm (· ∈ formsWithin fs)) (∀ n ∈ ·, n.Made file (· ∈ formsWithin fs))
      (formNodes file fs) :=
  settles_formNodes fun _ hf => ((everywhere_within hf).builds file).node

/-- What a program that is compiled consists of. -/
theorem compile_made {source file : String} {maxDepth : Nat} {p : Program}
    (h : compile source file maxDepth = .ok p) :
    ∃ fs, parse source file maxDepth = .ok fs ∧ p.file = file ∧ p.source = source ∧
      ∀ n ∈ p.body, n.Made file (· ∈ formsWithin fs) := by
  unfold compile at h
  cases hforms : parse source file maxDepth with
  | error e => rw [hforms] at h; cases h
  | ok fs =>
    rw [hforms] at h
    have hsettles := settles_forms file fs
    change Program.ofForms source file fs = .ok p at h
    unfold Program.ofForms at h
    split at h
    · next body hbody =>
      cases h
      rw [hbody] at hsettles
      exact ⟨fs, rfl, rfl, rfl, hsettles⟩
    · cases h

/-- A program that is compiled is of the file that is named, and its code is as well. -/
theorem compile_isOwn {source file : String} {maxDepth : Nat} {p : Program}
    (h : compile source file maxDepth = .ok p) : p.file = file ∧ p.IsOwn := by
  obtain ⟨fs, -, rfl, -, hbody⟩ := compile_made h
  refine ⟨rfl, fun n hn => ((hbody n hn).mono fun c hc => ?_).isOf⟩
  obtain ⟨f, -, hmade⟩ := hc
  exact hmade.file

theorem compile_raisesLines {source file : String} {maxDepth : Nat} {p : Program}
    (h : compile source file maxDepth = .ok p) : p.RaisesLines := by
  obtain ⟨fs, hparse, -, -, hbody⟩ := compile_made h
  refine fun n hn => (hbody n hn).mono fun c hc name hname => ?_
  obtain ⟨f, hf, hmade⟩ := hc
  obtain ⟨-, g, hg, hsymbol⟩ := hmade.raised name hname
  exact (parse_symbols hparse (items_formsWithin hf hg) hsymbol).single_line

end Lispbox
