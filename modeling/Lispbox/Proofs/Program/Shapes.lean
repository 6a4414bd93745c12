import Lispbox.Proofs.Form.Places
import Lispbox.Program.Build

/-!
# The shapes of forms

Which forms have a meaning is said here without the compiler. A form that is evaluated is an atom or
a list (`Form.IsValid`); a list that starts with the word of a special form has to have the parts
that belong to this word, and in each shape it is told which of the parts are evaluated in turn and
which are only names. The clauses of a `try` form have shapes of their own (`Form.IsClause`) and
stand nowhere else.

* `accepts_iff_valid`: a single form.
* `accepted_iff_valid`: the compiler accepts the forms of a source if all of them are valid, and
  no others.
-/
namespace Lispbox

/-! ## Names -/

/-- A name that can be bound. -/
structure IsPlain (name : String) : Prop where
  undotted : '.' ∉ name.toList
  unreserved : name ∉ specialForms

/-- There is something in front of the first point of the name, and another point behind it. -/
def IsNested (name : String) : Prop :=
  ∃ object member, name.toList = object ++ '.' :: member ∧ '.' ∉ object ∧ object ≠ [] ∧
    '.' ∈ member

/-- A character of the name of a module. -/
def IsModuleChar (c : Char) : Prop :=
  ('a' ≤ c ∧ c ≤ 'z') ∨ ('A' ≤ c ∧ c ≤ 'Z') ∨ ('0' ≤ c ∧ c ≤ '9') ∨ c = '_' ∨ c = '-'

/-- A name that a module can have. -/
def IsModuleName (name : String) : Prop := name ≠ "" ∧ ∀ c ∈ name.toList, IsModuleChar c

namespace Form

/-- The form is a symbol with a name that can be bound. -/
def IsPlainName (f : Form) : Prop := ∃ name, f.symbol? = some name ∧ IsPlain name

/-- The form is a symbol, or a text, that a module can be named by. -/
def NamesModule (f : Form) : Prop :=
  ∃ pos name, (f = .atom pos (.symbol name) ∨ f = .atom pos (.text name)) ∧ IsModuleName name

/-- The form is a list of different names that can be bound. -/
def IsParameterList (f : Form) : Prop :=
  ∃ (pos : Pos) (params : List Form) (names : List String), f = .list pos params ∧
    params.map symbol? = names.map some ∧ (∀ name ∈ names, IsPlain name) ∧ names.Nodup

/-- The form does not start with a symbol that would be taken for a name in front of it. -/
def BeginsUnnamed (body : List Form) : Prop := ∀ f ∈ body.head?, f.symbol? = none

/-! ## Shapes -/

mutual

/-- The form can be evaluated. -/
inductive IsValid : Form → Prop where
  | atom {pos : Pos} {a : Atom} (h : ∀ name, a = .symbol name → ¬IsNested name) :
    IsValid (.atom pos a)
  | binding {pos : Pos} {word name value : Form}
    (hword : word.symbol? = some "let" ∨ word.symbol? = some "set") (hname : name.IsPlainName)
    (hvalue : value.IsValid) : IsValid (.list pos [word, name, value])
  | definition {pos : Pos} {word name params : Form} {body : List Form}
    (hword : word.symbol? = some "def") (hname : name.IsPlainName)
    (hparams : params.IsParameterList) (hbody : ∀ f ∈ body, f.IsValid) :
    IsValid (.list pos (word :: name :: params :: body))
  | branch {pos : Pos} {word : Form} {parts : List Form} (hword : word.symbol? = some "if")
    (hcount : parts.length = 2 ∨ parts.length = 3) (hparts : ∀ f ∈ parts, f.IsValid) :
    IsValid (.list pos (word :: parts))
  | loop {pos : Pos} {word : Form} {parts : List Form} (hword : word.symbol? = some "while")
    (hcount : 1 ≤ parts.length) (hparts : ∀ f ∈ parts, f.IsValid) :
    IsValid (.list pos (word :: parts))
  | sequence {pos : Pos} {word : Form} {name : String} {parts : List Form}
    (hword : word.symbol? = some name) (hname : name ∈ ["do", "async", "and", "or"])
    (hparts : ∀ f ∈ parts, f.IsValid) : IsValid (.list pos (word :: parts))
  | leave {pos : Pos} {word : Form} {parts : List Form} (hword : word.symbol? = some "return")
    (hcount : parts.length ≤ 1) (hparts : ∀ f ∈ parts, f.IsValid) :
    IsValid (.list pos (word :: parts))
  | load {pos : Pos} {word name : Form} (hword : word.symbol? = some "import")
    (hname : name.NamesModule) : IsValid (.list pos [word, name])
  | await {pos : Pos} {word value : Form} (hword : word.symbol? = some "await")
    (hvalue : value.IsValid) : IsValid (.list pos [word, value])
  | raise {pos : Pos} {word name : Form} {message : List Form}
    (hword : word.symbol? = some "raise") (hname : name.symbol?.isSome)
    (hcount : message.length ≤ 1) (hmessage : ∀ f ∈ message, f.IsValid) :
    IsValid (.list pos (word :: name :: message))
  | attempt {pos : Pos} {word : Form} {body clauses : List Form}
    (hword : word.symbol? = some "try") (hbody : ∀ f ∈ body, f.IsValid) (hcount : clauses ≠ [])
    (hclauses : ∀ f ∈ clauses, f.IsClause) : IsValid (.list pos (word :: (body ++ clauses)))
  | call {pos : Pos} {head : Form} {args : List Form}
    (hhead : ∀ name ∈ head.symbol?, name ∉ specialForms) (hvalid : head.IsValid)
    (hargs : ∀ f ∈ args, f.IsValid) : IsValid (.list pos (head :: args))

/-- The form is a clause at the end of a `try` form: for all exceptions, for those of a name, or for
those of a name with a variable for the message. -/
inductive IsClause : Form → Prop where
  | all {pos : Pos} {word : Form} {body : List Form} (hword : word.symbol? = some "except")
    (hfirst : BeginsUnnamed body) (hbody : ∀ f ∈ body, f.IsValid) :
    IsClause (.list pos (word :: body))
  | named {pos : Pos} {word name : Form} {body : List Form} (hword : word.symbol? = some "except")
    (hname : name.symbol?.isSome) (hfirst : BeginsUnnamed body) (hbody : ∀ f ∈ body, f.IsValid) :
    IsClause (.list pos (word :: name :: body))
  | bound {pos : Pos} {word name binding : Form} {body : List Form}
    (hword : word.symbol? = some "except") (hname : name.symbol?.isSome)
    (hbinding : binding.IsPlainName) (hbody : ∀ f ∈ body, f.IsValid) :
    IsClause (.list pos (word :: name :: binding :: body))

end

end Form

/-! ## Names that are accepted -/

section

variable {ε α β : Type} {f : Form} {name file : String}

theorem isOk_iff {x : Except ε α} : x.isOk ↔ ∃ a, x = .ok a := by
  cases x <;> simp [Except.isOk, Except.toBool]

theorem not_isOk_error {e : ε} : ¬(Except.error e : Except ε α).isOk := Bool.false_ne_true

/-- A computation in two parts is accepted if both parts are, where the second one does not depend
on what the first one makes. -/
theorem isOk_bind {x : Except ε α} {g : α → Except ε β} {p : Prop}
    (h : ∀ a, x = .ok a → ((g a).isOk ↔ p)) : (x >>= g).isOk ↔ x.isOk ∧ p := by
  cases x with
  | ok a => exact (h a rfl).trans (by simp [Except.isOk, Except.toBool])
  | error e => simp [Except.isOk, Except.toBool, bind, Except.bind]

/-- What is made of an accepted result does not matter. -/
theorem isOk_map {x : Except ε α} {g : α → β} : (x >>= fun a => pure (g a)).isOk ↔ x.isOk := by
  cases x <;> rfl

theorem isPlainName_iff : isPlainName name = true ↔ IsPlain name := by
  have hdot : name.toList.contains '.' = false ↔ '.' ∉ name.toList := by
    rw [← Bool.not_eq_true, List.contains_iff_mem]
  have hword : specialForms.contains name = false ↔ name ∉ specialForms := by
    rw [← Bool.not_eq_true, List.contains_iff_mem]
  rw [isPlainName, Bool.and_eq_true, Bool.not_eq_true', Bool.not_eq_true', hdot, hword]
  exact ⟨fun h => ⟨h.1, h.2⟩, fun h => ⟨h.undotted, h.unreserved⟩⟩

theorem plainName_eq_ok : plainName f = .ok name ↔ f.symbol? = some name ∧ IsPlain name := by
  unfold plainName
  split
  · next x hx =>
    split
    · next hplain =>
      rw [isPlainName_iff] at hplain
      rw [hx]
      constructor
      · rintro ⟨⟩
        exact ⟨rfl, hplain⟩
      · rintro ⟨⟨⟩, -⟩
        rfl
    · next hplain =>
      rw [isPlainName_iff] at hplain
      rw [hx]
      constructor
      · rintro ⟨⟩
      · rintro ⟨⟨⟩, h⟩
        exact absurd h hplain
  · next hx =>
    rw [hx]
    constructor
    · rintro ⟨⟩
    · rintro ⟨⟨⟩, -⟩

theorem plainName_isOk : (plainName f).isOk ↔ f.IsPlainName := by
  rw [isOk_iff]
  exact exists_congr fun _ => plainName_eq_ok

/-- The letters and digits are those of ASCII. -/
theorem isAlphanum_eq (c : Char) : c.isAlphanum =
    ((decide ('A' ≤ c ∧ c ≤ 'Z') || (decide ('a' ≤ c) && decide (c ≤ 'z'))) ||
      (decide ('0' ≤ c) && decide (c ≤ '9'))) := rfl

theorem isModuleName_iff : isModuleName name = true ↔ IsModuleName name := by
  have hchar (c : Char) : (c.isAlphanum || c == '_' || c == '-') = true ↔ IsModuleChar c := by
    simp only [isAlphanum_eq, Bool.or_eq_true, beq_iff_eq, Bool.and_eq_true, decide_eq_true_eq,
      IsModuleChar]
    tauto
  have hempty : name.isEmpty = false ↔ name ≠ "" := by
    rw [← Bool.not_eq_true, String.isEmpty_iff]
  simp only [isModuleName, Bool.and_eq_true, Bool.not_eq_true', List.all_eq_true, hchar, hempty,
    IsModuleName]

theorem moduleName_isOk : (moduleName f).isOk ↔ f.NamesModule := by
  have named {f : Form} {name : String} {pos : Pos}
      (h : f = .atom pos (.symbol name) ∨ f = .atom pos (.text name)) (flaw : Flaw) :
      ((if isModuleName name then .ok name else refuse f flaw : Built String)).isOk ↔
        f.NamesModule := by
    split
    · next hname => exact iff_of_true rfl ⟨pos, name, h, isModuleName_iff.mp hname⟩
    · next hname =>
      refine iff_of_false not_isOk_error ?_
      rintro ⟨pos', name', h', hname'⟩
      refine hname (isModuleName_iff.mpr ?_)
      rcases h with rfl | rfl <;> rcases h' with h' | h' <;> cases h' <;> exact hname'
  unfold moduleName
  split
  · exact named (.inl rfl) _
  · exact named (.inr rfl) _
  · next hsymbol htext =>
    refine iff_of_false not_isOk_error ?_
    rintro ⟨pos, name, rfl | rfl, -⟩
    · exact hsymbol _ _ rfl
    · exact htext _ _ rfl

theorem exceptionName_isOk : (exceptionName f).isOk ↔ f.symbol?.isSome := by
  unfold exceptionName
  split
  · next h => rw [h]; rfl
  · next h => rw [h]; rfl

/-- A parameter is accepted if it can be bound and is none of those before. -/
theorem parameters_cons_eq_ok {before names : List String} {f : Form} {fs : List Form} :
    parameters before (f :: fs) = .ok names ↔ ∃ name rest, plainName f = .ok name ∧
      name ∉ before ∧ parameters (name :: before) fs = .ok rest ∧ names = name :: rest := by
  rw [parameters]
  cases plainName f with
  | error e =>
    constructor
    · rintro ⟨⟩
    · rintro ⟨_, _, ⟨⟩, -⟩
  | ok name =>
    change (if before.contains name then _ else _) = _ ↔ _
    split
    · next hseen =>
      constructor
      · rintro ⟨⟩
      · rintro ⟨_, _, ⟨⟩, hnew, -⟩
        exact absurd (List.contains_iff_mem.mp hseen) hnew
    · next hnew =>
      rw [List.contains_iff_mem] at hnew
      cases hrest : parameters (name :: before) fs with
      | error e =>
        constructor
        · rintro ⟨⟩
        · rintro ⟨_, _, ⟨⟩, -, h, -⟩
          rw [hrest] at h
          cases h
      | ok rest =>
        constructor
        · rintro ⟨⟩
          exact ⟨name, rest, rfl, hnew, hrest, rfl⟩
        · rintro ⟨_, _, ⟨⟩, -, h, rfl⟩
          rw [hrest] at h
          cases h
          rfl

/-- The parameters of a function are different names that can be bound, none of them among those
before. -/
theorem parameters_eq_ok {before names : List String} {fs : List Form} :
    parameters before fs = .ok names ↔ fs.map Form.symbol? = names.map some ∧
      (∀ name ∈ names, IsPlain name) ∧ names.Nodup ∧ ∀ name ∈ names, name ∉ before := by
  induction fs generalizing before names with
  | nil =>
    constructor
    · rintro ⟨⟩
      exact ⟨rfl, nofun, List.nodup_nil, nofun⟩
    · rintro ⟨h, -⟩
      cases names with
      | nil => rfl
      | cons name names => cases h
  | cons f fs ih =>
    rw [parameters_cons_eq_ok]
    constructor
    · rintro ⟨name, rest, hname, hnew, hrest, rfl⟩
      obtain ⟨hsymbol, hplain⟩ := plainName_eq_ok.mp hname
      obtain ⟨hsymbols, hplains, hnodup, hothers⟩ := ih.mp hrest
      refine ⟨?_, List.forall_mem_cons.mpr ⟨hplain, hplains⟩, List.nodup_cons.mpr ⟨?_, hnodup⟩,
        List.forall_mem_cons.mpr ⟨hnew, ?_⟩⟩
      · rw [List.map_cons, List.map_cons, hsymbol, hsymbols]
      · exact fun h => hothers name h List.mem_cons_self
      · exact fun x hx h => hothers x hx (List.mem_cons_of_mem _ h)
    · rintro ⟨hsymbols, hplains, hnodup, hothers⟩
      cases names with
      | nil => cases hsymbols
      | cons name rest =>
        obtain ⟨hsymbol, hsymbols⟩ := List.cons.inj hsymbols
        obtain ⟨hplain, hplains⟩ := List.forall_mem_cons.mp hplains
        obtain ⟨hnew, hothers⟩ := List.forall_mem_cons.mp hothers
        obtain ⟨hfirst, hnodup⟩ := List.nodup_cons.mp hnodup
        refine ⟨name, rest, plainName_eq_ok.mpr ⟨hsymbol, hplain⟩, hnew,
          ih.mpr ⟨hsymbols, hplains, hnodup, fun x hx h => ?_⟩, rfl⟩
        rcases List.mem_cons.mp h with rfl | h
        · exact hfirst hx
        · exact hothers x hx h

theorem parameters_isOk {pos : Pos} {fs : List Form} :
    (parameters [] fs).isOk ↔ (Form.list pos fs).IsParameterList := by
  rw [isOk_iff]
  constructor
  · rintro ⟨names, h⟩
    obtain ⟨hsymbols, hplains, hnodup, -⟩ := parameters_eq_ok.mp h
    exact ⟨pos, fs, names, rfl, hsymbols, hplains, hnodup⟩
  · rintro ⟨_, _, names, ⟨⟩, hsymbols, hplains, hnodup⟩
    exact ⟨names, parameters_eq_ok.mpr ⟨hsymbols, hplains, hnodup, nofun⟩⟩

/-! ## Atoms -/

/-- The first point of a name is where the characters that are no points end. -/
theorem isNested_iff : IsNested name ↔ name.toList.takeWhile (· != '.') ≠ [] ∧
    '.' ∈ (name.toList.dropWhile (· != '.')).drop 1 := by
  constructor
  · rintro ⟨object, member, hname, hobject, hne, hmember⟩
    have hbefore : ∀ c ∈ object, (c != '.') = true := fun c hc =>
      bne_iff_ne.mpr fun h => hobject (h ▸ hc)
    rw [hname, List.takeWhile_append_of_pos hbefore, List.dropWhile_append_of_pos hbefore]
    simpa [List.takeWhile_cons, List.dropWhile_cons] using ⟨hne, hmember⟩
  · rintro ⟨hne, hmember⟩
    have hsplit := List.takeWhile_append_dropWhile (p := (· != '.')) (l := name.toList)
    have hpoint := List.head?_dropWhile_not (· != '.') name.toList
    cases hrest : name.toList.dropWhile (· != '.') with
    | nil =>
      rw [hrest] at hmember
      cases hmember
    | cons c member =>
      rw [hrest] at hsplit hpoint hmember
      have hc : c = '.' := by simpa using hpoint
      refine ⟨_, member, hc ▸ hsplit.symm, fun h => ?_, hne, hmember⟩
      exact absurd (List.all_eq_true.mp List.all_takeWhile _ h) (by decide)

theorem atomNode_isOk {pos : Pos} {a : Atom} :
    (atomNode pos a).isOk ↔ (Form.atom pos a).IsValid := by
  have hvalid : (Form.atom pos a).IsValid ↔ ∀ name, a = .symbol name → ¬IsNested name :=
    ⟨fun h => by cases h; assumption, .atom⟩
  rw [hvalid]
  cases a with
  | symbol name =>
    have hname : (∀ x, Atom.symbol name = .symbol x → ¬IsNested x) ↔ ¬IsNested name :=
      ⟨fun h => h name rfl, fun h x hx => by cases hx; exact h⟩
    rw [hname, isNested_iff]
    unfold atomNode splitMember
    dsimp only
    generalize name.toList.takeWhile (· != '.') = object
    generalize (name.toList.dropWhile (· != '.')).drop 1 = member
    cases object with
    | nil => exact iff_of_true rfl fun h => h.1 rfl
    | cons c object =>
      cases member with
      | nil => exact iff_of_true rfl fun h => by cases h.2
      | cons d member =>
        change (if (String.ofList (d :: member)).toList.contains '.' then _ else _ :
          Built Node).isOk ↔ _
        rw [String.toList_ofList]
        split
        · next h =>
          refine iff_of_false not_isOk_error fun hn => hn ⟨List.cons_ne_nil c object, ?_⟩
          exact List.contains_iff_mem.mp h
        · next h => exact iff_of_true rfl fun hn => h (List.contains_iff_mem.mpr hn.2)
  | _ => exact iff_of_true rfl nofun

end

/-! ## Lists -/

section

variable {file : String} {pos : Pos} {head word : Form} {items args : List Form}

/-- The compiler accepts the form if it is valid, and not otherwise. -/
def Form.IsJudged (file : String) (f : Form) : Prop := (f.node file).isOk ↔ f.IsValid

theorem formNodes_isOk {fs : List Form} (h : ∀ f ∈ fs, f.IsJudged file) :
    (formNodes file fs).isOk ↔ ∀ f ∈ fs, f.IsValid := by
  induction fs with
  | nil => exact iff_of_true rfl nofun
  | cons f fs ih =>
    obtain ⟨hf, hfs⟩ := List.forall_mem_cons.mp h
    rw [formNodes, List.forall_mem_cons]
    refine (isOk_bind fun n _ => ?_).trans (and_congr_left' hf)
    exact isOk_map.trans (ih hfs)

/-- One node and then others. -/
theorem nodes_isOk {α : Type} {f : Form} {fs : List Form} (h : ∀ g ∈ f :: fs, g.IsJudged file)
    {make : Node → Block → α} :
    (f.node file >>= fun n => formNodes file fs >>= fun ns => pure (make n ns)).isOk ↔
      ∀ g ∈ f :: fs, g.IsValid := by
  obtain ⟨hf, hfs⟩ := List.forall_mem_cons.mp h
  rw [List.forall_mem_cons]
  refine (isOk_bind fun n _ => ?_).trans (and_congr_left' hf)
  exact isOk_map.trans (formNodes_isOk hfs)

/-! ### Clauses -/

theorem isClause_of_isOk (hword : word.symbol? = some "except")
    (h : ∀ f ∈ items, f.IsJudged file) (hok : (handlerNode file items).isOk) :
    (Form.list pos (word :: items)).IsClause := by
  have unnamed {f : Form} {fs : List Form} (hf : f.symbol? = none) :
      Form.BeginsUnnamed (f :: fs) := fun g hg => by cases hg; exact hf
  cases items with
  | nil => exact .all hword nofun nofun
  | cons first rest =>
    have hrest := (List.forall_mem_cons.mp h).2
    unfold handlerNode at hok
    split at hok
    · next hfirst => exact .all hword (unnamed hfirst) ((nodes_isOk h).mp hok)
    · next name hname =>
      have hsome : first.symbol?.isSome := by rw [hname]; rfl
      split at hok
      · exact .named hword hsome nofun nofun
      · split at hok
        · next hsecond => exact .named hword hsome (unnamed hsecond) ((nodes_isOk hrest).mp hok)
        · have hbody := (List.forall_mem_cons.mp hrest).2
          obtain ⟨hbinding, hok⟩ := (isOk_bind fun _ _ => isOk_map.trans
            (formNodes_isOk hbody)).mp hok
          exact .bound hword hsome (plainName_isOk.mp hbinding) hok

theorem isOk_of_isClause (h : ∀ f ∈ items, f.IsJudged file)
    (hclause : (Form.list pos (word :: items)).IsClause) : (handlerNode file items).isOk := by
  cases hclause with
  | all _ hfirst hbody =>
    cases items with
    | nil => rfl
    | cons first rest =>
      rw [handlerNode, hfirst first rfl]
      exact (nodes_isOk h).mpr hbody
  | @named _ _ name body _ hname hfirst hbody =>
    have hrest := (List.forall_mem_cons.mp h).2
    obtain ⟨x, hx⟩ := Option.isSome_iff_exists.mp hname
    cases body with
    | nil =>
      rw [handlerNode, hx]
      rfl
    | cons second body =>
      rw [handlerNode, hx]
      dsimp only
      rw [hfirst second rfl]
      exact (nodes_isOk hrest).mpr hbody
  | @bound _ _ name binding body _ hname hbinding hbody =>
    have hrest := (List.forall_mem_cons.mp (List.forall_mem_cons.mp h).2).2
    obtain ⟨x, hx⟩ := Option.isSome_iff_exists.mp hname
    have hsymbol := hbinding
    obtain ⟨y, hy, -⟩ := hsymbol
    rw [handlerNode, hx]
    dsimp only
    rw [hy]
    exact (isOk_bind fun _ _ => isOk_map.trans (formNodes_isOk hrest)).mpr
      ⟨plainName_isOk.mpr hbinding, hbody⟩

/-! ### Attempts -/

theorem Form.isHeadedBy_list {name : String} :
    (Form.list pos (word :: items)).isHeadedBy name = true ↔ word.symbol? = some name :=
  beq_iff_eq

/-- A form that can be evaluated is no clause. -/
theorem Form.IsValid.not_headed {f : Form} (h : f.IsValid) : ¬f.isHeadedBy "except" := by
  have other {pos : Pos} {word : Form} {items : List Form} {name : String}
      (hword : word.symbol? = some name) (hne : name ≠ "except") :
      ¬(Form.list pos (word :: items)).isHeadedBy "except" := by
    rw [isHeadedBy_list, hword]
    exact fun h => hne (Option.some.inj h)
  cases h with
  | atom => exact Bool.false_ne_true
  | binding hword => rcases hword with hword | hword <;> exact other hword (by decide)
  | sequence hword hname => exact other hword fun h => by subst h; revert hname; decide
  | call hhead =>
    rw [isHeadedBy_list]
    exact fun h => hhead _ h (by decide)
  | definition hword | branch hword | loop hword | leave hword | load hword | await hword
  | raise hword | attempt hword => exact other hword (by decide)

theorem Form.IsClause.headed {f : Form} (h : f.IsClause) : f.isHeadedBy "except" := by
  cases h <;> exact isHeadedBy_list.mpr ‹_›

/-- A clause, and what follows it. -/
theorem attemptParts_clause (handling : Bool) (hword : word.symbol? = some "except")
    (fs : List Form) :
    attemptParts file handling (.list pos (word :: items) :: fs) =
      (handlerNode file items >>= fun handler => attemptParts file true fs >>= fun parts =>
        pure (parts.1, handler :: parts.2)) := by
  rw [attemptParts]
  dsimp only
  rw [if_pos hword]

/-- A statement of the body, and what follows it. -/
theorem attemptParts_statement {f : Form} (hf : ¬f.isHeadedBy "except") (fs : List Form) :
    attemptParts file false (f :: fs) =
      (f.node file >>= fun n => attemptParts file false fs >>= fun parts =>
        pure (n :: parts.1, parts.2)) := by
  cases f with
  | atom pos a => rfl
  | list pos items =>
    cases items with
    | nil => rfl
    | cons head items =>
      rw [Form.isHeadedBy_list] at hf
      rw [attemptParts]
      dsimp only
      rw [if_neg hf]
      rfl

/-- Nothing but clauses stands behind a clause. -/
theorem attemptParts_stray {f : Form} (hf : ¬f.isHeadedBy "except") (fs : List Form) :
    ¬(attemptParts file true (f :: fs)).isOk := by
  cases f with
  | atom pos a => exact not_isOk_error
  | list pos items =>
    cases items with
    | nil => exact not_isOk_error
    | cons head items =>
      rw [Form.isHeadedBy_list] at hf
      rw [attemptParts]
      dsimp only
      rw [if_neg hf]
      exact not_isOk_error

/-- A form that is headed by the word of clauses. -/
theorem Form.exists_of_headed {f : Form} {name : String} (h : f.isHeadedBy name) :
    ∃ pos word items, f = .list pos (word :: items) ∧ word.symbol? = some name := by
  cases f with
  | atom => cases h
  | list pos items =>
    cases items with
    | nil => cases h
    | cons word items => exact ⟨pos, word, items, rfl, isHeadedBy_list.mp h⟩

theorem clause_isOk {f : Form} (h : ∀ g ∈ f.items, g.IsJudged file)
    (hf : f.isHeadedBy "except") (handling : Bool) (fs : List Form) :
    (attemptParts file handling (f :: fs)).isOk ↔
      f.IsClause ∧ (attemptParts file true fs).isOk := by
  obtain ⟨pos, word, items, rfl, hword⟩ := Form.exists_of_headed hf
  have hitems := (List.forall_mem_cons.mp h).2
  rw [attemptParts_clause handling hword]
  refine (isOk_bind fun handler _ => isOk_map).trans (and_congr_left' ?_)
  exact ⟨isClause_of_isOk hword hitems, isOk_of_isClause hitems⟩

/-- Behind the first clause there are only clauses. -/
theorem attemptParts_true_isOk {fs : List Form} (h : ∀ f ∈ fs, ∀ g ∈ f.items, g.IsJudged file) :
    (attemptParts file true fs).isOk ↔ ∀ f ∈ fs, f.IsClause := by
  induction fs with
  | nil => exact iff_of_true rfl nofun
  | cons f fs ih =>
    obtain ⟨hf, hfs⟩ := List.forall_mem_cons.mp h
    rw [List.forall_mem_cons]
    by_cases hhead : f.isHeadedBy "except"
    · rw [clause_isOk hf hhead, ih hfs]
    · exact iff_of_false (attemptParts_stray hhead fs) fun hall => hhead hall.1.headed

/-- A `try` form has statements, and behind them clauses. -/
theorem attemptParts_false_isOk {fs : List Form}
    (h : ∀ f ∈ fs, f.IsJudged file ∧ ∀ g ∈ f.items, g.IsJudged file) :
    (attemptParts file false fs).isOk ↔ ∃ body clauses, fs = body ++ clauses ∧
      (∀ f ∈ body, f.IsValid) ∧ ∀ f ∈ clauses, f.IsClause := by
  induction fs with
  | nil => exact iff_of_true rfl ⟨[], [], rfl, nofun, nofun⟩
  | cons f fs ih =>
    obtain ⟨hf, hfs⟩ := List.forall_mem_cons.mp h
    by_cases hhead : f.isHeadedBy "except"
    · rw [clause_isOk hf.2 hhead, attemptParts_true_isOk fun g hg => (hfs g hg).2]
      constructor
      · rintro ⟨hclause, hclauses⟩
        exact ⟨[], f :: fs, rfl, nofun, List.forall_mem_cons.mpr ⟨hclause, hclauses⟩⟩
      · rintro ⟨body, clauses, heq, hbody, hclauses⟩
        cases body with
        | nil =>
          subst heq
          exact List.forall_mem_cons.mp hclauses
        | cons g body =>
          cases heq
          exact absurd hhead (hbody f List.mem_cons_self).not_headed
    · rw [attemptParts_statement hhead]
      refine (isOk_bind fun n _ => isOk_map.trans (ih hfs)).trans ?_
      constructor
      · rintro ⟨hvalid, body, clauses, rfl, hbody, hclauses⟩
        exact ⟨f :: body, clauses, rfl, List.forall_mem_cons.mpr ⟨hf.1.mp hvalid, hbody⟩, hclauses⟩
      · rintro ⟨body, clauses, heq, hbody, hclauses⟩
        cases body with
        | nil =>
          subst heq
          exact absurd (hclauses f List.mem_cons_self).headed hhead
        | cons g body =>
          cases heq
          obtain ⟨hvalid, hbody⟩ := List.forall_mem_cons.mp hbody
          exact ⟨hf.1.mpr hvalid, body, clauses, rfl, hbody, hclauses⟩

/-! ### Evaluated lists -/

/-- A node that is made of one part. -/
theorem value_isOk {α : Type} {f : Form} (h : f.IsJudged file) {make : Node → α} :
    (f.node file >>= fun n => pure (make n)).isOk ↔ f.IsValid := isOk_map.trans h

/-- A node that is made of all its parts. -/
theorem block_isOk {α : Type} {fs : List Form} (h : ∀ f ∈ fs, f.IsJudged file) {make : Block → α} :
    (formNodes file fs >>= fun ns => pure (make ns)).isOk ↔ ∀ f ∈ fs, f.IsValid :=
  isOk_map.trans (formNodes_isOk h)

/-- A name that can be bound, and a value. -/
theorem binding_isOk {name value : Form} (hvalue : value.IsJudged file)
    {make : String → Node → Node} :
    (plainName name >>= fun x => value.node file >>= fun n => pure (make x n)).isOk ↔
      name.IsPlainName ∧ value.IsValid :=
  (isOk_bind fun _ _ => value_isOk hvalue).trans (and_congr_left' plainName_isOk)

/-- A condition and one way on. -/
theorem branch_isOk {condition taken : Form} (h : ∀ f ∈ [condition, taken], f.IsJudged file)
    {make : Node → Node → Node} :
    (condition.node file >>= fun c => taken.node file >>= fun t => pure (make c t)).isOk ↔
      ∀ f ∈ [condition, taken], f.IsValid := by
  obtain ⟨hcondition, htaken⟩ := List.forall_mem_cons.mp h
  rw [List.forall_mem_cons]
  exact (isOk_bind fun _ _ => value_isOk (htaken _ List.mem_cons_self)).trans (and_congr hcondition
    List.forall_mem_singleton.symm)

/-- A condition and two ways on. -/
theorem choice_isOk {condition taken other : Form}
    (h : ∀ f ∈ [condition, taken, other], f.IsJudged file) {make : Node → Node → Node → Node} :
    (condition.node file >>= fun c => taken.node file >>= fun t => other.node file >>= fun o =>
      pure (make c t o)).isOk ↔ ∀ f ∈ [condition, taken, other], f.IsValid := by
  obtain ⟨hcondition, hrest⟩ := List.forall_mem_cons.mp h
  rw [List.forall_mem_cons]
  exact (isOk_bind fun _ _ => branch_isOk hrest).trans (and_congr_left' hcondition)

/-- The name of an exception, and a message. -/
theorem message_isOk {name message : Form} (hmessage : message.IsJudged file)
    {make : String → Node → Node} :
    (exceptionName name >>= fun x => message.node file >>= fun n => pure (make x n)).isOk ↔
      name.symbol?.isSome ∧ message.IsValid :=
  (isOk_bind fun _ _ => value_isOk hmessage).trans (and_congr_left' exceptionName_isOk)

/-- A name that can be bound, a list of parameters, and a body. -/
theorem definition_isOk {name params : Form} {body : List Form}
    (hbody : ∀ f ∈ body, f.IsJudged file) {make : String → List String → Block → Node}
    {flaw : Flaw} :
    (plainName name >>= fun x => match params with
      | .list _ ps => parameters [] ps >>= fun ps => formNodes file body >>= fun ns =>
        pure (make x ps ns)
      | .atom _ _ => refuse params flaw).isOk ↔
      name.IsPlainName ∧ params.IsParameterList ∧ ∀ f ∈ body, f.IsValid := by
  rw [← plainName_isOk]
  refine isOk_bind fun x _ => ?_
  cases params with
  | atom pos a =>
    refine iff_of_false not_isOk_error ?_
    rintro ⟨⟨_, _, _, ⟨⟩, -⟩, -⟩
  | list pos ps =>
    exact (isOk_bind fun _ _ => block_isOk hbody).trans (and_congr_left' parameters_isOk)

/-- Some form among statements and clauses is headed by the word of clauses if there is a clause. -/
theorem any_headed_iff {body clauses : List Form} (hbody : ∀ f ∈ body, f.IsValid)
    (hclauses : ∀ f ∈ clauses, f.IsClause) :
    (body ++ clauses).any (Form.isHeadedBy "except") = true ↔ clauses ≠ [] := by
  rw [List.any_append, List.any_eq_false.mpr fun f hf => (hbody f hf).not_headed, Bool.false_or,
    List.any_eq_true]
  constructor
  · rintro ⟨f, hf, -⟩ rfl
    cases hf
  · intro hne
    obtain ⟨f, hf⟩ := List.exists_mem_of_ne_nil _ hne
    exact ⟨f, hf, (hclauses f hf).headed⟩

/-- A list that is accepted is valid: one case for each special form, and one for calls. -/
theorem isValid_of_isOk (h : ∀ f ∈ items, f.IsJudged file ∧ ∀ g ∈ f.items, g.IsJudged file)
    (hok : (listNode file pos items).isOk) : (Form.list pos items).IsValid := by
  cases items with
  | nil => exact absurd hok not_isOk_error
  | cons head args =>
    have hjudged : ∀ f ∈ head :: args, f.IsJudged file := fun f hf => (h f hf).1
    obtain ⟨hhead, hargs⟩ := List.forall_mem_cons.mp hjudged
    unfold listNode at hok
    dsimp only at hok
    split at hok
    · next hword => -- let
      split at hok
      · obtain ⟨hname, hvalue⟩ := (binding_isOk (hargs _ (by simp))).mp hok
        exact .binding (.inl hword) hname hvalue
      · exact absurd hok not_isOk_error
    · next hword => -- set
      split at hok
      · obtain ⟨hname, hvalue⟩ := (binding_isOk (hargs _ (by simp))).mp hok
        exact .binding (.inr hword) hname hvalue
      · exact absurd hok not_isOk_error
    · next hword => -- def
      split at hok
      · obtain ⟨hname, hparams, hbody⟩ :=
          (definition_isOk fun f hf => hargs f (by simp [hf])).mp hok
        exact .definition hword hname hparams hbody
      · exact absurd hok not_isOk_error
    · next hword => -- if
      split at hok
      · exact .branch hword (.inl rfl) ((branch_isOk hargs).mp hok)
      · exact .branch hword (.inr rfl) ((choice_isOk hargs).mp hok)
      · exact absurd hok not_isOk_error
    · next hword => -- while
      split at hok
      · exact .loop hword (Nat.le_add_left 1 _) ((nodes_isOk hargs).mp hok)
      · exact absurd hok not_isOk_error
    · next hword => -- do
      exact .sequence hword (by decide) ((block_isOk hargs).mp hok)
    · next hword => -- return
      split at hok
      · exact .leave hword (by decide) nofun
      · exact .leave hword (by simp) (List.forall_mem_singleton.mpr
          ((value_isOk (hargs _ (by simp))).mp hok))
      · exact absurd hok not_isOk_error
    · next hword => -- import
      split at hok
      · exact .load hword (moduleName_isOk.mp (isOk_map.mp hok))
      · exact absurd hok not_isOk_error
    · next hword => -- async
      exact .sequence hword (by decide) ((block_isOk hargs).mp hok)
    · next hword => -- await
      split at hok
      · exact .await hword ((value_isOk (hargs _ (by simp))).mp hok)
      · exact absurd hok not_isOk_error
    · next hword => -- and
      exact .sequence hword (by decide) ((block_isOk hargs).mp hok)
    · next hword => -- or
      exact .sequence hword (by decide) ((block_isOk hargs).mp hok)
    · next hword => -- raise
      split at hok
      · exact .raise hword (exceptionName_isOk.mp (isOk_map.mp hok)) (by decide) nofun
      · obtain ⟨hname, hmessage⟩ := (message_isOk (hargs _ (by simp))).mp hok
        exact .raise hword hname (by simp) (List.forall_mem_singleton.mpr hmessage)
      · exact absurd hok not_isOk_error
    · next hword => -- try
      split at hok
      · next hany =>
        obtain ⟨body, clauses, rfl, hbody, hclauses⟩ := (attemptParts_false_isOk
          (List.forall_mem_cons.mp h).2).mp (isOk_map.mp hok)
        exact .attempt hword hbody ((any_headed_iff hbody hclauses).mp hany) hclauses
      · exact absurd hok not_isOk_error
    · exact absurd hok not_isOk_error -- except
    · -- a call
      obtain ⟨hcallee, hrest⟩ := List.forall_mem_cons.mp ((nodes_isOk hjudged).mp hok)
      refine .call (fun name hname hspecial => ?_) hcallee hrest
      simp only [specialForms, List.mem_cons, List.not_mem_nil, or_false] at hspecial
      rcases hspecial with rfl | rfl | rfl | rfl | rfl | rfl | rfl | rfl | rfl | rfl | rfl | rfl |
        rfl | rfl | rfl <;> contradiction

/-- A list with a head that is the word of no special form is a call. -/
theorem listNode_call (hhead : ∀ name ∈ head.symbol?, name ∉ specialForms) :
    listNode file pos (head :: args) =
      (head.node file >>= fun callee => formNodes file args >>= fun ns =>
        pure (.call pos.line callee ns)) := by
  have other {name : String} (h : name ∈ specialForms) : head.symbol? ≠ some name :=
    fun hname => hhead name hname h
  unfold listNode
  dsimp only
  split
  all_goals first
    | exact absurd ‹head.symbol? = some _› (other (by decide))
    | rfl

/-- A list that is valid is accepted. -/
theorem isOk_of_isValid (h : ∀ f ∈ items, f.IsJudged file ∧ ∀ g ∈ f.items, g.IsJudged file)
    (hvalid : (Form.list pos items).IsValid) : (listNode file pos items).isOk := by
  cases items with
  | nil => cases hvalid
  | cons head args =>
    have hjudged : ∀ f ∈ head :: args, f.IsJudged file := fun f hf => (h f hf).1
    have hargs := (List.forall_mem_cons.mp hjudged).2
    cases hvalid with
    | binding hword hname hvalue =>
      rcases hword with hword | hword <;> unfold listNode <;> rw [hword] <;>
        exact (binding_isOk (hargs _ (by simp))).mpr ⟨hname, hvalue⟩
    | definition hword hname hparams hbody =>
      unfold listNode
      rw [hword]
      exact (definition_isOk fun f hf => hargs f (by simp [hf])).mpr ⟨hname, hparams, hbody⟩
    | branch hword hcount hparts =>
      unfold listNode
      rw [hword]
      match args, hcount with
      | [condition, taken], _ => exact (branch_isOk hargs).mpr hparts
      | [condition, taken, other], _ => exact (choice_isOk hargs).mpr hparts
    | loop hword hcount hparts =>
      unfold listNode
      rw [hword]
      match args, hcount with
      | condition :: body, _ => exact (nodes_isOk hargs).mpr hparts
    | sequence hword hname hparts =>
      simp only [List.mem_cons, List.not_mem_nil, or_false] at hname
      rcases hname with rfl | rfl | rfl | rfl <;> unfold listNode <;> rw [hword] <;>
        exact (block_isOk hargs).mpr hparts
    | leave hword hcount hparts =>
      unfold listNode
      rw [hword]
      match args, hcount with
      | [], _ => rfl
      | [value], _ => exact (value_isOk (hargs _ (by simp))).mpr (hparts _ (by simp))
    | load hword hname =>
      unfold listNode
      rw [hword]
      exact isOk_map.mpr (moduleName_isOk.mpr hname)
    | await hword hvalue =>
      unfold listNode
      rw [hword]
      exact (value_isOk (hargs _ (by simp))).mpr hvalue
    | @raise _ _ _ message hword hname hcount hmessage =>
      unfold listNode
      rw [hword]
      match message, hcount with
      | [], _ => exact isOk_map.mpr (exceptionName_isOk.mpr hname)
      | [message], _ =>
        exact (message_isOk (hargs _ (by simp))).mpr ⟨hname, hmessage _ (by simp)⟩
    | attempt hword hbody hcount hclauses =>
      unfold listNode
      rw [hword]
      dsimp only
      rw [if_pos ((any_headed_iff hbody hclauses).mpr hcount)]
      exact isOk_map.mpr ((attemptParts_false_isOk (List.forall_mem_cons.mp h).2).mpr
        ⟨_, _, rfl, hbody, hclauses⟩)
    | call hhead hcallee hrest =>
      rw [listNode_call hhead]
      exact (nodes_isOk hjudged).mpr (List.forall_mem_cons.mpr ⟨hcallee, hrest⟩)

end

/-! ## Sources -/

/-- The compiler accepts a form if it is valid, and not otherwise. -/
theorem accepts_iff_valid (file : String) (f : Form) : (f.node file).isOk ↔ f.IsValid := by
  have hjudged : f.IsJudged file ∧ ∀ g ∈ f.items, g.IsJudged file := by
    induction f using Form.byItems with
    | step f ih =>
      refine ⟨?_, fun g hg => (ih g hg).1⟩
      cases f with
      | atom pos a => exact atomNode_isOk
      | list pos items => exact ⟨isValid_of_isOk ih, isOk_of_isValid ih⟩
  exact hjudged.1

/-- Whether a form is valid is what the compiler finds out. -/
instance (f : Form) : Decidable f.IsValid := decidable_of_iff _ (accepts_iff_valid "" f)

/-- A `try` form may do without statements, and without the name of an exception. -/
example : (Form.list .start [.atom .start (.symbol "try"),
    .list .start [.atom .start (.symbol "except")]]).IsValid := by decide

/-- The compiler makes a program of the forms of a source if every one of them is valid, and makes
none otherwise. So a source is compiled if it can be read, and its forms are valid. -/
theorem accepted_iff_valid (source file : String) :
    (∀ forms, (∃ p, Program.ofForms source file forms = .ok p) ↔ ∀ f ∈ forms, f.IsValid) ∧
      ∀ maxDepth, (∃ p, compile source file maxDepth = .ok p) ↔
        ∃ forms, parse source file maxDepth = .ok forms ∧ ∀ f ∈ forms, f.IsValid := by
  have hforms (forms : List Form) :
      (∃ p, Program.ofForms source file forms = .ok p) ↔ ∀ f ∈ forms, f.IsValid := by
    rw [← formNodes_isOk fun f _ => accepts_iff_valid file f, Program.ofForms]
    cases formNodes file forms with
    | ok body => exact iff_of_true ⟨_, rfl⟩ rfl
    | error e => exact iff_of_false (by rintro ⟨p, ⟨⟩⟩) not_isOk_error
  refine ⟨hforms, fun maxDepth => ?_⟩
  rw [compile]
  cases hread : parse source file maxDepth with
  | ok forms =>
    refine (hforms forms).trans ⟨fun h => ⟨forms, rfl, h⟩, ?_⟩
    rintro ⟨_, ⟨⟩, h⟩
    exact h
  | error e => exact iff_of_false (by rintro ⟨p, ⟨⟩⟩) (by rintro ⟨forms, ⟨⟩, -⟩)

end Lispbox
