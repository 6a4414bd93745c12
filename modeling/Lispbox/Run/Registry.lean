import Lispbox.Program.Build
import Lispbox.Value.Basic
/-!
# Installed modules

A registry holds the modules that a run may import, each under its name. A module is either native,
with members that are there from the start, or a script whose globals become its members.

* `get?_install_of_ne`: installing replaces one module and keeps the others.
-/
namespace Lispbox

/-- How the members of a module come into being. -/
inductive ModuleSource where
  | native (members : Bindings)
  | script (program : Program)
  deriving Repr

/-- A module that can be imported. -/
structure Module where
  name : String
  source : ModuleSource
  deriving Repr

/-- The modules that a run may import. -/
structure Registry where
  modules : List Module
  deriving Repr, Inhabited

/-- No modules. -/
def Registry.empty : Registry := ⟨[]⟩

/-- The module with a name. -/
def Registry.get? (r : Registry) (name : String) : Option Module :=
  r.modules.find? (·.name == name)

/-- A module with the name is installed. -/
def Registry.contains (r : Registry) (name : String) : Bool :=
  (r.get? name).isSome

/-- Adds a module; one with the same name is replaced. -/
def Registry.install (r : Registry) (m : Module) : Registry :=
  ⟨m :: r.modules.filter (·.name != m.name)⟩

/-- The names of the modules, in increasing order. -/
def Registry.names (r : Registry) : List String :=
  (r.modules.map Module.name).mergeSort (· ≤ ·)

theorem Registry.get?_install_of_ne (r : Registry) {m : Module} {name : String}
    (h : name ≠ m.name) : (r.install m).get? name = r.get? name := by
  have hm : (m.name == name) = false := by simpa using Ne.symm h
  simp only [Registry.install, Registry.get?, List.find?_cons, hm, List.find?_filter]
  congr 1
  funext x
  by_cases hx : x.name = name
  · subst hx; simp [h]
  · simp [hx]

/-- The module of a script; the lists of its source may be nested to `maxDepth`. Mirrors
`script`. -/
def Module.ofScript (name file source : String) (maxDepth : Nat) : Except CompileError Module :=
  (compile source file maxDepth).map fun p => ⟨name, .script p⟩

/-- The number pi. -/
def pi : Float := Float.ofBits 4614256656552045848

/-- A native module whose members are functions. Mirrors `members`. -/
def Module.ofNatives (name : String) (natives : List Native) : Module :=
  ⟨name, .native (natives.map fun n => (n.name, .native n))⟩

/-- Roots, rounding and powers. Mirrors `math_module`. -/
def Module.math : Module :=
  ⟨"math", .native
    [("ceil", .native .ceil), ("floor", .native .floor), ("pi", .float pi),
     ("pow", .native .pow), ("sqrt", .native .sqrt)]⟩

/-- Images for the user. Mirrors `image_module`. -/
def Module.image : Module := .ofNatives "image" [.showImage]

/-- A module with supplied functions: direct access to streams, and crashes. -/
def Module.probe : Module := .ofNatives "probe" [.supplied .emit, .supplied .explode]

/-- The registry with the modules that are always there. Mirrors `with_std`. -/
def Registry.standard : Registry := (Registry.empty.install .math).install .image

end Lispbox
