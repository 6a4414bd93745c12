import Lispbox.Run.Registry
/-!
# Resolvers

A resolver finds modules that are not installed: one by one when an import has failed, or several
before a run, where those that are not found are left out. A directory gives a module only under
its own name.
-/
namespace Lispbox

/-- Why a module is not found. -/
inductive ResolveFault where
  | notFound (name : String)
  /-- There is a source that cannot be read. -/
  | unreadable (name : String)
  | compile (name : String) (e : CompileError)
  deriving DecidableEq, Repr

/-- The text of the error about a module that is not there. -/
def ResolveFault.notFoundText (name : String) : String :=
  "no module named '" ++ name ++ "' is available"

/-- The text of the error about a module that does not compile. -/
def ResolveFault.compileText (name : String) (e : CompileError) : String :=
  "module '" ++ name ++ "' failed to compile: " ++ e.render

/-- A source of modules. -/
structure Resolver where
  resolve : String → Except ResolveFault Module
  prefetch : List String → List Module

namespace Resolver

/-- Finds nothing. -/
def none : Resolver := ⟨fun name => .error (.notFound name), fun _ => []⟩

/-- What is found of several modules, in order. Mirrors `prefetch`. -/
def found (resolve : String → Except ResolveFault Module) (names : List String) : List Module :=
  names.filterMap fun name => (resolve name).toOption

/-- A directory: its files with their texts, and its subdirectories. -/
structure Directory where
  files : List (String × String)
  dirs : List String
  deriving Repr

/-- The longest name in a directory, in bytes. -/
def Directory.longestName : Nat := 255

/-- The module of a directory: the file of its name with the ending `.scm`. Mirrors `load`. -/
def ofFile (d : Directory) (maxDepth : Nat) (name : String) : Except ResolveFault Module :=
  if !isModuleName name then .error (.notFound name)
  else
    let file := name ++ ".scm"
    match d.files.lookup file with
    | some source =>
      match Module.ofScript name file source maxDepth with
      | .ok m => .ok m
      | .error e => .error (.compile name e)
    | Option.none =>
      -- a directory has the name, or no file can have it
      let taken := d.dirs.contains file || Directory.longestName < file.utf8ByteSize
      .error (if taken then .unreadable name else .notFound name)

/-- Finds the modules of a directory. -/
def ofDirectory (d : Directory) (maxDepth : Nat) : Resolver :=
  ⟨ofFile d maxDepth, found (ofFile d maxDepth)⟩

/-- An entry of a table of modules. -/
structure Entry where
  name : String
  /-- The name of the module that is found. -/
  as_ : String
  file : String
  source : String
  deriving Repr

/-- The module of the first entry with a name. -/
def ofEntry (entries : List Entry) (maxDepth : Nat) (name : String) : Except ResolveFault Module :=
  match entries.find? (·.name == name) with
  | some e =>
    match Module.ofScript e.as_ e.file e.source maxDepth with
    | .ok m => .ok m
    | .error err => .error (.compile name err)
  | Option.none => .error (.notFound name)

/-- Finds the modules of a table, ahead of a run only if it is `eager`. -/
def ofTable (entries : List Entry) (maxDepth : Nat) (eager : Bool) : Resolver :=
  ⟨ofEntry entries maxDepth,
    fun names => if eager then found (ofEntry entries maxDepth) names else []⟩

end Resolver
end Lispbox
