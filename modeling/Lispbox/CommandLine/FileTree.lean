import Lispbox.CommandLine.Start
import Lispbox.Text.Split
/-!
# File trees

Files and directories that are held in memory, and what a command reads from them (`Files.ofTree`).
A path is walked part by part: each part is looked up in the directory that the parts before it lead
to, so that the first part that is missing, stands behind a file or is too long decides why the path
cannot be read.
-/
namespace Lispbox.CommandLine
open Lispbox.Resolver (Directory)

/-- Files and directories, each with the names that lead to it from the root. -/
structure FileTree where
  files : List (List String × String)
  /-- Directories; those that a file or another directory lies in may be left out. -/
  dirs : List (List String)
  /-- The directory in which a path starts that does not start at the root. -/
  home : List String
  deriving Repr

namespace FileTree

/-- What the names lead to. -/
inductive Item where
  | file (text : String)
  | directory
  deriving DecidableEq, Repr

/-- The longest path, in bytes. -/
def longestPath : Nat := 4095

/-- All places that are named in the tree. -/
def places (t : FileTree) : List (List String) := t.home :: t.dirs ++ t.files.map Prod.fst

/-- The file or directory at a place. -/
def item? (t : FileTree) (place : List String) : Option Item :=
  match t.files.lookup place with
  | some text => some (.file text)
  | none => if t.places.any place.isPrefixOf then some .directory else none

/-- The place that the parts of a path lead to from another one. -/
def walk (t : FileTree) (place : List String) : List String → Except FileFault (List String)
  | [] => if (t.item? place).isSome then .ok place else .error .missing
  | part :: rest =>
    match t.item? place with
    | none => .error .missing
    | some (.file _) => .error .notDirectory
    | some .directory =>
      if part = "" ∨ part = "." then t.walk place rest
      else if part = ".." then t.walk place.dropLast rest
      else if Directory.longestName < part.utf8ByteSize then .error .nameTooLong
      else t.walk (place ++ [part]) rest

/-- The place that a path leads to. -/
def locate (t : FileTree) (path : String) : Except FileFault (List String) :=
  if path = "" then .error .missing
  else if longestPath < path.utf8ByteSize then .error .nameTooLong
  else t.walk (if path.startsWith "/" then [] else t.home) (Text.split '/' path)

/-- The text of the file that a path leads to. -/
def read (t : FileTree) (path : String) : Except FileFault String := do
  match t.item? (← t.locate path) with
  | some (.file text) => .ok text
  | some .directory => .error .isDirectory
  | none => .error .missing

/-- The names in a directory. -/
def names (t : FileTree) (place : List String) : List String :=
  t.places.filterMap fun p => if place.isPrefixOf p then (p.drop place.length).head? else none

/-- The directory that a path leads to; nothing is in one that is not there. -/
def directory (t : FileTree) (path : String) : Directory :=
  match t.locate path with
  | .error _ => ⟨[], []⟩
  | .ok place =>
    let items := (t.names place).map fun name => (name, t.item? (place ++ [name]))
    ⟨items.filterMap fun (name, item) => match item with
        | some (.file text) => some (name, text)
        | _ => none,
      items.filterMap fun (name, item) => if item = some .directory then some name else none⟩

end FileTree

/-- The files of a tree. -/
def Files.ofTree (t : FileTree) : Files := ⟨t.read, t.directory⟩

end Lispbox.CommandLine
