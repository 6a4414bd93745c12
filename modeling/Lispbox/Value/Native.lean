/-!
# Native functions

The functions that are not written in the script language: those available everywhere, those of the
native modules that are always there, and those that the user of the interpreter supplies in modules
of their own. What a supplied function does is not known here (`Lispbox.Native.Supply`).
-/
namespace Lispbox

/-- A native function that the user of the interpreter supplies: the name that messages show, and a
number that tells it from others of that name. -/
structure Supplied where
  name : String
  code : Nat
  deriving DecidableEq, Repr

/-- Writes a text on a stream of any name; a function of the module `probe`. -/
def Supplied.emit : Supplied := ⟨"emit", 0⟩

/-- Crashes; a function of the module `probe`. -/
def Supplied.explode : Supplied := ⟨"explode", 1⟩

/-- A native function. -/
inductive Native where
  -- available everywhere
  | print | input | sleep | str | repr | int | float | len | list | nth | append | range | type
  | abs | min | max | not | readFile
  | add | sub | mul | div | floorDiv | modulo | eq | ne | lt | gt | le | ge
  -- members of the module `math`
  | sqrt | floor | ceil | pow
  -- member of the module `image`
  | showImage
  | supplied (f : Supplied)
  deriving DecidableEq, Repr

/-- The name that messages show. -/
def Native.name : Native → String
  | .print => "print"
  | .input => "input"
  | .sleep => "sleep"
  | .str => "str"
  | .repr => "repr"
  | .int => "int"
  | .float => "float"
  | .len => "len"
  | .list => "list"
  | .nth => "nth"
  | .append => "append"
  | .range => "range"
  | .type => "type"
  | .abs => "abs"
  | .min => "min"
  | .max => "max"
  | .not => "not"
  | .readFile => "read-file"
  | .add => "+"
  | .sub => "-"
  | .mul => "*"
  | .div => "/"
  | .floorDiv => "//"
  | .modulo => "%"
  | .eq => "="
  | .ne => "!="
  | .lt => "<"
  | .gt => ">"
  | .le => "<="
  | .ge => ">="
  | .sqrt => "sqrt"
  | .floor => "floor"
  | .ceil => "ceil"
  | .pow => "pow"
  | .showImage => "show"
  | .supplied f => f.name

/-- The functions available without an import. Mirrors `BUILTINS`. -/
def Native.builtins : List Native :=
  [.print, .input, .sleep, .str, .repr, .int, .float, .len, .list, .nth, .append, .range, .type,
   .abs, .min, .max, .not, .readFile, .add, .sub, .mul, .div, .floorDiv, .modulo, .eq, .ne, .lt,
   .gt, .le, .ge]

/-- The builtin of a name. Mirrors `lookup`. -/
def Native.builtin? (name : String) : Option Native :=
  Native.builtins.find? fun n => n.name == name

end Lispbox
