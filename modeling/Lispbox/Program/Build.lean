import Lispbox.Form.Reader
import Lispbox.Program.Basic
/-!
# From forms to programs

A list whose first item names a special form has to have the shape of that form; every other list is
a call. A symbol with text on both sides of its first point reads a member of a module.

The forms of a source are checked from left to right, so the first flaw in reading order is the one
that is reported, at the form that is at fault.
-/
namespace Lispbox

/-- The names that start special forms. They cannot be bound. -/
def specialForms : List String :=
  ["let", "set", "def", "if", "while", "do", "return", "import", "async", "await", "and", "or",
   "raise", "try", "except"]

/-- A refusal of a form. -/
abbrev Built (α : Type) := Except (Pos × Flaw) α

/-- Refuses a form. -/
def refuse {α : Type} (f : Form) (flaw : Flaw) : Built α := .error (f.pos, flaw)

/-- A name that can be bound: a symbol without a point that starts no special form. -/
def isPlainName (name : String) : Bool :=
  !name.toList.contains '.' && !specialForms.contains name

/-- The name that a form binds. Mirrors `plain_name`. -/
def plainName (f : Form) : Built String :=
  match f.symbol? with
  | some name => if isPlainName name then .ok name else refuse f (.cannotAssign name)
  | none => refuse f .expectedName

/-- A name of a module: ASCII letters, digits, underscores and hyphens, at least one. -/
def isModuleName (name : String) : Bool :=
  !name.isEmpty && name.toList.all fun c => c.isAlphanum || c == '_' || c == '-'

/-- The module that a form names. Mirrors `module_name`. -/
def moduleName (f : Form) : Built String :=
  match f with
  | .atom _ (.symbol name) | .atom _ (.text name) =>
    if isModuleName name then .ok name else refuse f (.invalidModuleName name)
  | _ => refuse f .moduleNameKind

/-- The exception that a form names. Mirrors `exception_name`. -/
def exceptionName (f : Form) : Built String :=
  match f.symbol? with
  | some name => .ok name
  | none => refuse f .exceptionNameKind

/-- The parameters of a function, where those before them are given. Mirrors the parameters in
`function`. -/
def parameters (before : List String) : List Form → Built (List String)
  | [] => .ok []
  | f :: fs => do
    let name ← plainName f
    if before.contains name then refuse f (.duplicateParameter name)
    let rest ← parameters (name :: before) fs
    return name :: rest

/-- The text before and behind the first point of a symbol, if both are there. -/
def splitMember (name : String) : Option (String × String) :=
  let object := name.toList.takeWhile (· != '.')
  let member := (name.toList.dropWhile (· != '.')).drop 1
  if object.isEmpty || member.isEmpty then none
  else some (String.ofList object, String.ofList member)

/-- The node of an atom. Mirrors `node` and `symbol`. -/
def atomNode (pos : Pos) : Atom → Built Node
  | .symbol name =>
    match splitMember name with
    | some (object, member) =>
      if member.toList.contains '.' then .error (pos, .nestedMember)
      else .ok (.member pos.line object member)
    | none => .ok (.variable pos.line name)
  | .keyword name => .ok (.literal pos.line (.text name))
  | .text s => .ok (.literal pos.line (.text s))
  | .integer n => .ok (.literal pos.line (.integer n))
  | .float x => .ok (.literal pos.line (.float x))
  | .boolean b => .ok (.literal pos.line (.bool b))
  | .nil => .ok (.literal pos.line .nil)

mutual
/-- The node of a form of a file. Mirrors `node`. -/
def Form.node (file : String) : Form → Built Node
  | .atom pos a => atomNode pos a
  | .list pos items => listNode file pos items

/-- The nodes of forms, in order. Mirrors `block`. -/
def formNodes (file : String) : List Form → Built Block
  | [] => .ok []
  | f :: fs => do
    let n ← f.node file
    let ns ← formNodes file fs
    return n :: ns

/-- The node of a list that starts at `pos`. Mirrors `form`, `binding` and `function`. -/
def listNode (file : String) (pos : Pos) : List Form → Built Node
  | [] => .error (pos, .emptyList)
  | head :: args =>
    let line := pos.line
    match head.symbol? with
    | some "let" =>
      match args with
      | [name, value] => do
        let name ← plainName name
        return .bind line name (← value.node file)
      | _ => .error (pos, .letShape)
    | some "set" =>
      match args with
      | [name, value] => do
        let name ← plainName name
        return .assign line name (← value.node file)
      | _ => .error (pos, .setShape)
    | some "def" =>
      match args with
      | name :: params :: body => do
        let name ← plainName name
        match params with
        | .list _ params =>
          let params ← parameters [] params
          return .define line name params (← formNodes file body) file pos.column
        | .atom _ _ => refuse params .parametersNotList
      | _ => .error (pos, .defShape)
    | some "if" =>
      match args with
      | [condition, taken] => do
        let condition ← condition.node file
        return .branch line condition [← taken.node file] []
      | [condition, taken, other] => do
        let condition ← condition.node file
        let taken ← taken.node file
        return .branch line condition [taken] [← other.node file]
      | _ => .error (pos, .ifShape)
    | some "while" =>
      match args with
      | condition :: body => do
        let condition ← condition.node file
        return .loop line condition (← formNodes file body)
      | [] => .error (pos, .whileShape)
    | some "do" => return .block line (← formNodes file args)
    | some "return" =>
      match args with
      | [] => .ok (.leave line none)
      | [value] => return .leave line (some (← value.node file))
      | _ => .error (pos, .returnShape)
    | some "import" =>
      match args with
      | [name] => return .load line (← moduleName name)
      | _ => .error (pos, .importShape)
    | some "async" => return .defer line (← formNodes file args)
    | some "await" =>
      match args with
      | [value] => return .await line (← value.node file)
      | _ => .error (pos, .awaitShape)
    | some "and" => return .allOf line (← formNodes file args)
    | some "or" => return .anyOf line (← formNodes file args)
    | some "raise" =>
      match args with
      | [name] => return .raise line (← exceptionName name) none
      | [name, message] => do
        let name ← exceptionName name
        return .raise line name (some (← message.node file))
      | _ => .error (pos, .raiseShape)
    | some "try" =>
      if args.any (Form.isHeadedBy "except") then do
        let (body, handlers) ← attemptParts file false args
        return .attempt line body handlers
      else .error (pos, .tryWithoutExcept)
    | some "except" => .error (pos, .exceptOutsideTry)
    | _ => do
      let callee ← head.node file
      return .call line callee (← formNodes file args)

/-- The statements and the handlers of a `try` form; once a handler is seen only handlers may
follow. Mirrors `try_form`. -/
def attemptParts (file : String) (handling : Bool) : List Form → Built (Block × List Handler)
  | [] => .ok ([], [])
  | f :: fs =>
    match f with
    | .list pos (head :: items) =>
      if head.symbol? = some "except" then do
        let handler ← handlerNode file items
        let (body, handlers) ← attemptParts file true fs
        return (body, handler :: handlers)
      else if handling then .error (pos, .onlyExceptMayFollow)
      else do
        let n ← listNode file pos (head :: items)
        let (body, handlers) ← attemptParts file false fs
        return (n :: body, handlers)
    | .list pos [] => .error (pos, if handling then .onlyExceptMayFollow else .emptyList)
    | .atom pos a =>
      if handling then .error (pos, .onlyExceptMayFollow)
      else do
        let n ← atomNode pos a
        let (body, handlers) ← attemptParts file false fs
        return (n :: body, handlers)

/-- The handler whose items behind the word `except` are given. Mirrors `try_form`. -/
def handlerNode (file : String) : List Form → Built Handler
  | [] => .ok ⟨none, none, []⟩
  | first :: rest =>
    match first.symbol? with
    | none => do
      let n ← first.node file
      return ⟨none, none, n :: (← formNodes file rest)⟩
    | some name =>
      match rest with
      | [] => .ok ⟨some name, none, []⟩
      | second :: body =>
        match second.symbol? with
        | none => do
          let n ← second.node file
          return ⟨some name, none, n :: (← formNodes file body)⟩
        | some _ => do
          let binding ← plainName second
          return ⟨some name, some binding, ← formNodes file body⟩
end

/-- The program of the forms of a source. Mirrors `build_ir`. -/
def Program.ofForms (source file : String) (forms : List Form) : Except CompileError Program :=
  match formNodes file forms with
  | .ok body => .ok ⟨file, source, body⟩
  | .error (pos, flaw) => .error (CompileError.at file source pos flaw.message)

/-- The program of a source, with lists nested to `maxDepth`. -/
def compile (source file : String) (maxDepth : Nat) : Except CompileError Program := do
  let forms ← parse source file maxDepth
  Program.ofForms source file forms

end Lispbox
