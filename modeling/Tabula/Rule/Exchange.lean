import Tabula.Rule.Operand
import Tabula.Unfolding

/-!
The rules that reach outside the program: modules, functions of the host, and printing.
-/

namespace Tabula.Rule

variable (interpreter : Interpreter) (eval : Evaluator) (scope : Cell)

/-- The name that a node carries. -/
def wantName (node : Node) : Run String :=
  match node.name? with
  | some name => pure name
  | none => Run.fail (.structural (.expectedName node.kind))

/-- Runs a program in a copy of a scope, and gives that copy. -/
def program (statements : Program) (initial : Cell) : Run Cell := do
  block eval statements (← Run.read initial)

/-- Declares the name of the module. -/
def declareModule (right : Node) : Run Value := do
  let name ← wantName right
  Run.bindName scope Reserved.moduleName (.string name)
  return .void

/-- Sets what the module exports, once it has a name. -/
def exportModule (right : Node) : Run Value := do
  match ← Run.lookup scope Reserved.moduleName with
  | none => Run.fail (.collaborator .moduleUndeclared)
  | some _ => do
      let value ← eval scope right
      Run.bindName scope Reserved.exported value
      return .void

/-- The path of an import: a string is one, and an atom names a module. -/
def importPath (config : ImportConfig) : Node → Run String
  | .constant (.string path) => return path
  | .atom name => return config.modulePath name
  | other => Run.fail (.structural (.expectedName other.kind))

/-- Loads a program, runs it in an empty scope, and binds what it exports to the name it declares.
-/
def importModule (right : Node) : Run Value := do
  let path ← importPath interpreter.config right
  let stamp ← Run.fresh
  let statements ← Run.ofCollaborator (interpreter.loader stamp path)
  let loaded ← program eval statements (← Run.alloc [])
  match ← Run.lookup loaded Reserved.moduleName with
  | some (.string name) => do
      let exported := (← Run.lookup loaded Reserved.exported).getD .void
      Run.bindName scope name exported
      return .void
  | _ => Run.fail (.collaborator (.noModule path))

/-- The segments of the path to a function: the names in a template, or the parts of a dotted name.
-/
def requiredPath : Node → Run (List String)
  | .template entries => (entries.map Prod.snd).mapM wantName
  | other => return Library.segments (← wantName other)

/-- Finds a function of the host. Each time it is a new value. -/
def requireForeign (right : Node) : Run Value := do
  let path ← requiredPath right
  let run ← Run.ofCollaborator (interpreter.library.resolve path)
  let serial ← Run.fresh
  return .function { name := Library.dotted path, serial, code := .host run }

/-- Prints the text of a value on a line of its own. -/
def print (right : Node) : Run Value := do
  let value ← eval scope right
  match interpreter.sink with
  | .silent => return .void
  | _ => do
      Run.printLine ((← Run.heap).display value)
      return .void

end Tabula.Rule
