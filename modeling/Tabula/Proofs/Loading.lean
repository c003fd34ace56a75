import Tabula.Evaluation

/-!
# The two halves of an import

An import first loads a module, which has nothing to do with the importing scope, and then binds
what was loaded there.
-/

namespace Tabula.Rule

/-- Loads the program at a path and runs it in an empty scope. It gives the name that the program
declares and the value that it exports. -/
def loadModule (interpreter : Interpreter) (eval : Evaluator) (path : String) :
    Run (String × Value) := do
  let stamp ← Run.fresh
  let statements ← Run.ofCollaborator (interpreter.loader stamp path)
  let loaded ← program eval statements (← Run.alloc [])
  match ← Run.lookup loaded Reserved.moduleName with
  | some (.string name) => do
      let exported := (← Run.lookup loaded Reserved.exported).getD .void
      return (name, exported)
  | _ => Run.fail (.collaborator (.noModule path))

/-- Binds what a module exports to its name. -/
def bindModule (scope : Cell) (loaded : String × Value) : Run Value := do
  Run.bindName scope loaded.1 loaded.2
  return .void

theorem importModule_eq (interpreter : Interpreter) (eval : Evaluator) (scope : Cell)
    (right : Node) :
    importModule interpreter eval scope right =
      importPath interpreter.config right >>= fun path =>
        loadModule interpreter eval path >>= bindModule scope := by
  simp only [importModule, loadModule, bind_assoc]
  refine bind_congr fun path => bind_congr fun stamp => bind_congr fun statements => ?_
  refine bind_congr fun initial => bind_congr fun loaded => bind_congr fun found => ?_
  cases found with
  | none => rfl
  | some value =>
      cases value with
      | string name => simp only [bind_assoc, pure_bind, bindModule]
      | _ => rfl

end Tabula.Rule
