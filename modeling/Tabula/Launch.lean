import Tabula.Evaluation
import Tabula.Path

/-!
Running whole programs from their text, from a file, or as they are. Every error comes out rendered.
Imports are read relative to the directory of the program's file; a program without a file has none.
-/

namespace Tabula.Launch

/-- Runs a program in an empty scope. -/
def program (interpreter : Interpreter) (statements : Program) : Run Cell := do
  interpreter.run statements (← Run.alloc [])

/-- Where a program in this file imports from. The file itself is not read. -/
def loaderBeside (read : String → Except String String) (root : Option String) : Loader :=
  match root.bind Path.parent? with
  | some directory => Loader.files (fun path => read (Path.join directory path)) Program.parse
  | none => Loader.none

/-- Runs a program given as text, which stands in the file `root` if there is one. -/
def source (read : String → Except String String) (text : String) (root : Option String)
    (config : ImportConfig) : Run Cell := Run.rendered do
  let stamp ← Run.fresh
  let statements ← Run.ofCollaborator (Program.parse stamp text)
  program { config, loader := loaderBeside read root } statements

/-- Runs the program in a file. -/
def file (read : String → Except String String) (path : String) : Run Cell :=
  match read path with
  | .ok text => source read text (some path) {}
  | .error cause => Run.rendered (Run.fail (.collaborator (.load path cause)))

end Tabula.Launch
