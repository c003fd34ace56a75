import Tabula.Interchange

/-!
Where imported programs come from. A loader answers a path with a program or with the cause of a
failure. The stamp it is given marks the actions of a program that is read anew; a program kept in
memory ignores it, so that its actions stay the same over repeated imports.
-/

namespace Tabula

/-- Conventions for turning the bare name of a module into a path. -/
structure ImportConfig where
  /-- The directory of named modules. -/
  libraryDir : String := "lib"
  /-- The extension of module files, without the dot. -/
  extension : String := "lango"
deriving DecidableEq, Repr

/-- The path of a named module. -/
def ImportConfig.modulePath (config : ImportConfig) (name : String) : String :=
  String.join [config.libraryDir, "/", name, ".", config.extension]

/-- Answers a stamp and a path. -/
abbrev Loader : Type := Nat → String → Except Collaborator Program

/-- Turns the text of a file into a program. -/
abbrev Parser : Type := Nat → String → Except Collaborator Program

namespace Loader

/-- Refuses every import. -/
def none : Loader := fun _ path => .error (.load path "no imports")

/-- Answers from programs kept by path. -/
def memory (programs : Table Program) : Loader := fun _ path =>
  match programs.get? path with
  | some program => .ok program
  | .none => .error (.load path "no such program")

/-- Asks loaders in turn; the first program wins, and why the others failed is not told. -/
def first (loaders : List Loader) : Loader := fun stamp path =>
  match loaders.findSome? fun loader => (loader stamp path).toOption with
  | some program => .ok program
  | .none => .error (.load path "couldn't import")

/-- Reads a file and hands its text to a parser. -/
def files (read : String → Except String String) (parser : Parser) : Loader := fun stamp path =>
  match read path with
  | .ok text => parser stamp text
  | .error cause => .error (.load path cause)

end Loader

end Tabula
