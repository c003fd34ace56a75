/-!
Paths of files, as texts with slashes.
-/

namespace Tabula.Path

/-- Splits characters at every slash. -/
def splitSlashes : List Char → List (List Char)
  | [] => [[]]
  | c :: rest =>
      if c = '/' then [] :: splitSlashes rest
      else
        match splitSlashes rest with
        | [] => [[c]]
        | first :: others => (c :: first) :: others

/-- The parts of a path between its slashes; some may be empty. -/
def parts (path : String) : List String := (splitSlashes path.toList).map String.ofList

/-- Whether a path starts at the root of all directories. -/
def isAbsolute (path : String) : Bool :=
  match path.toList with
  | '/' :: _ => true
  | _ => false

/-- A path below a directory. An absolute path stays as it is, and the empty directory is the
current one. -/
def join (directory path : String) : String :=
  if isAbsolute path || directory.isEmpty then path
  else if directory.toList.getLast? = some '/' then directory ++ path
  else String.join [directory, "/", path]

/-- The steps that a path takes: empty parts and points count only as a leading point. -/
def steps (path : String) : List String :=
  match parts path with
  | "." :: rest => "." :: rest.filter fun part => part ≠ "" && part ≠ "."
  | all => all.filter fun part => part ≠ "" && part ≠ "."

/-- The directory that a path lies in. A path without steps has none. -/
def parent? (path : String) : Option String :=
  match (steps path).reverse with
  | [] => none
  | _ :: above =>
      some (String.join [if isAbsolute path then "/" else "", "/".intercalate above.reverse])

end Tabula.Path
