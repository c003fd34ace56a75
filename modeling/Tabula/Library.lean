import Tabula.Library.Strings

/-!
The functions that programs can require: those registered under a dotted path, and a fixed table of
modules. A registered function takes precedence, and the last one registered under a path is the one
found. The fixed table answers paths of exactly two segments.
-/

namespace Tabula

/-- Functions registered on top of the fixed modules, by dotted path. -/
structure Library where
  registered : Table HostFunction := []

namespace Library

/-- The fixed modules. -/
def modules : Table (Table HostFunction) := [("math", arithmetic), ("string", strings)]

/-- Registers a function under a dotted path. -/
def register (library : Library) (path : String) (function : HostFunction) : Library :=
  ⟨library.registered.insert path function⟩

/-- Splits characters at every dot; there is always one part more than there are dots. -/
def splitDots : List Char → List (List Char)
  | [] => [[]]
  | c :: rest =>
      if c = '.' then [] :: splitDots rest
      else
        match splitDots rest with
        | [] => [[c]]
        | first :: others => (c :: first) :: others

/-- The segments of a dotted name. -/
def segments (name : String) : List String := (splitDots name.toList).map String.ofList

/-- The dotted form of a path. -/
def dotted (path : List String) : String :=
  String.ofList (['.'].intercalate (path.map String.toList))

/-- The function of a fixed module. -/
def fixed? : List String → Option HostFunction
  | [family, name] => (modules.get? family).bind (·.get? name)
  | _ => none

/-- Finds the function at a path. -/
def resolve (library : Library) (path : List String) : Except Collaborator HostFunction :=
  match (library.registered.get? (dotted path)).or (fixed? path) with
  | some function => .ok function
  | none => .error (.unresolved (dotted path))

end Library

end Tabula
