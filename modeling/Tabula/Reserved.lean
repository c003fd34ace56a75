/-!
The names under which scopes keep their books. They are bindings like any other while a program
runs, and are left out when a scope is shown as data.
-/

namespace Tabula

namespace Reserved

/-- Where `return` leaves the value of a block. -/
def result : String := "__return__"

/-- The name that a program declares for itself as a module. -/
def moduleName : String := "__module_name__"

/-- What a module exports. -/
def exported : String := "__module__"

/-- The scope that an action was called from. -/
def caller : String := "$"

/-- The element that a loop is at. -/
def element : String := "$value"

/-- The position that a loop is at. -/
def position : String := "$i"

end Reserved

/-- Names that start with two underscores or a dollar sign are reserved. -/
def isReserved (name : String) : Bool :=
  match name.toList with
  | '_' :: '_' :: _ => true
  | '$' :: _ => true
  | _ => false

end Tabula
