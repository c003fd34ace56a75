import Tabula.Json.Number
import Tabula.Table

/-!
Trees of the data format in which programs are exchanged and in which values leave the interpreter.
The members of an object keep their order.
-/

namespace Tabula

/-- A tree of the data format. -/
inductive Json where
  | null
  | bool (truth : Bool)
  | number (value : Json.Number)
  | string (text : String)
  | array (elements : List Json)
  | object (members : List (String × Json))
deriving Inhabited

namespace Json

/-- The member under a key; null where there is none. -/
def member (members : List (String × Json)) (key : String) : Json :=
  (Table.get? members key).getD null

/-- The member of an object under a key; what is no object has none. -/
def field (json : Json) (key : String) : Json :=
  match json with
  | object members => member members key
  | _ => null

def isNull : Json → Bool
  | null => true
  | _ => false

def string? : Json → Option String
  | string text => some text
  | _ => none

end Json

end Tabula
