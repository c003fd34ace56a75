import Tabula.Table

/-!
Programs as trees. A node holds constants and names only: no node refers to a storage cell, so a
program means the same wherever it is run. Each action literal carries the label of its place in the
program it was read from, which is what tells two actions apart when they are compared.
-/

namespace Tabula

/-- The place of an action literal: the reading that produced it, and the path to it, innermost step
first. -/
structure Label where
  stamp : Nat
  path : List Nat
deriving DecidableEq, Repr

/-- The label of the child at a position. -/
def Label.child (label : Label) (position : Nat) : Label := ⟨label.stamp, position :: label.path⟩

/-- A constant written in a program. -/
inductive Constant where
  | number (value : Float)
  | string (text : String)
  | bool (truth : Bool)
  | void

/-- A node of a program. -/
inductive Node where
  /-- Applies an operator to two operands. The operator is a node too, and only an operator node is
  apt. -/
  | expression (operator left right : Node)
  | operator (symbol : String)
  /-- A name, which stands for itself while it is unbound. -/
  | atom (name : String)
  /-- A name whose value is used as a key. -/
  | accessor (name : String)
  | constant (value : Constant)
  | action (label : Label) (body : List Node)
  /-- A struct still to be built: keys with unevaluated entries. -/
  | template (entries : List (String × Node))

/-- A program is a list of statements. -/
abbrev Program : Type := List Node

/-- What sort of node stands at a place, as error texts name it. -/
inductive NodeKind where
  | expression
  | operator
  | atom
  | accessor
  | literal
  | template
deriving DecidableEq, Repr

/-- The name of a sort of node in error texts. -/
def NodeKind.name : NodeKind → String
  | expression => "expression"
  | operator => "operator"
  | atom => "atom"
  | accessor => "accessor"
  | literal => "literal"
  | template => "struct template"

namespace Node

/-- Constants and actions are both literals. -/
def kind : Node → NodeKind
  | expression .. => .expression
  | operator _ => .operator
  | atom _ => .atom
  | accessor _ => .accessor
  | constant _ => .literal
  | action .. => .literal
  | template _ => .template

/-- The text of a name-like leaf: an atom, an accessor or a string. -/
def name? : Node → Option String
  | atom name => some name
  | accessor name => some name
  | constant (.string text) => some text
  | _ => none

/-- Whether a node applies the operator with this symbol. -/
def applies (node : Node) (symbol : String) : Bool :=
  match node with
  | expression (operator spelled) _ _ => spelled == symbol
  | _ => false

/-- The absent operand. -/
def void : Node := constant .void

/-- A template whose entries are keyed by their positions. -/
def list (elements : List Node) : Node :=
  template (elements.zipIdx.map fun (element, position) => (Nat.repr position, element))

end Node

end Tabula
