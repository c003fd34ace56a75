import Tabula.Heap
import Tabula.Reserved
import Tabula.Text.Quoted

/-!
A value unfolded into a tree. A struct is cut where its cell already occurs on the way down from the
root, and only there: a struct shared by several fields is unfolded at each of them. The text of a
value and its tree in the data format are two views of this one unfolding, so they cut the same
places.
-/

namespace Tabula

/-- A value followed through its structs. -/
inductive Unfolding where
  /-- A value that is no struct. -/
  | leaf (value : Value)
  /-- A struct met again inside itself. -/
  | cut
  | struct (entries : List (String × Unfolding))

namespace Heap

/-- Unfolds a value below structs whose cells are given. -/
def unfoldBelow (heap : Heap) : Nat → List Cell → Value → Unfolding
  | 0, _, _ => .cut
  | depth + 1, above, .struct cell =>
      if cell ∈ above then .cut
      else
        .struct ((heap.read cell).map fun (key, value) =>
          (key, heap.unfoldBelow depth (cell :: above) value))
  | _ + 1, _, value => .leaf value

/-- Unfolds a value. The cells on one way down are distinct, so the depth is never used up: all
cells, one that is not allocated and so empty, and a leaf. -/
def unfold (heap : Heap) (value : Value) : Unfolding := heap.unfoldBelow (heap.size + 2) [] value

end Heap

/-! ## Text -/

/-- The text of a value that is no struct. -/
def Value.leafText : Value → String
  | number value => numberText value
  | string text => Text.quoted text
  | bool truth => if truth then "true" else "false"
  | struct _ => ""
  | function callee => String.join ["<function ", callee.name, ">"]
  | action block =>
      String.join
        ["<action", if block.scope.isSome then " bound" else "", " of ", Nat.repr block.body.length,
          " statements>"]
  | void => "void"
  | error text => String.join ["error(", Text.quoted text, ")"]

namespace Unfolding

mutual

/-- The text of an unfolded value: keys are written raw, and a cut struct as an ellipsis. -/
def text : Unfolding → String
  | leaf value => value.leafText
  | cut => "\x7b...\x7d"
  | struct entries => String.join ["\x7b", ", ".intercalate (entryTexts entries), "\x7d"]

/-- The texts of the entries of a struct. -/
def entryTexts : List (String × Unfolding) → List String
  | [] => []
  | (key, entry) :: rest => String.join [key, ": ", entry.text] :: entryTexts rest

end

end Unfolding

/-! ## Data -/

/-- The tree of a value that is no struct: errors are their text, and what cannot leave is null. -/
def Value.leafJson : Value → Json
  | number value => .number (.ofFloat value)
  | string text => .string text
  | bool truth => .bool truth
  | error text => .string text
  | _ => .null

namespace Unfolding

mutual

/-- The tree of an unfolded value: structs are objects, and a cut struct is null. -/
def toJson : Unfolding → Json
  | leaf value => value.leafJson
  | cut => .null
  | struct entries => .object (entryTrees entries)

/-- The members of the object of a struct. -/
def entryTrees : List (String × Unfolding) → List (String × Json)
  | [] => []
  | (key, entry) :: rest => (key, entry.toJson) :: entryTrees rest

end

end Unfolding

/-! ## Views of values and scopes -/

namespace Heap

/-- The text of a value, as it is printed. -/
def display (heap : Heap) (value : Value) : String := (heap.unfold value).text

/-- The text of a value with its type in front. -/
def describe (heap : Heap) (value : Value) : String :=
  String.join [value.tag.name, "(", heap.display value, ")"]

/-- The tree of a value, as it leaves the interpreter. -/
def toJson (heap : Heap) (value : Value) : Json := (heap.unfold value).toJson

/-- The tree of a scope: its bindings in order, without the reserved ones. -/
def scopeJson (heap : Heap) (scope : Cell) : Json :=
  .object (((heap.read scope).filter fun entry => !isReserved entry.1).map fun (name, value) =>
    (name, heap.toJson value))

end Heap

end Tabula
