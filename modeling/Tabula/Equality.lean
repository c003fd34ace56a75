import Tabula.Heap

/-!
Structural equality. Two structs are equal when they are one cell, or have equal values under the
same keys in any order; actions and functions are equal only to themselves; a number that is not a
number equals itself. Comparing two structs that both contain themselves may never end, and then
there is no answer.
-/

namespace Tabula

/-- Whether two tables have the same keys with equal values; the first difference decides. -/
def Table.equal? {α : Type} (compare : α → α → Option Bool) (left right : Table α) : Option Bool :=
  if left.length = right.length then entries left else some false
where
  /-- Compares the entries in the order of the left table. -/
  entries : Table α → Option Bool
    | [] => some true
    | (key, value) :: rest =>
        match right.get? key with
        | none => some false
        | some other =>
            match compare value other with
            | some true => entries rest
            | answer => answer

namespace Heap

/-- Compares two values through so many nested structs. -/
def equalWithin (heap : Heap) : Nat → Value → Value → Option Bool
  | 0, _, _ => none
  | depth + 1, left, right =>
      match left, right with
      | .number x, .number y => some (x == y || (x.isNaN && y.isNaN))
      | .string x, .string y => some (x == y)
      | .bool x, .bool y => some (x == y)
      | .void, .void => some true
      | .error x, .error y => some (x == y)
      | .function x, .function y => some (x.serial == y.serial)
      | .action x, .action y => some (x.label == y.label)
      | .struct x, .struct y =>
          if x = y then some true
          else Table.equal? (heap.equalWithin depth) (heap.read x) (heap.read y)
      | _, _ => some false

/-- Compares two values. A comparison nested deeper than there are pairs of cells comes back to a
pair that it is still comparing, and so would never end. -/
def equal? (heap : Heap) (left right : Value) : Option Bool :=
  heap.equalWithin (heap.size * heap.size + 2) left right

end Heap

end Tabula
