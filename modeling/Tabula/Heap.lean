import Tabula.Sequence
import Tabula.Value

/-!
The heap: the tables behind cells, in the order of allocation. A cell never goes away. Structs and
scopes are cells alike, which is what lets a scope be handed out as a struct.
-/

namespace Tabula

/-- The tables of all cells allocated so far. -/
structure Heap where
  tables : Array (Table Value) := #[]

namespace Heap

/-- The number of cells; the next one allocated has this number. -/
def size (heap : Heap) : Nat := heap.tables.size

/-- The table in a cell; empty beyond the last cell. -/
def read (heap : Heap) (cell : Cell) : Table Value := heap.tables.getD cell []

/-- Replaces the table in a cell. -/
def write (heap : Heap) (cell : Cell) (table : Table Value) : Heap :=
  ⟨heap.tables.setIfInBounds cell table⟩

/-- Allocates a cell that holds a table. -/
def alloc (heap : Heap) (table : Table Value) : Cell × Heap := (heap.size, ⟨heap.tables.push table⟩)

/-- Writes one entry of the table in a cell. -/
def insert (heap : Heap) (cell : Cell) (key : String) (value : Value) : Heap :=
  heap.write cell ((heap.read cell).insert key value)

/-- The value under a key of the table in a cell. -/
def get? (heap : Heap) (cell : Cell) (key : String) : Option Value := (heap.read cell).get? key

/-- Reads a field. What is no struct has no fields, and a missing field is void. -/
def field (heap : Heap) (value : Value) (key : String) : Value :=
  match value with
  | .struct cell => (heap.get? cell key).getD .void
  | _ => .void

/-- The elements of a struct as they stand. -/
def elements? (heap : Heap) (value : Value) : Option (List Value) :=
  value.cell?.map fun cell => (heap.read cell).values

/-- Appends to a struct in place; nothing else can be appended to. -/
def push? (heap : Heap) (target value : Value) : Option Heap :=
  target.cell?.map fun cell => heap.write cell ((heap.read cell).push value)

/-! ## Reading back what was written -/

theorem read_alloc_of_ne (heap : Heap) (table : Table Value) {cell : Cell}
    (older : cell ≠ heap.size) : (heap.alloc table).2.read cell = heap.read cell := by
  simp only [size] at older
  simp [alloc, read, Array.getD_eq_getD_getElem?, Array.getElem?_push, older]

theorem read_alloc_self (heap : Heap) (table : Table Value) :
    (heap.alloc table).2.read heap.size = table := by
  simp [alloc, read, size]

theorem read_write_of_ne (heap : Heap) (table : Table Value) {written cell : Cell}
    (different : written ≠ cell) : (heap.write written table).read cell = heap.read cell := by
  simp [write, read, Array.getD_eq_getD_getElem?, different]

theorem read_write_self (heap : Heap) (table : Table Value) {cell : Cell}
    (present : cell < heap.size) : (heap.write cell table).read cell = table := by
  simp only [size] at present
  simp [write, read, Array.getD_eq_getD_getElem?, present]

theorem size_write (heap : Heap) (cell : Cell) (table : Table Value) :
    (heap.write cell table).size = heap.size := by
  simp [write, size]

theorem size_alloc (heap : Heap) (table : Table Value) :
    (heap.alloc table).2.size = heap.size + 1 := by
  simp [alloc, size]

/-- Beyond the last cell there is nothing to read. -/
theorem read_of_size_le (heap : Heap) {cell : Cell} (beyond : heap.size ≤ cell) :
    heap.read cell = [] := by
  simp only [size] at beyond
  simp [read, Array.getD_eq_getD_getElem?, Array.getElem?_eq_none beyond]

/-- What holds of the empty table and of every table of the heap holds wherever it is read. -/
theorem read_induction {heap : Heap} {motive : Table Value → Prop} (empty : motive [])
    (tables : ∀ table ∈ heap.tables.toList, motive table) (cell : Cell) :
    motive (heap.read cell) := by
  by_cases present : cell < heap.tables.size
  · have isTable : heap.read cell ∈ heap.tables.toList := by
      simp [read, Array.getD_eq_getD_getElem?, present]
    exact tables _ isTable
  · rw [heap.read_of_size_le (Nat.le_of_not_lt present)]
    exact empty

/-- Nothing can be written beyond the last cell. -/
theorem write_of_size_le (heap : Heap) {cell : Cell} (table : Table Value)
    (beyond : heap.size ≤ cell) : heap.write cell table = heap := by
  simp only [size] at beyond
  have same : heap.tables.setIfInBounds cell table = heap.tables :=
    Array.setIfInBounds_eq_of_size_le beyond
  simp [write, same]

theorem size_insert (heap : Heap) (cell : Cell) (key : String) (value : Value) :
    (heap.insert cell key value).size = heap.size :=
  heap.size_write cell ((heap.read cell).insert key value)

theorem read_insert_self (heap : Heap) {cell : Cell} (key : String) (value : Value)
    (present : cell < heap.size) :
    (heap.insert cell key value).read cell = (heap.read cell).insert key value :=
  heap.read_write_self _ present

theorem read_insert_of_ne (heap : Heap) {written cell : Cell} (key : String) (value : Value)
    (different : written ≠ cell) :
    (heap.insert written key value).read cell = heap.read cell :=
  heap.read_write_of_ne _ different

/-- After an insertion a table holds what it held before, or the value inserted into it. -/
theorem mem_read_insert {heap : Heap} {written cell : Cell} {key : String} {new value : Value}
    (member : value ∈ ((heap.insert written key new).read cell).values) :
    (cell = written ∧ value = new) ∨ value ∈ (heap.read cell).values := by
  by_cases same : written = cell
  · subst same
    by_cases present : written < heap.size
    · rw [heap.read_insert_self key new present] at member
      rcases Table.mem_values_insert member with isNew | old
      · exact Or.inl ⟨rfl, isNew⟩
      · exact Or.inr old
    · rw [insert, heap.write_of_size_le _ (Nat.le_of_not_lt present)] at member
      exact Or.inr member
  · rw [heap.read_insert_of_ne key new same] at member
    exact Or.inr member

/-- Only a cell that is allocated holds something. -/
theorem lt_size_of_mem_read {heap : Heap} {cell : Cell} {value : Value}
    (member : value ∈ (heap.read cell).values) : cell < heap.size := by
  refine Nat.lt_of_not_le fun beyond => ?_
  rw [heap.read_of_size_le beyond] at member
  exact absurd member List.not_mem_nil

theorem lt_size_of_get? {heap : Heap} {cell : Cell} {key : String} {value : Value}
    (found : heap.get? cell key = some value) : cell < heap.size :=
  lt_size_of_mem_read (Table.mem_values_of_get? found)

/-- Inserting what is there changes nothing. -/
theorem insert_of_get? {heap : Heap} {cell : Cell} {key : String} {value : Value}
    (found : heap.get? cell key = some value) : heap.insert cell key value = heap := by
  have present : cell < heap.tables.size := lt_size_of_get? found
  have same : heap.tables.setIfInBounds cell (heap.read cell) = heap.tables := by
    have isTable : heap.read cell = heap.tables[cell] := by simp [read, present]
    rw [isTable, Array.setIfInBounds_def, dif_pos present, Array.set_getElem_self]
  rw [insert, Table.insert_of_get? found, write, same]

theorem get?_insert_self (heap : Heap) {cell : Cell} (key : String) (value : Value)
    (present : cell < heap.size) : (heap.insert cell key value).get? cell key = some value := by
  rw [get?, heap.read_insert_self key value present, Table.get?_insert, if_pos rfl]

theorem get?_insert_of_ne (heap : Heap) {written cell : Cell} {key other : String}
    (value : Value) (different : (written, key) ≠ (cell, other)) :
    (heap.insert written key value).get? cell other = heap.get? cell other := by
  by_cases sameCell : written = cell
  · subst sameCell
    have otherKey : key ≠ other := fun same => different (by rw [same])
    by_cases present : written < heap.size
    · rw [get?, heap.read_insert_self key value present, Table.get?_insert, if_neg otherKey]
      rfl
    · rw [insert, heap.write_of_size_le _ (Nat.le_of_not_lt present)]
  · rw [get?, heap.read_insert_of_ne key value sameCell]
    rfl

end Heap

end Tabula
