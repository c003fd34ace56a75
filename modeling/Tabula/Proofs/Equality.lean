import Mathlib
import Tabula.Proofs.Assignment
import Tabula.Proofs.Bounds
import Tabula.Proofs.KeyOrder

/-!
# Equality of values

Two structs are compared as their tables are: each key of the one is looked up in the other, and the
values are compared. Since no table lists a key twice, equal lengths make this look at the keys of
both, so the comparison does not depend on the side that it starts from.

The laws of equality go through the pairs of values that a comparison opens. As soon as one of the
two values reaches no cycle there are finitely many of them, so the comparison ends, whatever the
other value is. The shortcut for two structs in one cell decides nothing then; it only lets a struct
be equal to itself where a cycle would keep the comparison from ending.
-/

namespace Tabula

open Relation

/-- Whether two values are equal of which at least one is no struct. -/
def Value.leafEqual : Value → Value → Bool
  | .number x, .number y => x == y || (x.isNaN && y.isNaN)
  | .string x, .string y => x == y
  | .bool x, .bool y => x == y
  | .void, .void => true
  | .error x, .error y => x == y
  | .function x, .function y => x.serial == y.serial
  | .action x, .action y => x.label == y.label
  | _, _ => false

namespace Heap

/-- Compares two values through so many nested structs, where structs in one cell are compared as
all others are. -/
def unsharedWithin (heap : Heap) : Nat → Value → Value → Option Bool
  | 0, _, _ => none
  | depth + 1, .struct x, .struct y =>
      Table.equal? (heap.unsharedWithin depth) (heap.read x) (heap.read y)
  | _ + 1, left, right => some (left.leafEqual right)

/-- Below a value there is a cell that is reached from itself through fields. -/
def ReachesCycle (heap : Heap) (value : Value) : Prop :=
  ∃ cell inner, value = .struct cell ∧ ReflTransGen heap.Child cell inner ∧
    TransGen heap.Child inner inner

/-- Every cell has the same entries in both heaps, but for their order. -/
def Permuted (heap other : Heap) : Prop := ∀ cell, (heap.read cell).Perm (other.read cell)

/-- The laws of equality over a heap. -/
structure EqualityLaws (heap : Heap) : Prop where
  ends : ∀ left right, ∃ answer, heap.equal? left right = some answer
  reflexive : ∀ value, heap.equal? value value = some true
  symmetric : ∀ left right, heap.equal? left right = heap.equal? right left
  transitive : ∀ left middle right, heap.equal? left middle = some true →
    heap.equal? middle right = some true → heap.equal? left right = some true
  permuted : ∀ other, heap.Permuted other →
    ∀ left right, other.equal? left right = heap.equal? left right
  fields : ∀ left right, heap.equal? left right = some true →
    ∀ key, heap.equal? (heap.field left key) (heap.field right key) = some true
  unshared : ∀ left right, ∃ enough, ∀ depth ≥ enough,
    heap.unsharedWithin depth left right = heap.equal? left right
  tables : ∀ x y, heap.equal? (.struct x) (.struct y) =
    Table.equal? heap.equal? (heap.read x) (heap.read y)

end Heap

/-! ## Values that are no structs -/

namespace Value

/-- IEEE equality, with what is no number equal to itself, is an equivalence: only the two zeros are
identified. -/
theorem leafEqual_number_iff {x y : Float} :
    leafEqual (.number x) (.number y) = true ↔ x = y ∨ x = 0 ∧ y = -0 ∨ x = -0 ∧ y = 0 := by
  have zero : (0 : Float) ≠ Float.nan := by decide
  have negative : (-0 : Float) ≠ Float.nan := by decide
  rw [leafEqual, Bool.or_eq_true, Bool.and_eq_true, Float.beq_iff_ne_nan_and_eq,
    Float.isNaN_eq_decide_eq_nan, Float.isNaN_eq_decide_eq_nan, decide_eq_true_eq,
    decide_eq_true_eq]
  constructor
  · rintro (⟨_, _, equal⟩ | ⟨rfl, rfl⟩)
    · exact equal
    · exact Or.inl rfl
  · rintro (rfl | ⟨rfl, rfl⟩ | ⟨rfl, rfl⟩)
    · by_cases notNumber : x = Float.nan
      · exact Or.inr ⟨notNumber, notNumber⟩
      · exact Or.inl ⟨notNumber, notNumber, Or.inl rfl⟩
    · exact Or.inl ⟨zero, negative, Or.inr (Or.inl ⟨rfl, rfl⟩)⟩
    · exact Or.inl ⟨negative, zero, Or.inr (Or.inr ⟨rfl, rfl⟩)⟩

theorem leafEqual_self {value : Value} (leaf : value.cell? = none) :
    value.leafEqual value = true := by
  cases value with
  | number x => exact leafEqual_number_iff.mpr (Or.inl rfl)
  | struct cell => exact nomatch leaf
  | _ => simp [leafEqual]

theorem leafEqual_symm {left right : Value} (equal : left.leafEqual right = true) :
    right.leafEqual left = true := by
  cases left <;> cases right
  case number.number x y =>
    rw [leafEqual_number_iff] at equal ⊢
    rcases equal with rfl | ⟨rfl, rfl⟩ | ⟨rfl, rfl⟩ <;> simp
  all_goals simp_all [leafEqual]

theorem leafEqual_trans {left middle right : Value} (equal : left.leafEqual middle = true)
    (others : middle.leafEqual right = true) : left.leafEqual right = true := by
  cases left <;> cases middle
  case number.number x y =>
    cases right
    case number z =>
      rw [leafEqual_number_iff] at equal others ⊢
      rcases equal with rfl | ⟨rfl, rfl⟩ | ⟨rfl, rfl⟩
      · exact others
      · rcases others with rfl | ⟨_, rfl⟩ | ⟨_, rfl⟩ <;> simp
      · rcases others with rfl | ⟨_, rfl⟩ | ⟨_, rfl⟩ <;> simp
    all_goals exact nomatch others
  all_goals simp only [leafEqual, Bool.false_eq_true] at equal
  all_goals cases right <;> simp_all [leafEqual]

/-- A struct is equal to no other value. -/
theorem cell?_of_leafEqual {left right : Value} (equal : left.leafEqual right = true) :
    left.cell? = none ∧ right.cell? = none := by
  cases left <;> cases right <;> first | exact ⟨rfl, rfl⟩ | exact nomatch equal

end Value

/-! ## Tables -/

namespace Table

variable {α : Type} {table left right : Table α} {compare : α → α → Option Bool}

theorem mem_keys_of_get? {key : String} {value : α} (found : table.get? key = some value) :
    key ∈ table.keys := List.mem_map_of_mem (f := Prod.fst) (mem_of_get? found)

theorem exists_get?_of_mem_values (distinct : table.Distinct) {value : α}
    (member : value ∈ table.values) : ∃ key, table.get? key = some value := by
  obtain ⟨entry, isEntry, rfl⟩ := List.mem_map.mp member
  exact ⟨entry.1, get?_of_mem distinct isEntry⟩

theorem get?_of_perm (distinct : left.Distinct) (perm : left.Perm right) (key : String) :
    left.get? key = right.get? key := by
  have keys : left.keys.Perm right.keys := perm.map Prod.fst
  cases found : left.get? key with
  | none =>
      rw [get?_eq_none_iff, keys.mem_iff] at found
      exact (get?_eq_none_iff.mpr found).symm
  | some value =>
      have distinctRight : right.Distinct := keys.nodup_iff.mp distinct
      exact (get?_of_mem distinctRight (perm.mem_iff.mp (mem_of_get? found))).symm

private theorem entries_eq_some_true_iff :
    equal?.entries compare right left = some true ↔
      ∀ entry ∈ left, ∃ other, right.get? entry.1 = some other ∧
        compare entry.2 other = some true := by
  induction left with
  | nil => exact iff_of_true rfl (fun _ member => absurd member List.not_mem_nil)
  | cons entry rest inductionHypothesis =>
      rw [equal?.entries, List.forall_mem_cons, ← inductionHypothesis]
      cases right.get? entry.1 with
      | none => simp
      | some other =>
          rcases answer : compare entry.2 other with _ | _ | _ <;> simp [answer]

private theorem entries_ends
    (ends : ∀ entry ∈ left, ∀ other, right.get? entry.1 = some other →
      ∃ answer, compare entry.2 other = some answer) :
    ∃ answer, equal?.entries compare right left = some answer := by
  induction left with
  | nil => exact ⟨true, rfl⟩
  | cons entry rest inductionHypothesis =>
      obtain ⟨here, later⟩ := List.forall_mem_cons.mp ends
      rw [equal?.entries]
      cases found : right.get? entry.1 with
      | none => exact ⟨false, rfl⟩
      | some other =>
          obtain ⟨answer, compared⟩ := here other found
          simp only [compared]
          cases answer with
          | true => exact inductionHypothesis later
          | false => exact ⟨false, rfl⟩

private theorem entries_congr {compare' : α → α → Option Bool}
    (same : ∀ entry ∈ left, ∀ other, right.get? entry.1 = some other →
      compare entry.2 other = compare' entry.2 other) :
    equal?.entries compare right left = equal?.entries compare' right left := by
  induction left with
  | nil => rfl
  | cons entry rest inductionHypothesis =>
      obtain ⟨here, later⟩ := List.forall_mem_cons.mp same
      rw [equal?.entries, equal?.entries, inductionHypothesis later]
      cases found : right.get? entry.1 with
      | none => rfl
      | some other => simp only [here other found]

/-- A comparison of tables ends if each comparison of two values under one key does. -/
theorem equal?_ends
    (ends : ∀ value ∈ left.values, ∀ other ∈ right.values,
      ∃ answer, compare value other = some answer) :
    ∃ answer, equal? compare left right = some answer := by
  rw [equal?]
  split
  · exact entries_ends fun entry member other found =>
      ends entry.2 (List.mem_map_of_mem member) other (mem_values_of_get? found)
  · exact ⟨false, rfl⟩

theorem equal?_congr {compare' : α → α → Option Bool}
    (same : ∀ value ∈ left.values, ∀ other ∈ right.values,
      compare value other = compare' value other) :
    equal? compare left right = equal? compare' left right := by
  rw [equal?, equal?]
  split
  · exact entries_congr fun entry member other found =>
      same entry.2 (List.mem_map_of_mem member) other (mem_values_of_get? found)
  · rfl

/-- The keys of the left table are looked up in the right one, and none of the right one is left
out: there are as many, and no key is listed twice. -/
theorem equal?_eq_some_true_iff (distinctLeft : left.Distinct) (distinctRight : right.Distinct) :
    equal? compare left right = some true ↔
      ∀ key, (left.get? key = none ∧ right.get? key = none) ∨
        ∃ value other, left.get? key = some value ∧ right.get? key = some other ∧
          compare value other = some true := by
  rw [equal?]
  constructor
  · intro equal key
    split at equal
    · rename_i sameLength
      rw [entries_eq_some_true_iff] at equal
      -- every key of the left table is in the right one, and the right one has no more keys
      have subset : left.keys ⊆ right.keys := by
        intro key member
        obtain ⟨entry, isEntry, rfl⟩ := List.mem_map.mp member
        obtain ⟨other, found, _⟩ := equal entry isEntry
        exact mem_keys_of_get? found
      have notMore : right.keys.length ≤ left.keys.length := by
        rw [keys, keys, List.length_map, List.length_map, sameLength]
      have keys : left.keys.Perm right.keys :=
        (distinctLeft.subperm subset).perm_of_length_le notMore
      cases found : left.get? key with
      | none =>
          rw [get?_eq_none_iff, keys.mem_iff] at found
          exact Or.inl ⟨rfl, get?_eq_none_iff.mpr found⟩
      | some value =>
          obtain ⟨other, foundOther, compared⟩ := equal (key, value) (mem_of_get? found)
          exact Or.inr ⟨value, other, rfl, foundOther, compared⟩
    · cases equal
  · intro matching
    have keys : left.keys.Perm right.keys := by
      refine (List.perm_ext_iff_of_nodup distinctLeft distinctRight).mpr fun key => ?_
      rcases matching key with ⟨absent, absentOther⟩ | ⟨value, other, found, foundOther, _⟩
      · exact iff_of_false (get?_eq_none_iff.mp absent) (get?_eq_none_iff.mp absentOther)
      · exact iff_of_true (mem_keys_of_get? found) (mem_keys_of_get? foundOther)
    have sameLength : left.length = right.length := by
      simpa [Table.keys] using keys.length_eq
    rw [if_pos sameLength, entries_eq_some_true_iff]
    intro entry member
    have foundEntry : left.get? entry.1 = some entry.2 := get?_of_mem distinctLeft member
    rcases matching entry.1 with ⟨absent, _⟩ | ⟨value, other, found, foundOther, compared⟩
    · rw [foundEntry] at absent
      cases absent
    · rw [foundEntry] at found
      cases found
      exact ⟨other, foundOther, compared⟩

end Table

namespace Heap

variable {heap : Heap} {left right : Value}

/-! ## Structs are compared as tables -/

theorem equal?_of_leaf (heap : Heap) (leaf : left.cell? = none ∨ right.cell? = none) :
    heap.equal? left right = some (left.leafEqual right) := by
  cases left <;> cases right <;> first | rfl | simp [Value.cell?] at leaf

theorem unsharedWithin_of_leaf (heap : Heap) (depth : Nat)
    (leaf : left.cell? = none ∨ right.cell? = none) :
    heap.unsharedWithin (depth + 1) left right = some (left.leafEqual right) := by
  cases left <;> cases right <;> first | rfl | simp [Value.cell?] at leaf

theorem equal?_self (heap : Heap) (value : Value) : heap.equal? value value = some true := by
  cases value with
  | struct cell => rw [equal?, equalWithin, if_pos rfl]
  | _ => rw [equal?_of_leaf heap (Or.inl rfl), Value.leafEqual_self rfl]

/-- Structs are equal as their tables are, also if they are one struct. -/
theorem equal?_structs (distinct : heap.Distinct) (x y : Cell) :
    heap.equal? (.struct x) (.struct y) =
      Table.equal? heap.equal? (heap.read x) (heap.read y) := by
  by_cases same : x = y
  · subst same
    rw [equal?_self, eq_comm, Table.equal?_eq_some_true_iff (distinct x) (distinct x)]
    intro key
    cases (heap.read x).get? key with
    | none => exact Or.inl ⟨rfl, rfl⟩
    | some value => exact Or.inr ⟨value, value, rfl, rfl, heap.equal?_self value⟩
  · have oneLevelLess : heap.equal? = heap.equalWithin (heap.size * heap.size + 1) := by
      funext left right
      exact equal?_eq_equalWithin left right (Nat.le_refl _)
    rw [equal?, equalWithin, if_neg same, ← oneLevelLess]

theorem equal?_structs_iff (distinct : heap.Distinct) {x y : Cell} :
    heap.equal? (.struct x) (.struct y) = some true ↔
      ∀ key, ((heap.read x).get? key = none ∧ (heap.read y).get? key = none) ∨
        ∃ value other, (heap.read x).get? key = some value ∧
          (heap.read y).get? key = some other ∧ heap.equal? value other = some true := by
  rw [equal?_structs distinct]
  exact Table.equal?_eq_some_true_iff (distinct x) (distinct y)

/-! ## Values that reach no cycle -/

theorem not_reachesCycle_of_leaf {value : Value} (leaf : value.cell? = none) :
    ¬ heap.ReachesCycle value := by
  rintro ⟨cell, _, rfl, _⟩
  exact nomatch leaf

theorem reachesCycle_of_mem {cell : Cell} {value : Value}
    (member : value ∈ (heap.read cell).values) (reaches : heap.ReachesCycle value) :
    heap.ReachesCycle (.struct cell) := by
  obtain ⟨next, inner, rfl, below, cycle⟩ := reaches
  exact ⟨cell, inner, rfl, .head member below, cycle⟩

theorem ReachesCycle.exists_mem {cell : Cell} (reaches : heap.ReachesCycle (.struct cell)) :
    ∃ value ∈ (heap.read cell).values, heap.ReachesCycle value := by
  obtain ⟨_, inner, same, below, cycle⟩ := reaches
  cases same
  rcases below.cases_head with rfl | ⟨next, child, belowNext⟩
  · obtain ⟨next, child, belowNext⟩ := TransGen.head'_iff.mp cycle
    exact ⟨.struct next, child, next, cell, rfl, belowNext, cycle⟩
  · exact ⟨.struct next, child, next, inner, rfl, belowNext, cycle⟩

private def below (heap : Heap) (cell : Cell) : Set Cell :=
  {inner | inner < heap.size ∧ ReflTransGen heap.Child cell inner}

private theorem ncard_below_lt {cell inner : Cell} (child : heap.Child cell inner)
    (noCycle : ¬ TransGen heap.Child cell cell) :
    (heap.below inner).ncard < (heap.below cell).ncard := by
  have finite : (heap.below cell).Finite :=
    (Set.finite_lt_nat heap.size).subset fun _ member => member.1
  have subset : heap.below inner ⊆ heap.below cell :=
    fun _ member => ⟨member.1, .head child member.2⟩
  -- the cell itself is below its struct, and would close a cycle if it were below the inner one
  refine Set.ncard_lt_ncard ⟨subset, fun all => noCycle ?_⟩ finite
  have here : cell ∈ heap.below inner := all ⟨lt_size_of_mem_read child, .refl⟩
  exact .head' child here.2

/-- What holds of a struct if it holds of its values holds of everything that reaches no cycle. -/
@[elab_as_elim]
theorem induction_of_not_reachesCycle {motive : Value → Prop}
    (leaf : ∀ value : Value, value.cell? = none → motive value)
    (struct : ∀ cell, (∀ value ∈ (heap.read cell).values, motive value) →
      motive (.struct cell))
    {value : Value} (noCycle : ¬ heap.ReachesCycle value) : motive value := by
  cases value with
  | struct cell =>
      -- fewer allocated cells are reached from a field than from the struct that has it
      induction count : (heap.below cell).ncard using Nat.strong_induction_on
        generalizing cell with
      | _ size inductionHypothesis =>
          refine struct cell fun value member => ?_
          cases value with
          | struct inner =>
              have fewer : (heap.below inner).ncard < size := count ▸
                ncard_below_lt member fun cycle => noCycle ⟨cell, cell, rfl, .refl, cycle⟩
              exact inductionHypothesis _ fewer inner
                (fun reaches => noCycle (reachesCycle_of_mem member reaches)) rfl
          | _ => exact leaf _ rfl
  | _ => exact leaf _ rfl

/-- A comparison opens two structs at a time, so it is enough that one of them gets smaller. -/
@[elab_as_elim]
theorem comparison_induction {motive : Value → Value → Prop}
    (leaf : ∀ left right : Value, left.cell? = none ∨ right.cell? = none → motive left right)
    (structs : ∀ x y,
      (∀ value ∈ (heap.read x).values, ∀ other ∈ (heap.read y).values, motive value other) →
      motive (.struct x) (.struct y))
    (noCycle : ¬ heap.ReachesCycle left ∨ ¬ heap.ReachesCycle right) : motive left right := by
  rcases noCycle with noCycle | noCycle
  · refine induction_of_not_reachesCycle (motive := fun left => ∀ right, motive left right)
      (fun left isLeaf right => leaf left right (Or.inl isLeaf)) ?_ noCycle right
    intro x inductionHypothesis right
    cases right with
    | struct y =>
        exact structs x y fun value member other _ => inductionHypothesis value member other
    | _ => exact leaf _ _ (Or.inr rfl)
  · refine induction_of_not_reachesCycle (motive := fun right => ∀ left, motive left right)
      (fun right isLeaf left => leaf left right (Or.inr isLeaf)) ?_ noCycle left
    intro y inductionHypothesis left
    cases left with
    | struct x =>
        exact structs x y fun value _ other member => inductionHypothesis other member value
    | _ => exact leaf _ _ (Or.inl rfl)

/-! ## The laws -/

private theorem eq_of_true_iff {first second : Option Bool}
    (firstEnds : ∃ answer, first = some answer) (secondEnds : ∃ answer, second = some answer)
    (alike : first = some true ↔ second = some true) : first = second := by
  obtain ⟨answer, rfl⟩ := firstEnds
  obtain ⟨answer', rfl⟩ := secondEnds
  rw [Option.some.injEq, Option.some.injEq, ← Bool.eq_iff_iff] at alike
  rw [alike]

section Laws

variable (distinct : heap.Distinct)
  (noCycle : ¬ heap.ReachesCycle left ∨ ¬ heap.ReachesCycle right)
include distinct noCycle

theorem equal?_ends : ∃ answer, heap.equal? left right = some answer := by
  refine comparison_induction ?_ ?_ noCycle
  · intro left right leaf
    exact ⟨_, heap.equal?_of_leaf leaf⟩
  · intro x y inductionHypothesis
    rw [equal?_structs distinct]
    exact Table.equal?_ends inductionHypothesis

theorem equal?_symm (equal : heap.equal? left right = some true) :
    heap.equal? right left = some true := by
  revert equal
  refine comparison_induction ?_ ?_ noCycle
  · intro left right leaf equal
    rw [equal?_of_leaf heap leaf] at equal
    rw [equal?_of_leaf heap leaf.symm, Value.leafEqual_symm (Option.some.inj equal)]
  · intro x y inductionHypothesis equal
    rw [equal?_structs_iff distinct] at equal ⊢
    intro key
    rcases equal key with ⟨absent, absentOther⟩ | ⟨value, other, found, foundOther, same⟩
    · exact Or.inl ⟨absentOther, absent⟩
    · exact Or.inr ⟨other, value, foundOther, found,
        inductionHypothesis value (Table.mem_values_of_get? found) other
          (Table.mem_values_of_get? foundOther) same⟩

theorem equal?_comm : heap.equal? left right = heap.equal? right left :=
  eq_of_true_iff (equal?_ends distinct noCycle) (equal?_ends distinct noCycle.symm)
    ⟨equal?_symm distinct noCycle, equal?_symm distinct noCycle.symm⟩

theorem equal?_trans {last : Value} (equal : heap.equal? left right = some true)
    (others : heap.equal? right last = some true) : heap.equal? left last = some true := by
  revert last
  revert equal
  refine comparison_induction ?_ ?_ noCycle
  · intro left right leaf equal last others
    rw [equal?_of_leaf heap leaf, Option.some.injEq] at equal
    obtain ⟨leafLeft, leafRight⟩ := Value.cell?_of_leafEqual equal
    rw [equal?_of_leaf heap (Or.inl leafRight), Option.some.injEq] at others
    rw [equal?_of_leaf heap (Or.inl leafLeft), Value.leafEqual_trans equal others]
  · intro x y inductionHypothesis equal last others
    cases last with
    | struct z =>
        rw [equal?_structs_iff distinct] at equal others ⊢
        intro key
        rcases equal key with ⟨absent, absentMiddle⟩ | ⟨value, middle, found, foundMiddle, same⟩ <;>
          rcases others key with ⟨absentMiddle', absentLast⟩ |
            ⟨middle', last, foundMiddle', foundLast, same'⟩
        · exact Or.inl ⟨absent, absentLast⟩
        · exact nomatch absentMiddle.symm.trans foundMiddle'
        · exact nomatch foundMiddle.symm.trans absentMiddle'
        · cases foundMiddle.symm.trans foundMiddle'
          exact Or.inr ⟨value, last, found, foundLast,
            inductionHypothesis value (Table.mem_values_of_get? found) middle
              (Table.mem_values_of_get? foundMiddle) same same'⟩
    | _ => exact nomatch others

/-- What is equal to a value that reaches no cycle reaches none either. -/
theorem not_reachesCycle_of_equal? (equal : heap.equal? left right = some true) :
    ¬ heap.ReachesCycle left := by
  revert equal
  refine comparison_induction ?_ ?_ noCycle
  · intro left right leaf equal
    rw [equal?_of_leaf heap leaf, Option.some.injEq] at equal
    exact not_reachesCycle_of_leaf (Value.cell?_of_leafEqual equal).1
  · intro x y inductionHypothesis equal reaches
    rw [equal?_structs_iff distinct] at equal
    obtain ⟨value, member, below⟩ := reaches.exists_mem
    obtain ⟨key, found⟩ := Table.exists_get?_of_mem_values (distinct x) member
    rcases equal key with ⟨absent, _⟩ | ⟨value', other, found', foundOther, same⟩
    · exact nomatch absent.symm.trans found
    · cases found.symm.trans found'
      exact inductionHypothesis value member other (Table.mem_values_of_get? foundOther) same below

/-- Deep enough, the comparison without the shortcut has the same answer. -/
theorem exists_unsharedWithin_eq_equal? : ∃ enough, ∀ depth ≥ enough,
    heap.unsharedWithin depth left right = heap.equal? left right := by
  refine comparison_induction ?_ ?_ noCycle
  · intro left right leaf
    refine ⟨1, fun depth deep => ?_⟩
    obtain ⟨level, rfl⟩ := Nat.exists_eq_add_of_le' deep
    rw [heap.unsharedWithin_of_leaf level leaf, heap.equal?_of_leaf leaf]
  · intro x y inductionHypothesis
    -- finitely many pairs are opened, so there is one depth that is enough for all of them
    have common : ∀ᶠ depth in Filter.atTop, ∀ value ∈ (heap.read x).values,
        ∀ other ∈ (heap.read y).values,
          heap.unsharedWithin depth value other = heap.equal? value other := by
      refine (Filter.eventually_all_finite (List.finite_toSet _)).mpr fun value member => ?_
      refine (Filter.eventually_all_finite (List.finite_toSet _)).mpr fun other memberOther => ?_
      exact Filter.eventually_atTop.mpr (inductionHypothesis value member other memberOther)
    obtain ⟨enough, same⟩ := Filter.eventually_atTop.mp common
    refine ⟨enough + 1, fun depth deep => ?_⟩
    obtain ⟨level, rfl⟩ := Nat.exists_eq_add_of_le' (Nat.le_of_add_left_le deep)
    rw [unsharedWithin, equal?_structs distinct,
      Table.equal?_congr (same level (Nat.le_of_add_le_add_right deep))]

end Laws

theorem equal?_field (distinct : heap.Distinct) (equal : heap.equal? left right = some true)
    (key : String) : heap.equal? (heap.field left key) (heap.field right key) = some true := by
  by_cases leaf : left.cell? = none ∨ right.cell? = none
  · rw [equal?_of_leaf heap leaf, Option.some.injEq] at equal
    obtain ⟨leafLeft, leafRight⟩ := Value.cell?_of_leafEqual equal
    have noFields : ∀ value : Value, value.cell? = none → heap.field value key = .void := by
      intro value isLeaf
      cases value <;> first | rfl | exact nomatch isLeaf
    rw [noFields left leafLeft, noFields right leafRight, equal?_self]
  · obtain ⟨x, rfl⟩ : ∃ x, left = .struct x := by
      cases left <;> simp_all [Value.cell?]
    obtain ⟨y, rfl⟩ : ∃ y, right = .struct y := by
      cases right <;> simp_all [Value.cell?]
    rw [equal?_structs_iff distinct] at equal
    rw [field, field, get?, get?]
    rcases equal key with ⟨absent, absentOther⟩ | ⟨value, other, found, foundOther, same⟩
    · rw [absent, absentOther, equal?_self]
    · rw [found, foundOther]
      exact same

/-! ## The order of entries -/

namespace Permuted

variable {other : Heap} (permuted : heap.Permuted other)
include permuted

theorem distinct (distinct : heap.Distinct) : other.Distinct :=
  fun cell => ((permuted cell).map Prod.fst).nodup_iff.mp (distinct cell)

theorem reachesCycle_iff {value : Value} : heap.ReachesCycle value ↔ other.ReachesCycle value := by
  have sameChildren : heap.Child = other.Child := by
    funext cell inner
    exact propext ((permuted cell).map Prod.snd).mem_iff
  rw [ReachesCycle, ReachesCycle, sameChildren]

theorem equal?_eq (distinct : heap.Distinct)
    (noCycle : ¬ heap.ReachesCycle left ∨ ¬ heap.ReachesCycle right) :
    other.equal? left right = heap.equal? left right := by
  have distinctOther : other.Distinct := permuted.distinct distinct
  have equalAlike : other.equal? left right = some true ↔ heap.equal? left right = some true := by
    refine comparison_induction ?_ ?_ noCycle
    · intro left right leaf
      rw [equal?_of_leaf other leaf, equal?_of_leaf heap leaf]
    · intro x y inductionHypothesis
      rw [equal?_structs_iff distinct, equal?_structs_iff distinctOther]
      refine forall_congr' fun key => ?_
      rw [← Table.get?_of_perm (distinct x) (permuted x) key,
        ← Table.get?_of_perm (distinct y) (permuted y) key]
      refine or_congr Iff.rfl (exists_congr fun value => exists_congr fun inner => ?_)
      refine and_congr_right fun found => and_congr_right fun foundInner => ?_
      exact inductionHypothesis value (Table.mem_values_of_get? found) inner
        (Table.mem_values_of_get? foundInner)
  have noCycleOther : ¬ other.ReachesCycle left ∨ ¬ other.ReachesCycle right := by
    rwa [← permuted.reachesCycle_iff, ← permuted.reachesCycle_iff]
  exact eq_of_true_iff (equal?_ends distinctOther noCycleOther) (equal?_ends distinct noCycle)
    equalAlike

end Permuted

theorem Acyclic.not_reachesCycle (acyclic : heap.Acyclic) (value : Value) :
    ¬ heap.ReachesCycle value := by
  rintro ⟨_, inner, _, _, cycle⟩
  exact acyclic inner cycle

end Heap

/-! ## Main result -/

/-- If no table lists a key twice, then equality obeys its laws over every heap without cycles. Over
any other heap a comparison still ends as soon as one of the two values reaches no cycle, and values
of which only one reaches a cycle are different. -/
theorem equality_obeys_laws {heap : Heap} (distinct : heap.Distinct) :
    (heap.Acyclic → heap.EqualityLaws) ∧
      ∀ left right, ¬ heap.ReachesCycle left ∨ ¬ heap.ReachesCycle right →
        ∃ answer, heap.equal? left right = some answer ∧
          (heap.ReachesCycle left ∨ heap.ReachesCycle right → answer = false) := by
  constructor
  · intro acyclic
    have noCycle : ∀ left right, ¬ heap.ReachesCycle left ∨ ¬ heap.ReachesCycle right :=
      fun left right => Or.inl (acyclic.not_reachesCycle left)
    exact {
      ends := fun left right => Heap.equal?_ends distinct (noCycle left right)
      reflexive := heap.equal?_self
      symmetric := fun left right => Heap.equal?_comm distinct (noCycle left right)
      transitive := fun left middle right equal others =>
        Heap.equal?_trans distinct (noCycle left middle) equal others
      permuted := fun other permuted left right =>
        permuted.equal?_eq distinct (noCycle left right)
      fields := fun left right equal key => Heap.equal?_field distinct equal key
      unshared := fun left right =>
        Heap.exists_unsharedWithin_eq_equal? distinct (noCycle left right)
      tables := Heap.equal?_structs distinct }
  · intro left right noCycle
    obtain ⟨answer, compared⟩ := Heap.equal?_ends distinct noCycle
    refine ⟨answer, compared, fun reaches => ?_⟩
    rw [← Bool.not_eq_true]
    rintro rfl
    have compared' := Heap.equal?_symm distinct noCycle compared
    rcases reaches with reaches | reaches
    · exact Heap.not_reachesCycle_of_equal? distinct noCycle compared reaches
    · exact Heap.not_reachesCycle_of_equal? distinct noCycle.symm compared' reaches

/-- Two structs that share a third one and list it in different places. -/
private def sharing : Heap :=
  ⟨#[[("a", .struct 2), ("b", .bool true)], [("b", .bool true), ("a", .struct 2)],
    [("a", .void)]]⟩

/-- A struct, and another one that holds itself. -/
private def onlyOneLoops : Heap := ⟨#[[("a", .void)], [("a", .struct 1)]]⟩

private theorem lt_of_child_sharing {cell inner : Cell} (child : sharing.Child cell inner) :
    cell < inner := by
  have allocated : cell < 3 := Heap.lt_size_of_mem_read child
  interval_cases cell <;> simp_all [Heap.Child, sharing, Heap.read, Table.values]

theorem shared_struct_is_compared_in_any_order :
    sharing.Acyclic ∧ sharing.EqualityLaws ∧
      sharing.equal? (.struct 0) (.struct 1) = some true ∧
      onlyOneLoops.ReachesCycle (.struct 1) ∧ ¬ onlyOneLoops.ReachesCycle (.struct 0) ∧
      onlyOneLoops.equal? (.struct 1) (.struct 0) = some false := by
  have distinctSharing : sharing.Distinct :=
    Heap.read_induction List.nodup_nil (by decide)
  have acyclic : sharing.Acyclic := by
    intro cell cycle
    have increasing : TransGen (· < ·) cell cell :=
      cycle.lift id fun _ _ => lt_of_child_sharing
    rw [transGen_eq_self] at increasing
    exact Nat.lt_irrefl cell increasing
  have distinctLooping : onlyOneLoops.Distinct :=
    Heap.read_induction List.nodup_nil (by decide)
  have loops : onlyOneLoops.ReachesCycle (.struct 1) :=
    ⟨1, 1, rfl, .refl, .single List.mem_cons_self⟩
  have stops : ¬ onlyOneLoops.ReachesCycle (.struct 0) := by
    intro reaches
    obtain ⟨value, member, below⟩ := reaches.exists_mem
    rw [List.mem_singleton.mp member] at below
    exact Heap.not_reachesCycle_of_leaf rfl below
  obtain ⟨answer, compared, different⟩ :=
    (equality_obeys_laws distinctLooping).2 (.struct 1) (.struct 0) (Or.inr stops)
  rw [different (Or.inl loops)] at compared
  exact ⟨acyclic, (equality_obeys_laws distinctSharing).1 acyclic, rfl, loops, stops, compared⟩

end Tabula
