import Tabula.Proofs.Discipline.Basic

/-!
# Nested assignment obeys every discipline

An assignment allocates empty cells and inserts entries, and nothing else. The tables that it writes
are those on its way and those below the struct that it merges into; all of them can be reached from
the scope, so a run that may hold the scope may write them.
-/

namespace Tabula

namespace Discipline

variable {discipline : Discipline} {state : State}

theorem admits_of_get? {heap : Heap} {cell : Cell} {key : String} {value : Value}
    (kept : discipline.kept { state with heap })
    (readable : discipline.readable heap.size cell)
    (found : heap.get? cell key = some value) : discipline.Admits heap.size value :=
  (admitsTable_read kept readable).get? found

/-- Merging keeps what the discipline keeps. -/
theorem kept_storeWithin {depth : Nat} {merging : List (Cell × Cell)} {heap merged : Heap}
    {cell : Cell} {key : String} {value : Value}
    (kept : discipline.kept { state with heap })
    (writable : discipline.writable heap.size cell)
    (admits : discipline.Admits heap.size value)
    (stored : heap.storeWithin depth merging cell key value = some merged) :
    discipline.kept { state with heap := merged } := by
  induction depth generalizing merging heap merged cell key value with
  | zero => exact nomatch stored
  | succ depth inductionHypothesis =>
      rcases Heap.storeWithin_cases stored with
        ⟨rfl, _⟩ | ⟨destination, source, found, rfl, _, ⟨rfl, _⟩ | ⟨_, folded⟩⟩
      · exact discipline.insert key kept writable admits
      · exact kept
      · have writableDestination : discipline.writable heap.size destination :=
          admits_of_get? kept (discipline.readable_of_writable writable) found
        have sourceTable : discipline.AdmitsTable heap.size (heap.read source) :=
          admitsTable_read kept (discipline.readable_of_writable admits)
        -- no cell is allocated on the way, so what may be held stays the same
        refine (Heap.mergeWithin_induction folded
          (motive := fun between =>
            discipline.kept { state with heap := between } ∧ between.size = heap.size)
          ⟨kept, rfl⟩ fun entry member before _ ⟨keptBefore, sameSize⟩ first => ?_).1
        have admitsEntry : discipline.Admits heap.size entry.2 :=
          sourceTable.2 entry.2 (List.mem_map_of_mem member)
        exact ⟨inductionHypothesis keptBefore (sameSize ▸ writableDestination)
          (sameSize ▸ admitsEntry) first, (Heap.size_storeWithin first).trans sameSize⟩

theorem kept_store {heap : Heap} {cell : Cell} (key : String) {value : Value}
    (kept : discipline.kept { state with heap })
    (writable : discipline.writable heap.size cell)
    (admits : discipline.Admits heap.size value) :
    discipline.kept { state with heap := heap.store cell key value } := by
  rw [Heap.store]
  cases stored : heap.storeWithin (heap.size * heap.size + 1) [] cell key value with
  | none => exact kept
  | some merged => exact kept_storeWithin kept writable admits stored

/-- Entering a struct may allocate one, and leads to a struct that may be written. -/
theorem kept_enter {heap : Heap} {cell : Cell} (key : String)
    (kept : discipline.kept { state with heap })
    (writable : discipline.writable heap.size cell) :
    discipline.kept { state with heap := (heap.enter cell key).2 } ∧
      heap.size ≤ (heap.enter cell key).2.size ∧
      discipline.writable (heap.enter cell key).2.size (heap.enter cell key).1 := by
  rw [Heap.enter]
  split
  · rename_i inner found
    exact ⟨kept, Nat.le_refl _,
      admits_of_get? kept (discipline.readable_of_writable writable) found⟩
  · have empty : discipline.AdmitsTable heap.size [] := AdmitsTable.nil heap.size
    have keptAlloc : discipline.kept { state with heap := (heap.alloc []).2 } :=
      discipline.alloc kept empty.1 empty.2
    have sizeAlloc : (heap.alloc []).2.size = heap.size + 1 := heap.size_alloc []
    have grown : heap.size ≤ (heap.alloc []).2.size := sizeAlloc ▸ Nat.le_succ heap.size
    have fresh : discipline.writable (heap.alloc []).2.size heap.size :=
      sizeAlloc ▸ discipline.writable_alloc kept
    have sizeInsert :
        ((heap.alloc []).2.insert cell key (.struct heap.size)).size = (heap.alloc []).2.size :=
      Heap.size_insert _ cell key _
    exact ⟨discipline.insert key keptAlloc (discipline.writable_mono grown writable) fresh,
      sizeInsert.symm ▸ grown, sizeInsert.symm ▸ fresh⟩

theorem kept_storeAt {heap : Heap} {cell : Cell} (keys : List String) {value : Value}
    (kept : discipline.kept { state with heap })
    (writable : discipline.writable heap.size cell)
    (admits : discipline.Admits heap.size value) :
    discipline.kept { state with heap := heap.storeAt cell keys value } ∧
      heap.size ≤ (heap.storeAt cell keys value).size := by
  induction keys generalizing heap cell with
  | nil => exact ⟨kept, Nat.le_refl _⟩
  | cons key rest inductionHypothesis =>
      cases rest with
      | nil =>
          exact ⟨kept_store key kept writable admits,
            Nat.le_of_eq (heap.size_store cell key value).symm⟩
      | cons next others =>
          obtain ⟨keptEnter, grown, writableInner⟩ := kept_enter key kept writable
          have reached := inductionHypothesis keptEnter writableInner (admits.mono grown)
          exact ⟨reached.1, Nat.le_trans grown reached.2⟩

theorem kept_assign {heap : Heap} {scope : Cell} (target : Target) {value : Value}
    (kept : discipline.kept { state with heap })
    (writable : discipline.writable heap.size scope)
    (admits : discipline.Admits heap.size value) :
    discipline.kept { state with heap := heap.assign scope target value } ∧
      heap.size ≤ (heap.assign scope target value).size := by
  obtain ⟨keptEnter, grown, writableRoot⟩ := kept_enter target.root kept writable
  have reached :=
    kept_storeAt target.keys.reverse keptEnter writableRoot (admits.mono grown)
  exact ⟨reached.1, Nat.le_trans grown reached.2⟩

end Discipline

end Tabula
