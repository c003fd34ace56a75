import Tabula.Proofs.Merging.Calls
import Tabula.Proofs.Merging.Tree

/-!
# What a merge leaves alone

A merge writes into structs that the destination reached before, and, where it finds no struct under
a key, it puts the struct of the source there as it is. Such a struct is itself merged into only if
the same merge stores a second struct under the same key of the same cell. Once it is, the structs
that it holds may be merged into as well. All other cells keep their entries, however the source and
the destination are shared and whatever cycles they have.

A struct of the source is merged into where the destination reaches a struct by two paths: then two
structs of the source are merged into this one struct, and a field that the first brings along is a
destination for the second. This cannot happen in a tree.
-/

namespace Tabula

open Relation (ReflTransGen TransGen)

namespace StoreCall

/-- The call puts a struct under a key that holds none. -/
structure Puts (call : StoreCall) (inner : Cell) : Prop where
  incoming : call.value = .struct inner
  free : ∀ there, call.heap.get? call.cell call.key ≠ some (.struct there)

/-- The call merges another struct into the one under its key. -/
structure MergesInto (call : StoreCall) (inner : Cell) : Prop where
  slot : call.heap.get? call.cell call.key = some (.struct inner)
  incoming : ∃ source, call.value = .struct source ∧ inner ≠ source ∧
    (inner, source) ∉ call.merging

/-- Calls nested in a call put a struct under a key of a cell, and merge another one into it there.
-/
def Reuses (call : StoreCall) (slot inner : Cell) : Prop :=
  ∃ first second, TransGen Nests call first ∧ TransGen Nests call second ∧
    first.cell = slot ∧ second.cell = slot ∧ first.key = second.key ∧
    first.Puts inner ∧ second.MergesInto inner

/-- The cells that the merge of a call may write to. Besides those that the root reaches, these are
the structs into which nested calls merge another one under a key of such a cell. What stands there
has been put there by the same merge or was there at first. -/
inductive Writable (call : StoreCall) (root : Cell) : Cell → Prop
  | reached {cell : Cell} : ReflTransGen call.heap.Child root cell → Writable call root cell
  | reused {slot inner : Cell} :
      Writable call root slot → call.Reuses slot inner → Writable call root inner
  | held {nested : StoreCall} {inner : Cell} :
      Writable call root nested.cell →
      TransGen Nests call nested →
      call.heap.get? nested.cell nested.key = some (.struct inner) →
      nested.MergesInto inner →
      Writable call root inner

/-- So far only writable cells have changed, and a struct under a key was there at first or has been
put there. -/
structure Keeps (call : StoreCall) (root : Cell) (heap : Heap) : Prop where
  outside : ∀ cell, ¬ call.Writable root cell → heap.read cell = call.heap.read cell
  origin : ∀ cell key inner, heap.get? cell key = some (.struct inner) →
    call.heap.get? cell key = some (.struct inner) ∨
      ∃ first, TransGen Nests call first ∧ first.cell = cell ∧ first.key = key ∧ first.Puts inner

variable {call nested : StoreCall} {root inner other : Cell} {merged : Heap} {depth : Nat}

theorem Keeps.start (call : StoreCall) (root : Cell) : call.Keeps root call.heap where
  outside _ _ := rfl
  origin _ _ _ found := Or.inl found

/-- A call that replaces what is under a key puts a struct there or leaves one. -/
theorem Keeps.insert (isNested : TransGen Nests call nested)
    (writable : call.Writable root nested.cell) (keeps : call.Keeps root nested.heap)
    (replaces : ∀ destination source,
      nested.heap.get? nested.cell nested.key = some (.struct destination) →
        nested.value = .struct source → destination = source) :
    call.Keeps root (nested.heap.insert nested.cell nested.key nested.value) where
  outside cell apart := by
    have different : nested.cell ≠ cell := fun same => apart (same ▸ writable)
    rw [Heap.read_insert_of_ne _ _ _ different, keeps.outside cell apart]
  origin cell key inner found := by
    by_cases here : (nested.cell, nested.key) = (cell, key)
    · cases here
      have allocated : nested.cell < nested.heap.size := by
        rw [← nested.heap.size_insert nested.cell nested.key nested.value]
        exact Heap.lt_size_of_get? found
      rw [Heap.get?_insert_self _ _ _ allocated] at found
      have incoming : nested.value = .struct inner := Option.some.inj found
      by_cases held : ∃ there, nested.heap.get? nested.cell nested.key = some (.struct there)
      · obtain ⟨there, foundThere⟩ := held
        have same : there = inner := replaces there inner foundThere incoming
        exact keeps.origin nested.cell nested.key inner (same ▸ foundThere)
      · exact Or.inr ⟨nested, isNested, rfl, rfl, incoming, fun there foundThere =>
          held ⟨there, foundThere⟩⟩
    · rw [Heap.get?_insert_of_ne _ _ here] at found
      exact keeps.origin cell key inner found

/-- A nested call that stores under a key of a writable cell merges into a writable struct. -/
theorem Keeps.writable (isNested : TransGen Nests call nested)
    (writable : call.Writable root nested.cell) (keeps : call.Keeps root nested.heap)
    (merges : nested.MergesInto inner) : call.Writable root inner := by
  rcases keeps.origin nested.cell nested.key inner merges.slot with
    held | ⟨first, isNestedFirst, sameCell, sameKey, puts⟩
  · exact .held writable isNested held merges
  · exact .reused writable
      ⟨first, nested, isNestedFirst, isNested, sameCell, rfl, sameKey, puts, merges⟩

theorem Keeps.storeWithin (isNested : TransGen Nests call nested)
    (writable : call.Writable root nested.cell) (keeps : call.Keeps root nested.heap)
    (stored : nested.heap.storeWithin depth nested.merging nested.cell nested.key nested.value =
      some merged) :
    call.Keeps root merged := by
  induction depth generalizing nested merged with
  | zero => exact nomatch stored
  | succ depth inductionHypothesis =>
      rcases Heap.storeWithin_cases stored with
        ⟨rfl, replaces⟩ | ⟨destination, source, found, incoming, different, step⟩
      · exact keeps.insert isNested writable replaces
      · rcases step with ⟨rfl, _⟩ | ⟨outside, folded⟩
        · exact keeps
        · have writableDestination : call.Writable root destination :=
            keeps.writable isNested writable ⟨found, source, incoming, different, outside⟩
          obtain ⟨heap, merging, cell, key, value⟩ := nested
          subst incoming
          refine merge_induction found different outside folded keeps ?_
          intro inner nests sameCell after keepsInner storedInner
          exact inductionHypothesis (isNested.tail nests) (sameCell ▸ writableDestination)
            keepsInner storedInner

/-- Storing a struct over another one keeps all cells but the writable ones. -/
theorem keeps_store {heap : Heap} {cell destination source : Cell} {key : String}
    (found : heap.get? cell key = some (.struct destination)) (different : destination ≠ source) :
    (mk heap [] cell key (.struct source)).Keeps destination
      (heap.store cell key (.struct source)) := by
  obtain ⟨depth, folded⟩ := Heap.exists_mergeWithin_eq_store found different
  refine merge_induction found different List.not_mem_nil folded (.start _ destination) ?_
  intro nested nests sameCell after keeps stored
  exact keeps.storeWithin (.single nests) (sameCell ▸ .reached .refl) stored

/-- A writable cell that the root does not reach is reached from a struct that the merge reuses and
that the root does not reach either. -/
theorem Writable.exists_reuses (writable : call.Writable root other)
    (outside : ¬ ReflTransGen call.heap.Child root other) :
    ∃ slot inner, call.Writable root slot ∧ call.Reuses slot inner ∧
      ¬ ReflTransGen call.heap.Child root inner ∧ ReflTransGen call.heap.Child inner other := by
  induction writable with
  | reached reached => exact absurd reached outside
  | reused writable reuses _ => exact ⟨_, _, writable, reuses, outside, .refl⟩
  | held _ _ found _ inductionHypothesis =>
      have child := Table.mem_values_of_get? found
      obtain ⟨slot, inner, writable, reuses, apart, reaches⟩ :=
        inductionHypothesis fun reached => outside (reached.tail child)
      exact ⟨slot, inner, writable, reuses, apart, reaches.tail child⟩

/-- A reused struct is reached from the destination or comes with the incoming struct. -/
theorem Reuses.reached {heap : Heap} {cell destination source slot : Cell} {key : String}
    (found : heap.get? cell key = some (.struct destination))
    (reuses : (mk heap [] cell key (.struct source)).Reuses slot inner) :
    ReflTransGen heap.Child destination inner ∨ ReflTransGen heap.Child source inner := by
  obtain ⟨first, _, isNested, _, _, _, _, puts, _⟩ := reuses
  have within := within_of_nested isNested.to_reflTransGen (heap.within_involved cell key _)
  obtain ⟨root, isDestination | isSource, reached⟩ := within.1.incoming _ puts.incoming
  · rw [found] at isDestination
    cases isDestination
    exact Or.inl reached
  · cases isSource
    exact Or.inr reached

end StoreCall

namespace Heap

/-- Storing a struct over a tree keeps what is outside the tree. -/
theorem read_store_of_uniquePaths {heap : Heap} {cell destination source other : Cell}
    {key : String} (distinct : heap.Distinct)
    (found : heap.get? cell key = some (.struct destination)) (different : destination ≠ source)
    (unique : heap.UniquePaths destination)
    (outside : ¬ ReflTransGen heap.Child destination other) :
    (heap.store cell key (.struct source)).read other = heap.read other := by
  obtain ⟨depth, folded⟩ := exists_mergeWithin_eq_store found different
  have changes :=
    changesOnly_mergeWithin unique distinct (distinct source) (fun _ _ => ⟨rfl, fun _ _ => rfl⟩)
      folded
  have notRoot : other ≠ destination := fun same => outside (same ▸ .refl)
  exact changes.others other notRoot fun _ _ part => outside part.reaches

end Heap

/-- When a struct is stored over a different one, every cell that the latter did not reach keeps its
entries. The exception is a cell that the merge may write to because it is, or is reached from, a
struct of the incoming one that the same merge puts under a key and there merges another struct
into. For this the destination has to reach some struct by two paths. -/
theorem cells_outside_destination_are_kept {heap : Heap} {cell destination source : Cell}
    {key : String} (distinct : heap.Distinct)
    (found : heap.get? cell key = some (.struct destination)) (different : destination ≠ source)
    {other : Cell} (outside : ¬ ReflTransGen heap.Child destination other) :
    (heap.store cell key (.struct source)).read other = heap.read other ∨
      (StoreCall.mk heap [] cell key (.struct source)).Writable destination other ∧
        (∃ slot inner,
          (StoreCall.mk heap [] cell key (.struct source)).Writable destination slot ∧
          (StoreCall.mk heap [] cell key (.struct source)).Reuses slot inner ∧
          ¬ ReflTransGen heap.Child destination inner ∧
          ReflTransGen heap.Child source inner ∧ ReflTransGen heap.Child inner other) ∧
        ∃ first second shared, first ≠ second ∧
          heap.follow (.struct destination) first = .struct shared ∧
          heap.follow (.struct destination) second = .struct shared := by
  by_cases kept : (heap.store cell key (.struct source)).read other = heap.read other
  · exact Or.inl kept
  have writable : (StoreCall.mk heap [] cell key (.struct source)).Writable destination other := by
    by_contra apart
    exact kept ((StoreCall.keeps_store found different).outside other apart)
  obtain ⟨slot, inner, writableSlot, reuses, apart, reaches⟩ := writable.exists_reuses outside
  have fromSource : ReflTransGen heap.Child source inner :=
    (reuses.reached found).resolve_left apart
  refine Or.inr ⟨writable, ⟨slot, inner, writableSlot, reuses, apart, fromSource, reaches⟩, ?_⟩
  by_contra single
  have unique : heap.UniquePaths destination := by
    intro first second shared leadsFirst leadsSecond
    by_contra twice
    exact single ⟨first, second, shared, twice, leadsFirst, leadsSecond⟩
  exact kept (heap.read_store_of_uniquePaths distinct found different unique outside)

/-! ## A destination that is shared -/

/-- The struct in cell 1 holds the struct in cell 2 twice. Both structs that the struct in cell 3
holds bring along a field of the same name. -/
private def heldTwice : Heap where
  tables := #[
    [("x", .struct 1)],
    [("a", .struct 2), ("b", .struct 2)],
    [],
    [("a", .struct 4), ("b", .struct 5)],
    [("x", .struct 6)],
    [("x", .struct 7)],
    [],
    [("v", .bool true)]]

private theorem not_reaches_heldTwice : ¬ ReflTransGen heldTwice.Child 1 6 := by
  have isSealed : heldTwice.Sealed fun cell => cell = 1 ∨ cell = 2 := by
    rintro cell (rfl | rfl) inner child
    · have held : Value.struct inner ∈ [Value.struct 2, Value.struct 2] := child
      simpa using Or.inr held
    · exact absurd child List.not_mem_nil
  intro reaches
  exact absurd (isSealed.reaches (Or.inl rfl) reaches) (by decide)

private theorem reaches_heldTwice : ReflTransGen heldTwice.Child 3 6 := by
  have first : heldTwice.Child 3 4 := List.mem_cons_self
  have second : heldTwice.Child 4 6 := List.mem_cons_self
  exact .tail (.single first) second

private theorem distinct_heldTwice : heldTwice.Distinct :=
  Heap.read_induction (motive := Table.Distinct) (by decide) (by decide)

private theorem closed_heldTwice : heldTwice.Closed :=
  Heap.closed_of_tables
    (by simp [heldTwice, Heap.size, Table.values, Value.Within, or_imp, forall_and])

private theorem changed_heldTwice :
    (heldTwice.store 0 "x" (.struct 3)).read 6 ≠ heldTwice.read 6 := by
  have after : (heldTwice.store 0 "x" (.struct 3)).read 6 = [("v", .bool true)] := rfl
  have before : heldTwice.read 6 = [] := rfl
  rw [after, before]
  exact List.cons_ne_nil _ _

/-- A cell of the incoming struct that the destination does not reach may change. -/
theorem shared_destination_changes_source :
    heldTwice.Distinct ∧ heldTwice.Closed ∧ heldTwice.get? 0 "x" = some (.struct 1) ∧
      ReflTransGen heldTwice.Child 3 6 ∧ ¬ ReflTransGen heldTwice.Child 1 6 ∧
      (heldTwice.store 0 "x" (.struct 3)).read 6 ≠ heldTwice.read 6 :=
  ⟨distinct_heldTwice, closed_heldTwice, rfl, reaches_heldTwice, not_reaches_heldTwice,
    changed_heldTwice⟩

theorem fields_held_twice_overlap :
    heldTwice.Distinct ∧ heldTwice.get? 0 "x" = some (.struct 1) ∧ (1 : Cell) ≠ 3 ∧
      ¬ ReflTransGen heldTwice.Child 1 6 ∧
      (StoreCall.mk heldTwice [] 0 "x" (.struct 3)).Writable 1 6 ∧
      (∃ slot inner, (StoreCall.mk heldTwice [] 0 "x" (.struct 3)).Writable 1 slot ∧
        (StoreCall.mk heldTwice [] 0 "x" (.struct 3)).Reuses slot inner ∧
        ¬ ReflTransGen heldTwice.Child 1 inner ∧
        ReflTransGen heldTwice.Child 3 inner ∧ ReflTransGen heldTwice.Child inner 6) ∧
      ∃ first second shared, first ≠ second ∧
        heldTwice.follow (.struct 1) first = .struct shared ∧
        heldTwice.follow (.struct 1) second = .struct shared := by
  have found : heldTwice.get? 0 "x" = some (.struct 1) := rfl
  have different : (1 : Cell) ≠ 3 := by decide
  have kept :=
    cells_outside_destination_are_kept distinct_heldTwice found different not_reaches_heldTwice
  exact ⟨distinct_heldTwice, found, different, not_reaches_heldTwice,
    kept.resolve_left changed_heldTwice⟩

end Tabula
