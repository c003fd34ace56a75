import Tabula.Heap

/-!
Nested assignment. The target is a root name and keys below it; structs that are missing on the way
are created. A struct stored over a different struct is merged into it entry by entry, and anything
else replaces what was there. While a struct is being merged into another, the same pair met again
through a cycle is skipped, so merging ends on every heap.
-/

namespace Tabula

/-- The target of a nested assignment: the root name, and the keys below it, the last one first. -/
structure Target where
  root : String
  keys : List String
deriving DecidableEq, Repr

namespace Heap

/-- Stores a value under a key while the given pairs of cells are being merged, destination first.
There is no heap if the merges nest too deeply. -/
def storeWithin (heap : Heap) : Nat → List (Cell × Cell) → Cell → String → Value → Option Heap
  | 0, _, _, _, _ => none
  | depth + 1, merging, cell, key, value =>
      match heap.get? cell key, value with
      | some (.struct destination), .struct source =>
          if destination = source then some (heap.insert cell key value)
          else if (destination, source) ∈ merging then some heap
          else
            (heap.read source).foldlM
              (fun merged entry =>
                merged.storeWithin depth ((destination, source) :: merging) destination entry.1
                  entry.2)
              heap
      | _, _ => some (heap.insert cell key value)

/-- Merges entries into a struct one after another while the given pairs of cells are being merged.
-/
def mergeWithin (depth : Nat) (merging : List (Cell × Cell)) (destination : Cell) :
    List (String × Value) → Heap → Option Heap
  | [], heap => some heap
  | entry :: rest, heap =>
      (heap.storeWithin depth merging destination entry.1 entry.2).bind
        (mergeWithin depth merging destination rest)

theorem foldlM_storeWithin (depth : Nat) (merging : List (Cell × Cell)) (destination : Cell)
    (entries : List (String × Value)) (heap : Heap) :
    entries.foldlM (fun (merged : Heap) entry =>
        merged.storeWithin depth merging destination entry.1 entry.2) heap =
      mergeWithin depth merging destination entries heap := by
  induction entries generalizing heap with
  | nil => rfl
  | cons entry rest inductionHypothesis =>
      rw [List.foldlM_cons, mergeWithin]
      exact Option.bind_congr fun merged _ => inductionHypothesis merged

/-- A struct stored over a different one is merged into it, unless the two are being merged. -/
theorem storeWithin_struct {heap : Heap} {cell destination source : Cell} {key : String}
    (depth : Nat) (merging : List (Cell × Cell))
    (found : heap.get? cell key = some (.struct destination)) :
    heap.storeWithin (depth + 1) merging cell key (.struct source) =
      if destination = source then some (heap.insert cell key (.struct source))
      else if (destination, source) ∈ merging then some heap
      else
        mergeWithin depth ((destination, source) :: merging) destination (heap.read source)
          heap := by
  simp only [storeWithin, found, foldlM_storeWithin]

/-- Whatever is no struct, or is stored where there is none, replaces what was there. -/
theorem storeWithin_of_replaces {heap : Heap} {cell : Cell} {key : String} {value : Value}
    (depth : Nat) (merging : List (Cell × Cell))
    (replaces : value.cell? = none ∨ (heap.get? cell key).bind Value.cell? = none) :
    heap.storeWithin (depth + 1) merging cell key value = some (heap.insert cell key value) := by
  rw [storeWithin]
  intro destination source found isSource
  rw [found, isSource] at replaces
  rcases replaces with noSource | noDestination
  · exact nomatch noSource
  · exact nomatch noDestination

/-- A value is stored by replacing what was there, unless both are structs. -/
theorem replaces_or_structs (heap : Heap) (cell : Cell) (key : String) (value : Value) :
    (value.cell? = none ∨ (heap.get? cell key).bind Value.cell? = none) ∨
      ∃ destination source, heap.get? cell key = some (.struct destination) ∧
        value = .struct source := by
  by_cases replaces : value.cell? = none ∨ (heap.get? cell key).bind Value.cell? = none
  · exact Or.inl replaces
  · rw [not_or] at replaces
    obtain ⟨source, isSource⟩ := Option.ne_none_iff_exists'.mp replaces.1
    obtain ⟨destination, isDestination⟩ := Option.ne_none_iff_exists'.mp replaces.2
    obtain ⟨there, found, isThere⟩ := Option.bind_eq_some_iff.mp isDestination
    cases value <;> cases isSource
    cases there <;> cases isThere
    exact Or.inr ⟨destination, source, found, rfl⟩

/-- The ways in which a value is stored: it replaces what was there unless both are different
structs, and then either the two are being merged already, or they are merged now. -/
theorem storeWithin_cases {depth : Nat} {merging : List (Cell × Cell)} {heap merged : Heap}
    {cell : Cell} {key : String} {value : Value}
    (stored : heap.storeWithin (depth + 1) merging cell key value = some merged) :
    (merged = heap.insert cell key value ∧ ∀ destination source,
        heap.get? cell key = some (.struct destination) → value = .struct source →
          destination = source) ∨
      ∃ destination source, heap.get? cell key = some (.struct destination) ∧
        value = .struct source ∧ destination ≠ source ∧
        ((merged = heap ∧ (destination, source) ∈ merging) ∨
          (destination, source) ∉ merging ∧
            mergeWithin depth ((destination, source) :: merging) destination (heap.read source)
              heap = some merged) := by
  rcases heap.replaces_or_structs cell key value with
    replaces | ⟨destination, source, found, rfl⟩
  · rw [storeWithin_of_replaces depth merging replaces] at stored
    refine Or.inl ⟨(Option.some.inj stored).symm, ?_⟩
    rintro destination source found rfl
    rw [found] at replaces
    exact absurd replaces (by simp [Value.cell?])
  · rw [storeWithin_struct depth merging found] at stored
    split at stored
    · rename_i same
      refine Or.inl ⟨(Option.some.inj stored).symm, ?_⟩
      intro other there foundOther isThere
      rw [found] at foundOther
      cases foundOther
      cases isThere
      exact same
    · rename_i different
      refine Or.inr ⟨destination, source, found, rfl, different, ?_⟩
      split at stored
      · rename_i inside
        exact Or.inl ⟨(Option.some.inj stored).symm, inside⟩
      · rename_i outside
        exact Or.inr ⟨outside, stored⟩

/-- What storing each of the entries keeps holds after merging them. -/
theorem mergeWithin_induction {depth : Nat} {merging : List (Cell × Cell)} {heap merged : Heap}
    {destination : Cell} {entries : List (String × Value)} {motive : Heap → Prop}
    (folded : mergeWithin depth merging destination entries heap = some merged)
    (start : motive heap)
    (step : ∀ entry ∈ entries, ∀ before after : Heap, motive before →
      before.storeWithin depth merging destination entry.1 entry.2 = some after → motive after) :
    motive merged := by
  induction entries generalizing heap with
  | nil =>
      cases folded
      exact start
  | cons entry rest inductionHypothesis =>
      rw [mergeWithin, Option.bind_eq_some_iff] at folded
      obtain ⟨next, first, remaining⟩ := folded
      exact inductionHypothesis remaining (step entry List.mem_cons_self heap next start first)
        (fun other member => step other (List.mem_cons_of_mem entry member))

/-! ## Merging keeps the number of cells -/

theorem size_storeWithin {depth : Nat} {merging : List (Cell × Cell)} {heap merged : Heap}
    {cell : Cell} {key : String} {value : Value}
    (stored : heap.storeWithin depth merging cell key value = some merged) :
    merged.size = heap.size := by
  induction depth generalizing merging heap merged cell key value with
  | zero => exact nomatch stored
  | succ depth inductionHypothesis =>
      rcases storeWithin_cases stored with
        ⟨rfl, _⟩ | ⟨_, _, _, _, _, ⟨rfl, _⟩ | ⟨_, folded⟩⟩
      · exact heap.size_insert cell key value
      · rfl
      · exact mergeWithin_induction (motive := fun between => between.size = heap.size) folded rfl
          fun _ _ _ _ same first => (inductionHypothesis first).trans same

theorem size_mergeWithin {depth : Nat} {merging : List (Cell × Cell)} {heap merged : Heap}
    {destination : Cell} {entries : List (String × Value)}
    (folded : mergeWithin depth merging destination entries heap = some merged) :
    merged.size = heap.size :=
  mergeWithin_induction (motive := fun between => between.size = heap.size) folded rfl
    fun _ _ _ _ same first => (size_storeWithin first).trans same

/-! ## Assignment -/

/-- Stores a value under a key. No pair of cells is merged inside itself, so one level more than
there are pairs is never used up. -/
def store (heap : Heap) (cell : Cell) (key : String) (value : Value) : Heap :=
  (heap.storeWithin (heap.size * heap.size + 1) [] cell key value).getD heap

/-- The struct under a key of a table, created empty if there is none. -/
def enter (heap : Heap) (cell : Cell) (key : String) : Cell × Heap :=
  match heap.get? cell key with
  | some (.struct inner) => (inner, heap)
  | _ =>
      let (fresh, heap) := heap.alloc []
      (fresh, heap.insert cell key (.struct fresh))

/-- Stores a value at the end of a chain of keys, the nearest one first. -/
def storeAt (heap : Heap) (cell : Cell) : List String → Value → Heap
  | [], _ => heap
  | [key], value => heap.store cell key value
  | key :: rest, value =>
      let (inner, heap) := heap.enter cell key
      heap.storeAt inner rest value

/-- Assigns a value to a target below a scope. -/
def assign (heap : Heap) (scope : Cell) (target : Target) (value : Value) : Heap :=
  let (root, heap) := heap.enter scope target.root
  heap.storeAt root target.keys.reverse value

/-! ## Single steps of an assignment -/

theorem size_store (heap : Heap) (cell : Cell) (key : String) (value : Value) :
    (heap.store cell key value).size = heap.size := by
  rw [store]
  cases stored : heap.storeWithin (heap.size * heap.size + 1) [] cell key value with
  | none => rfl
  | some merged => exact size_storeWithin stored

/-- A value that is no struct is stored by replacing what was there. -/
theorem store_of_cell?_eq_none (heap : Heap) (cell : Cell) (key : String) {value : Value}
    (noStruct : value.cell? = none) :
    heap.store cell key value = heap.insert cell key value := by
  rw [store, storeWithin_of_replaces _ _ (Or.inl noStruct)]
  rfl

theorem enter_of_struct {heap : Heap} {cell inner : Cell} {key : String}
    (found : heap.get? cell key = some (.struct inner)) :
    heap.enter cell key = (inner, heap) := by
  simp only [enter, found]

theorem enter_of_not_struct {heap : Heap} {cell : Cell} {key : String}
    (missing : ∀ inner, heap.get? cell key ≠ some (.struct inner)) :
    heap.enter cell key =
      (heap.size, (heap.alloc []).2.insert cell key (.struct heap.size)) := by
  unfold enter
  split
  · rename_i inner found
    exact absurd found (missing inner)
  · rfl

theorem storeAt_cons (heap : Heap) (cell : Cell) (key : String) {rest : List String}
    (value : Value) (more : rest ≠ []) :
    heap.storeAt cell (key :: rest) value =
      (heap.enter cell key).2.storeAt (heap.enter cell key).1 rest value := by
  cases rest with
  | nil => exact absurd rfl more
  | cons next others => rfl

/-- An assignment stores at the end of the chain of keys that its root begins. -/
theorem assign_eq_storeAt (heap : Heap) (scope : Cell) (root : String) {keys : List String}
    (value : Value) (below : keys ≠ []) :
    heap.assign scope ⟨root, keys.reverse⟩ value = heap.storeAt scope (root :: keys) value := by
  rw [storeAt_cons heap scope root value below, assign, List.reverse_reverse]

end Heap

end Tabula
