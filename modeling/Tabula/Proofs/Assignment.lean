import Mathlib.Data.List.Nodup
import Mathlib.Logic.Relation
import Tabula.Evaluation
import Tabula.Proofs.Reachability

/-!
# What a nested assignment writes, and what is read back

An assignment walks along edges: a cell together with the key that is looked up in it. If every edge
but the last holds a struct, the last edge receives the value; otherwise the first edge without a
struct receives a new chain of structs that ends in the value. No other old cell is written.

Reading the target afterwards gives the value back, unless the last edge is one that the walk had
taken before: then the value stands where the walk needs a struct, and reading gives void. This
takes a cycle in the heap.
-/

namespace Tabula

namespace Heap

/-- The edges that an assignment to a chain of keys takes from a cell on. Structs that are missing
are created on the way, so edges of new cells are among them. -/
def walk (heap : Heap) (cell : Cell) : List String → List (Cell × String)
  | [] => []
  | key :: rest => (cell, key) :: (heap.enter cell key).2.walk (heap.enter cell key).1 rest

/-- There is a struct under the key of an edge. -/
def HoldsStruct (heap : Heap) (edge : Cell × String) : Prop :=
  ∃ inner, heap.get? edge.1 edge.2 = some (.struct inner)

/-- From a cell on, structs with a single entry each follow one another and end in a value. -/
def HasChain (heap : Heap) (cell : Cell) : List String → Value → Prop
  | [], _ => False
  | [key], value => heap.read cell = [(key, value)]
  | key :: rest, value =>
      heap.read cell = [(key, .struct (cell + 1))] ∧ heap.HasChain (cell + 1) rest value

/-- What reading one field after another gives. -/
def follow (heap : Heap) (value : Value) (keys : List String) : Value :=
  keys.foldl heap.field value

/-- The second cell is a struct in a field of the first. -/
def Child (heap : Heap) (cell inner : Cell) : Prop :=
  .struct inner ∈ (heap.read cell).values

/-- No cell is reached from itself through fields. -/
def Acyclic (heap : Heap) : Prop := ∀ cell, ¬ Relation.TransGen heap.Child cell cell

end Heap

/-- Whether the last edge of a walk was taken before. -/
def revisits (edges : List (Cell × String)) : Bool :=
  edges.getLast?.any edges.dropLast.contains

/-- The node that reads a chain of fields below a name. -/
def Node.fieldChain (root : String) (keys : List String) : Node :=
  keys.foldl
    (fun target key => .expression (.operator Operator.field.symbol) target (.atom key))
    (.atom root)

namespace Heap

variable {heap : Heap} {cell : Cell} {key : String} {value : Value}

/-! ## Creating a struct on the way -/

/-- The heap after a struct that was missing is created under a key. -/
def opened (heap : Heap) (cell : Cell) (key : String) : Heap :=
  (heap.alloc []).2.insert cell key (.struct heap.size)

theorem size_opened (heap : Heap) (cell : Cell) (key : String) :
    (heap.opened cell key).size = heap.size + 1 := by
  rw [opened, size_insert, size_alloc]

theorem read_opened_of_ne (heap : Heap) (key : String) {other : Cell}
    (old : other < heap.size) (different : other ≠ cell) :
    (heap.opened cell key).read other = heap.read other := by
  rw [opened, read_insert_of_ne _ _ _ (Ne.symm different),
    read_alloc_of_ne _ _ (Nat.ne_of_lt old)]

theorem read_opened_self (heap : Heap) (key : String) (allocated : cell < heap.size) :
    (heap.opened cell key).read cell = (heap.read cell).insert key (.struct heap.size) := by
  have stillAllocated : cell < (heap.alloc []).2.size := by
    rw [size_alloc]
    exact Nat.lt_succ_of_lt allocated
  rw [opened, read_insert_self _ _ _ stillAllocated,
    read_alloc_of_ne _ _ (Nat.ne_of_lt allocated)]

theorem read_opened_size (heap : Heap) (key : String) (allocated : cell < heap.size) :
    (heap.opened cell key).read heap.size = [] := by
  rw [opened, read_insert_of_ne _ _ _ (Nat.ne_of_lt allocated), read_alloc_self]

/-- A struct that was held is still held. -/
theorem get?_opened_of_struct {other inner : Cell} {name : String}
    (missing : ¬ heap.HoldsStruct (cell, key))
    (found : heap.get? other name = some (.struct inner)) :
    (heap.opened cell key).get? other name = some (.struct inner) := by
  have different : (cell, key) ≠ (other, name) := by
    intro same
    cases same
    exact missing ⟨inner, found⟩
  have old : other < heap.size := lt_size_of_get? found
  rw [opened, get?_insert_of_ne _ _ different, get?,
    read_alloc_of_ne _ _ (Nat.ne_of_lt old)]
  exact found

theorem Closed.opened (closed : heap.Closed) : (heap.opened cell key).Closed := by
  have empty : (heap.alloc []).2.Closed :=
    closed.alloc fun _ member => absurd member List.not_mem_nil
  have fresh : heap.size < (heap.alloc []).2.size := by
    rw [size_alloc]
    exact Nat.lt_succ_self _
  exact empty.insert key fresh

theorem enter_of_not_holdsStruct (missing : ¬ heap.HoldsStruct (cell, key)) :
    heap.enter cell key = (heap.size, heap.opened cell key) :=
  enter_of_not_struct fun inner found => missing ⟨inner, found⟩

/-! ## What is written -/

/-- A table gets one entry, and all other tables stay. -/
structure WritesOne (before after : Heap) (cell : Cell) (key : String) (written : Value) :
    Prop where
  here : after.read cell = (before.read cell).insert key written
  frame : ∀ other < before.size, other ≠ cell → after.read other = before.read other

/-- Below a new struct a chain of new structs is built. -/
theorem hasChain_storeAt {keys : List String} (noStruct : value.cell? = none)
    (below : keys ≠ []) (newest : cell + 1 = heap.size) (empty : heap.read cell = []) :
    (heap.storeAt cell keys value).HasChain cell keys value ∧
      ∀ other < cell, (heap.storeAt cell keys value).read other = heap.read other := by
  induction keys generalizing heap cell with
  | nil => exact absurd rfl below
  | cons key rest inductionHypothesis =>
      have allocated : cell < heap.size := newest ▸ Nat.lt_succ_self cell
      cases rest with
      | nil =>
          have stored : heap.storeAt cell [key] value = heap.insert cell key value :=
            heap.store_of_cell?_eq_none cell key noStruct
          rw [stored]
          constructor
          · rw [HasChain, read_insert_self _ _ _ allocated, empty]
            rfl
          · intro other before
            exact read_insert_of_ne _ _ _ (Nat.ne_of_gt before)
      | cons next others =>
          have missing : ¬ heap.HoldsStruct (cell, key) := by
            rintro ⟨inner, found⟩
            rw [get?, empty] at found
            cases found
          rw [storeAt_cons _ _ _ _ (List.cons_ne_nil next others),
            enter_of_not_holdsStruct missing, ← newest]
          have emptyNext : (heap.opened cell key).read (cell + 1) = [] := by
            rw [newest]
            exact read_opened_size heap key allocated
          have newestNext : cell + 1 + 1 = (heap.opened cell key).size := by
            rw [size_opened, newest]
          obtain ⟨chain, frame⟩ :=
            inductionHypothesis (List.cons_ne_nil next others) newestNext emptyNext
          refine ⟨⟨?_, chain⟩, ?_⟩
          · rw [frame cell (Nat.lt_succ_self cell), read_opened_self heap key allocated, empty,
              ← newest]
            rfl
          · intro other before
            rw [frame other (Nat.lt_succ_of_lt before)]
            exact read_opened_of_ne heap key (Nat.lt_trans before allocated)
              (Nat.ne_of_lt before)

/-- What an assignment writes: at the first edge without a struct a new chain, or, if there is none
before the last edge, there the value. -/
theorem writesOne_storeAt {path : List String} (noStruct : value.cell? = none)
    (closed : heap.Closed) (allocated : cell < heap.size) (below : path ≠ []) :
    ∃ position at_ name written,
      (heap.walk cell path)[position]? = some (at_, name) ∧ at_ < heap.size ∧
        (∀ earlier < position, ∀ edge, (heap.walk cell path)[earlier]? = some edge →
          heap.HoldsStruct edge) ∧
        (position + 1 < path.length ∧ ¬ heap.HoldsStruct (at_, name) ∧
            written = .struct heap.size ∧
            (heap.storeAt cell path value).HasChain heap.size (path.drop (position + 1)) value ∨
          position + 1 = path.length ∧ written = value) ∧
        heap.WritesOne (heap.storeAt cell path value) at_ name written := by
  induction path generalizing cell with
  | nil => exact absurd rfl below
  | cons key rest inductionHypothesis =>
      by_cases more : rest = []
      · subst more
        have stored : heap.storeAt cell [key] value = heap.insert cell key value :=
          heap.store_of_cell?_eq_none cell key noStruct
        rw [stored]
        exact ⟨0, cell, key, value, rfl, allocated,
          fun earlier impossible => absurd impossible (Nat.not_lt_zero earlier),
          Or.inr ⟨rfl, rfl⟩, read_insert_self _ _ _ allocated,
          fun other _ different => read_insert_of_ne _ _ _ (Ne.symm different)⟩
      · have longer : 0 < rest.length := List.length_pos_of_ne_nil more
        rw [storeAt_cons heap cell key value more]
        by_cases holds : heap.HoldsStruct (cell, key)
        · obtain ⟨inner, found⟩ := holds
          have innerAllocated : inner < heap.size :=
            closed cell _ (Table.mem_values_of_get? found)
          simp only [walk, enter_of_struct found]
          obtain ⟨position, at_, name, written, isEdge, old, before, which, writes⟩ :=
            inductionHypothesis innerAllocated more
          refine ⟨position + 1, at_, name, written, ?_, old, ?_, ?_, writes⟩
          · rw [List.getElem?_cons_succ]
            exact isEdge
          · intro earlier isEarlier edge isThere
            cases earlier with
            | zero =>
                cases isThere
                exact ⟨inner, found⟩
            | succ earlier =>
                rw [List.getElem?_cons_succ] at isThere
                exact before earlier (Nat.lt_of_succ_lt_succ isEarlier) edge isThere
          · rw [List.drop_succ_cons, List.length_cons]
            exact which.imp (fun first => ⟨Nat.succ_lt_succ first.1, first.2⟩)
              (fun last => ⟨congrArg Nat.succ last.1, last.2⟩)
        · rw [enter_of_not_holdsStruct holds]
          obtain ⟨chain, frame⟩ :=
            hasChain_storeAt noStruct more (size_opened heap cell key).symm
              (read_opened_size heap key allocated)
          refine ⟨0, cell, key, .struct heap.size, rfl, allocated,
            fun earlier impossible => absurd impossible (Nat.not_lt_zero earlier),
            Or.inl ⟨Nat.succ_lt_succ longer, holds, rfl, chain⟩, ?_, ?_⟩
          · rw [frame cell allocated, read_opened_self heap key allocated]
          · intro other old different
            rw [frame other old, read_opened_of_ne heap key old different]

/-! ## What is read back -/

/-- What entering a struct gives: it is allocated and held under the key afterwards, and whatever
struct was held anywhere is held there still. -/
structure Enters (before : Heap) (cell : Cell) (key : String) (inner : Cell) (after : Heap) :
    Prop where
  closed : after.Closed
  allocated : inner < after.size
  held : after.get? cell key = some (.struct inner)
  keeps : ∀ other name struct, before.get? other name = some (.struct struct) →
    after.get? other name = some (.struct struct)

theorem enters_enter (closed : heap.Closed) (allocated : cell < heap.size) (key : String) :
    heap.Enters cell key (heap.enter cell key).1 (heap.enter cell key).2 := by
  by_cases holds : heap.HoldsStruct (cell, key)
  · obtain ⟨inner, found⟩ := holds
    rw [enter_of_struct found]
    exact ⟨closed, closed cell _ (Table.mem_values_of_get? found), found, fun _ _ _ old => old⟩
  · rw [enter_of_not_holdsStruct holds]
    refine ⟨closed.opened, ?_, ?_, fun _ _ _ old => get?_opened_of_struct holds old⟩
    · rw [size_opened]
      exact Nat.lt_succ_self _
    · rw [get?, read_opened_self heap key allocated, Table.get?_insert, if_pos rfl]

theorem getLast?_walk (heap : Heap) (cell : Cell) {path : List String} (below : path ≠ []) :
    ∃ last, (heap.walk cell path).getLast? = some last := by
  cases path with
  | nil => exact absurd rfl below
  | cons key rest => exact ⟨_, List.getLast?_eq_some_getLast (List.cons_ne_nil _ _)⟩

theorem getLast?_walk_cons {rest : List String} (more : rest ≠ []) {last : Cell × String}
    (isLast : (heap.walk cell (key :: rest)).getLast? = some last) :
    ((heap.enter cell key).2.walk (heap.enter cell key).1 rest).getLast? = some last := by
  obtain ⟨other, isOther⟩ :=
    getLast?_walk (heap.enter cell key).2 (heap.enter cell key).1 more
  rw [walk, List.getLast?_cons, isOther] at isLast
  rw [isOther]
  exact isLast

/-- The value stands at the last edge. -/
theorem get?_storeAt_last {path : List String} (noStruct : value.cell? = none)
    (closed : heap.Closed) (allocated : cell < heap.size) (below : path ≠ [])
    {last : Cell × String} (isLast : (heap.walk cell path).getLast? = some last) :
    (heap.storeAt cell path value).get? last.1 last.2 = some value := by
  induction path generalizing heap cell with
  | nil => exact absurd rfl below
  | cons key rest inductionHypothesis =>
      by_cases more : rest = []
      · subst more
        cases isLast
        have stored : heap.storeAt cell [key] value = heap.insert cell key value :=
          heap.store_of_cell?_eq_none cell key noStruct
        rw [stored]
        exact get?_insert_self heap key value allocated
      · have enters := enters_enter closed allocated key
        rw [storeAt_cons heap cell key value more]
        exact inductionHypothesis enters.closed enters.allocated more
          (getLast?_walk_cons more isLast)

/-- At any other edge a struct that was held is held still. -/
theorem get?_storeAt_of_struct {path : List String} (noStruct : value.cell? = none)
    (closed : heap.Closed) (allocated : cell < heap.size) (below : path ≠ [])
    {last : Cell × String} (isLast : (heap.walk cell path).getLast? = some last)
    {other inner : Cell} {name : String}
    (found : heap.get? other name = some (.struct inner)) (different : last ≠ (other, name)) :
    (heap.storeAt cell path value).get? other name = some (.struct inner) := by
  induction path generalizing heap cell with
  | nil => exact absurd rfl below
  | cons key rest inductionHypothesis =>
      by_cases more : rest = []
      · subst more
        cases isLast
        have stored : heap.storeAt cell [key] value = heap.insert cell key value :=
          heap.store_of_cell?_eq_none cell key noStruct
        rw [stored, get?_insert_of_ne heap value different]
        exact found
      · have enters := enters_enter closed allocated key
        rw [storeAt_cons heap cell key value more]
        exact inductionHypothesis enters.closed enters.allocated more
          (getLast?_walk_cons more isLast) (enters.keeps other name inner found)

theorem follow_of_cell?_eq_none (heap : Heap) {keys : List String}
    (noStruct : value.cell? = none) (below : keys ≠ []) : heap.follow value keys = .void := by
  have voidField : ∀ (value : Value) (key : String), value.cell? = none →
      heap.field value key = .void := by
    intro value key noStruct
    cases value <;> first | rfl | exact nomatch noStruct
  have voidStays : ∀ keys : List String, heap.follow .void keys = .void := by
    intro keys
    induction keys with
    | nil => rfl
    | cons key rest inductionHypothesis => exact inductionHypothesis
  cases keys with
  | nil => exact absurd rfl below
  | cons key rest =>
      rw [follow, List.foldl_cons, voidField value key noStruct]
      exact voidStays rest

theorem revisits_cons {edges : List (Cell × String)} {last : Cell × String}
    (edge : Cell × String) (isLast : edges.getLast? = some last) :
    revisits (edge :: edges) = (last == edge || revisits edges) := by
  have nonempty : edges ≠ [] := by
    rintro rfl
    exact nomatch isLast
  rw [revisits, revisits, List.getLast?_cons, isLast,
    List.dropLast_cons_of_ne_nil nonempty]
  exact List.contains_cons

/-- Reading along the path of an assignment gives the value, or void if the last edge of the walk
was taken before. -/
theorem follow_storeAt {path : List String} (noStruct : value.cell? = none)
    (closed : heap.Closed) (allocated : cell < heap.size) (below : path ≠ []) :
    (heap.storeAt cell path value).follow (.struct cell) path =
      if revisits (heap.walk cell path) then .void else value := by
  induction path generalizing heap cell with
  | nil => exact absurd rfl below
  | cons key rest inductionHypothesis =>
      by_cases more : rest = []
      · subst more
        have written : (heap.storeAt cell [key] value).get? cell key = some value :=
          get?_storeAt_last noStruct closed allocated below rfl
        simp only [follow, List.foldl_cons, List.foldl_nil, field, written]
        rfl
      · obtain ⟨last, isLast⟩ := getLast?_walk heap cell below
        have written := get?_storeAt_last noStruct closed allocated below isLast
        have enters := enters_enter closed allocated key
        have isLastBelow := getLast?_walk_cons more isLast
        have readBelow := inductionHypothesis enters.closed enters.allocated more
        rw [walk, revisits_cons (cell, key) isLastBelow]
        rw [storeAt_cons heap cell key value more] at written ⊢
        by_cases returned : last = (cell, key)
        · -- the value replaced the struct that the walk took first
          subst returned
          simp only [follow, List.foldl_cons, field, written, Option.getD_some, beq_self_eq_true,
            Bool.true_or, if_true]
          exact follow_of_cell?_eq_none _ noStruct more
        · have held :=
            get?_storeAt_of_struct noStruct enters.closed enters.allocated more isLastBelow
              enters.held returned
          have notReturned : (last == (cell, key)) = false := beq_eq_false_iff_ne.mpr returned
          simp only [follow, List.foldl_cons, field, held, Option.getD_some, notReturned,
            Bool.false_or]
          exact readBelow

/-! ## Heaps without cycles -/

theorem eq_of_reaches_of_empty {inner : Cell} (empty : heap.read cell = [])
    (reaches : Relation.ReflTransGen heap.Child cell inner) : inner = cell := by
  rcases reaches.cases_head with same | ⟨next, child, _⟩
  · exact same.symm
  · rw [Child, empty] at child
    exact absurd child List.not_mem_nil

/-- The cells of a walk are reached from its first one, or are new. -/
theorem reaches_of_mem_walk {path : List String} {edge : Cell × String}
    (closed : heap.Closed) (allocated : cell < heap.size)
    (member : edge ∈ heap.walk cell path) :
    Relation.ReflTransGen heap.Child cell edge.1 ∨ heap.size ≤ edge.1 := by
  induction path generalizing heap cell with
  | nil => exact absurd member List.not_mem_nil
  | cons key rest inductionHypothesis =>
      rcases List.mem_cons.mp member with rfl | later
      · exact Or.inl .refl
      · have enters := enters_enter closed allocated key
        have reaches := inductionHypothesis enters.closed enters.allocated later
        by_cases holds : heap.HoldsStruct (cell, key)
        · obtain ⟨inner, found⟩ := holds
          rw [enter_of_struct found] at reaches
          exact reaches.imp_left (.head (Table.mem_values_of_get? found))
        · rw [enter_of_not_holdsStruct holds, size_opened] at reaches
          rcases reaches with fromNew | newer
          · have isNew := eq_of_reaches_of_empty (read_opened_size heap key allocated) fromNew
            exact Or.inr (Nat.le_of_eq isNew.symm)
          · exact Or.inr (Nat.le_of_succ_le newer)

/-- Without cycles no cell is walked through twice. In what the walk creates there are none. -/
theorem nodup_walk (path : List String) (closed : heap.Closed) (allocated : cell < heap.size)
    (noCycle : heap.Acyclic ∨ heap.read cell = []) :
    ((heap.walk cell path).map Prod.fst).Nodup := by
  induction path generalizing heap cell with
  | nil => exact List.nodup_nil
  | cons key rest inductionHypothesis =>
      have enters := enters_enter closed allocated key
      rw [walk, List.map_cons, List.nodup_cons]
      by_cases holds : heap.HoldsStruct (cell, key)
      · obtain ⟨inner, found⟩ := holds
        have child : heap.Child cell inner := Table.mem_values_of_get? found
        have acyclic : heap.Acyclic := by
          refine noCycle.resolve_right fun empty => ?_
          rw [Child, empty] at child
          exact absurd child List.not_mem_nil
        rw [enter_of_struct found] at enters ⊢
        refine ⟨?_, inductionHypothesis closed enters.allocated (Or.inl acyclic)⟩
        intro again
        obtain ⟨edge, member, same⟩ := List.mem_map.mp again
        rcases reaches_of_mem_walk closed enters.allocated member with reaches | new
        · rw [same] at reaches
          exact acyclic cell (Relation.TransGen.head' child reaches)
        · rw [same] at new
          exact Nat.not_lt_of_le new allocated
      · rw [enter_of_not_holdsStruct holds] at enters ⊢
        have empty := read_opened_size heap key allocated
        refine ⟨?_, inductionHypothesis enters.closed enters.allocated (Or.inr empty)⟩
        intro again
        obtain ⟨edge, member, same⟩ := List.mem_map.mp again
        rcases reaches_of_mem_walk enters.closed enters.allocated member with reaches | new
        · rw [same] at reaches
          exact Nat.ne_of_lt allocated (eq_of_reaches_of_empty empty reaches)
        · rw [same, size_opened] at new
          exact Nat.not_lt_of_le (Nat.le_of_succ_le new) allocated

theorem not_revisits_of_nodup {edges : List (Cell × String)}
    (distinct : (edges.map Prod.fst).Nodup) : revisits edges = false := by
  rw [revisits]
  cases isLast : edges.getLast? with
  | none => rfl
  | some last =>
      have split := List.dropLast_append_getLast? last isLast
      have apart : (edges.dropLast ++ [last]).Nodup := split.symm ▸ distinct.of_map _
      have fresh : last ∉ edges.dropLast := fun member =>
        (List.nodup_append.mp apart).2.2 last member last List.mem_cons_self rfl
      simpa using fresh

end Heap

/-! ## Reading the target as a program does -/

namespace Interpreter

variable (interpreter : Interpreter) {scope : Cell} {state : State}

/-- Reading fields below a node whose value is known. -/
private theorem evaluate_fields (depth : Nat) {node : Node} {value : Value}
    (known : ∀ deeper, depth < deeper →
      (interpreter.evaluate deeper scope node).from? state = some (.ok value, state))
    (keys : List String) {deeper : Nat} (enough : depth + keys.length < deeper) :
    (interpreter.evaluate deeper scope (keys.foldl
        (fun target key =>
          .expression (.operator Operator.field.symbol) target (.atom key)) node)).from? state =
      some (.ok (state.heap.follow value keys), state) := by
  induction keys generalizing depth node value with
  | nil => exact known deeper enough
  | cons key rest inductionHypothesis =>
      rw [List.foldl_cons, Heap.follow, List.foldl_cons]
      refine inductionHypothesis (depth + 1) ?_ ?_
      · intro level above
        obtain ⟨below, rfl⟩ : ∃ below, level = below + 1 :=
          ⟨level - 1, by omega⟩
        rw [evaluate_operator, Run.from?_tagged]
        have target := known below (by omega)
        simp only [apply, Rule.field, Run.from?_bind, target]
        rfl
      · rw [List.length_cons] at enough
        omega

theorem evaluate_fieldChain (root : String) (keys : List String) {depth : Nat}
    (enough : keys.length < depth) :
    (interpreter.evaluate depth scope (Node.fieldChain root keys)).from? state =
      some (.ok (state.heap.follow ((state.heap.get? scope root).getD (.string root)) keys),
        state) := by
  refine interpreter.evaluate_fields 0 ?_ keys (by omega)
  intro deeper above
  obtain ⟨below, rfl⟩ : ∃ below, deeper = below + 1 := ⟨deeper - 1, by omega⟩
  rfl

end Interpreter

/-- Assigning a value that is no struct below a name writes one entry of one old cell: at the first
edge without a struct a new chain of structs that ends in the value, or, if all edges but the last
hold structs, the value at the last edge. Reading the target then gives the value, unless the last
edge was taken before, and then void; on a heap without cycles it always gives the value. -/
theorem nested_assignment_effect (interpreter : Interpreter) {heap : Heap} {scope : Cell}
    (root : String) {keys : List String} {value : Value} (closed : heap.Closed)
    (allocated : scope < heap.size) (below : keys ≠ []) (noStruct : value.cell? = none) :
    (∃ position cell key written,
      (heap.walk scope (root :: keys))[position]? = some (cell, key) ∧ cell < heap.size ∧
        (∀ earlier < position, ∀ edge,
          (heap.walk scope (root :: keys))[earlier]? = some edge → heap.HoldsStruct edge) ∧
        (position < keys.length ∧ ¬ heap.HoldsStruct (cell, key) ∧
            written = .struct heap.size ∧
            (heap.assign scope ⟨root, keys.reverse⟩ value).HasChain heap.size
              (keys.drop position) value ∨
          position = keys.length ∧ written = value) ∧
        heap.WritesOne (heap.assign scope ⟨root, keys.reverse⟩ value) cell key written) ∧
      ∀ (state : State) (depth : Nat),
        state.heap = heap.assign scope ⟨root, keys.reverse⟩ value → keys.length < depth →
          (interpreter.evaluate depth scope (Node.fieldChain root keys)).from? state =
              some (.ok (if revisits (heap.walk scope (root :: keys)) then .void else value),
                state) ∧
            (heap.Acyclic →
              (interpreter.evaluate depth scope (Node.fieldChain root keys)).from? state =
                some (.ok value, state)) := by
  have path : root :: keys ≠ [] := List.cons_ne_nil root keys
  rw [heap.assign_eq_storeAt scope root value below]
  constructor
  · obtain ⟨position, cell, key, written, isEdge, old, before, which, writes⟩ :=
      Heap.writesOne_storeAt noStruct closed allocated path
    refine ⟨position, cell, key, written, isEdge, old, before, ?_, writes⟩
    exact which.imp
      (fun first => ⟨Nat.lt_of_succ_lt_succ first.1, first.2.1, first.2.2.1, first.2.2.2⟩)
      (fun last => ⟨Nat.succ.inj last.1, last.2⟩)
  · intro state depth assigned enough
    have fromScope :
        state.heap.follow ((state.heap.get? scope root).getD (.string root)) keys =
          state.heap.follow (.struct scope) (root :: keys) := by
      cases found : state.heap.get? scope root with
      | none =>
          simp only [Heap.follow, List.foldl_cons, Heap.field, found, Option.getD_none]
          exact (Heap.follow_of_cell?_eq_none _ rfl below).trans
            (Heap.follow_of_cell?_eq_none _ rfl below).symm
      | some there =>
          simp only [Heap.follow, List.foldl_cons, Heap.field, found, Option.getD_some]
    have readBack :
        (interpreter.evaluate depth scope (Node.fieldChain root keys)).from? state =
          some (.ok (if revisits (heap.walk scope (root :: keys)) then .void else value),
            state) := by
      rw [interpreter.evaluate_fieldChain root keys enough, fromScope, assigned,
        Heap.follow_storeAt noStruct closed allocated path]
    refine ⟨readBack, fun acyclic => ?_⟩
    have onlyOnce := Heap.not_revisits_of_nodup
      (Heap.nodup_walk (root :: keys) closed allocated (Or.inl acyclic))
    rw [readBack, onlyOnce]
    rfl

/-- A struct that is its own field. -/
private def selfLoop : Heap := ⟨#[[("x", .struct 1)], [("a", .struct 1)]]⟩

theorem assignment_through_own_field_reads_void :
    revisits (selfLoop.walk 0 ["x", "a", "a"]) = true ∧
      (selfLoop.assign 0 ⟨"x", ["a", "a"]⟩ (.bool true)).read 1 = [("a", .bool true)] ∧
      (({} : Interpreter).evaluate 3 0 (Node.fieldChain "x" ["a", "a"])).from?
          { heap := selfLoop.assign 0 ⟨"x", ["a", "a"]⟩ (.bool true) } =
        some (.ok .void, { heap := selfLoop.assign 0 ⟨"x", ["a", "a"]⟩ (.bool true) }) := by
  have closed : selfLoop.Closed := by
    intro cell value member
    match cell, member with
    | 0, member =>
        rw [List.mem_singleton.mp member]
        exact Nat.one_lt_two
    | 1, member =>
        rw [List.mem_singleton.mp member]
        exact Nat.one_lt_two
    | beyond + 2, member =>
        exact absurd (Heap.lt_size_of_mem_read member)
          (Nat.not_lt_of_le (Nat.le_add_left 2 beyond))
  have effect :=
    nested_assignment_effect {} "x" closed (by decide : 0 < selfLoop.size)
      (List.cons_ne_nil "a" ["a"]) (rfl : (Value.bool true).cell? = none)
  exact ⟨rfl, rfl, (effect.2 { heap := selfLoop.assign 0 ⟨"x", ["a", "a"]⟩ (.bool true) } 3 rfl
    (by decide)).1⟩

end Tabula
