import Tabula.Proofs.Merging.Calls
import Tabula.Proofs.Merging.Tree

/-!
# What a merge computes

Storing a struct over another one walks both at once, writes into the one and puts parts of the
other there as they are. If the destination is a tree that shares nothing with the source, then the
two come out as a reference says that looks at the old heap only: every cell of the destination that
the two reach by a common path holds its own entries, overlaid with those entries of the source that
are not merged further down, and all other cells stay. The source may share cells or lead back to
itself; only what it has in common with the finite destination is ever walked.
-/

namespace Tabula

open Relation (ReflTransGen)

namespace Heap

variable {heap : Heap}

/-! ## The reference -/

/-- Whether an entry is a struct and meets a struct under its key. -/
def mergesAt (heap : Heap) (cell : Cell) (entry : String × Value) : Bool :=
  ((heap.get? cell entry.1).bind Value.cell?).isSome && entry.2.cell?.isSome

/-- The table of a struct overlaid with the entries of another that are not merged further down. -/
def mergedTable (heap : Heap) (destination source : Cell) : Table Value :=
  (heap.read destination).overlay
    ((heap.read source).filter fun entry => !heap.mergesAt destination entry)

/-- What reading a path below two merged structs gives, looked up in the heap before the merge. -/
def mergedRead (heap : Heap) (destination source : Cell) : List String → Value
  | [] => .struct destination
  | key :: rest =>
      match heap.get? source key, heap.get? destination key with
      | none, old => heap.follow (old.getD .void) rest
      | some (.struct incoming), some (.struct inner) => heap.mergedRead inner incoming rest
      | some value, _ => heap.follow value rest

/-- The two cells are reached from two structs by a common path. -/
def Meets (heap : Heap) (destination source inner incoming : Cell) : Prop :=
  ∃ path, heap.follow (.struct destination) path = .struct inner ∧
    heap.follow (.struct source) path = .struct incoming

variable {cell destination source inner incoming : Cell} {key : String} {value : Value}
  {entry : String × Value}

theorem mergesAt_eq_true_iff : heap.mergesAt cell entry = true ↔
    ∃ inner incoming, heap.get? cell entry.1 = some (.struct inner) ∧
      entry.2 = .struct incoming := by
  have isStruct : ∀ value : Value, value.cell?.isSome = true ↔ ∃ cell, value = .struct cell := by
    intro value
    cases value <;> simp [Value.cell?]
  rw [mergesAt, Bool.and_eq_true, isStruct]
  cases heap.get? cell entry.1 with
  | none => simp
  | some held => simp [isStruct]

theorem mergesAt_of_structs (found : heap.get? cell key = some (.struct inner)) :
    heap.mergesAt cell (key, .struct incoming) = true :=
  mergesAt_eq_true_iff.mpr ⟨inner, incoming, found, rfl⟩

/-! ## The table that two merged structs share -/

theorem get?_mergedTable (distinct : heap.Distinct) (key : String) :
    (heap.mergedTable destination source).get? key =
      ((heap.get? source key).filter fun value => !heap.mergesAt destination (key, value)).or
        (heap.get? destination key) := by
  rw [mergedTable, Table.get?_overlay ((distinct source).filter _),
    Table.get?_filter (distinct source)]
  rfl

theorem get?_mergedTable_of_structs (distinct : heap.Distinct)
    (found : heap.get? destination key = some (.struct inner))
    (foundSource : heap.get? source key = some (.struct incoming)) :
    (heap.mergedTable destination source).get? key = some (.struct inner) := by
  rw [get?_mergedTable distinct, foundSource, Option.filter_some, mergesAt_of_structs found, found]
  rfl

theorem get?_mergedTable_of_source (distinct : heap.Distinct)
    (foundSource : heap.get? source key = some value)
    (replaces : heap.mergesAt destination (key, value) = false) :
    (heap.mergedTable destination source).get? key = some value := by
  rw [get?_mergedTable distinct, foundSource, Option.filter_some, replaces]
  rfl

theorem get?_mergedTable_of_absent (distinct : heap.Distinct)
    (absent : heap.get? source key = none) :
    (heap.mergedTable destination source).get? key = heap.get? destination key := by
  rw [get?_mergedTable distinct, absent]
  rfl

/-- The old keys come first, then the new ones in the order of the source. -/
theorem keys_mergedTable (distinct : heap.Distinct) (destination source : Cell) :
    (heap.mergedTable destination source).keys =
      (heap.read destination).keys ++
        (heap.read source).keys.filter fun key => key ∉ (heap.read destination).keys := by
  have newKept : ∀ entry ∈ heap.read source,
      (decide (entry.1 ∉ (heap.read destination).keys) && !heap.mergesAt destination entry) =
        decide (entry.1 ∉ (heap.read destination).keys) := by
    intro entry _
    by_cases present : entry.1 ∈ (heap.read destination).keys
    · simp [present]
    · have absent : heap.get? destination entry.1 = none := Table.get?_eq_none_iff.mpr present
      simp [mergesAt, absent]
  rw [mergedTable, Table.keys_overlay ((distinct source).filter _)]
  simp only [Table.keys, List.filter_map, List.filter_filter, Function.comp_def]
  exact congrArg _ (congrArg _ (List.filter_congr newKept))

/-! ## Pairs of cells that meet -/

theorem Meets.refl (heap : Heap) (destination source : Cell) :
    heap.Meets destination source destination source :=
  ⟨[], rfl, rfl⟩

variable {next nextSource : Cell}

theorem Meets.below (found : heap.get? destination key = some (.struct next))
    (foundSource : heap.get? source key = some (.struct nextSource))
    (meets : heap.Meets next nextSource inner incoming) :
    heap.Meets destination source inner incoming := by
  obtain ⟨path, leads, leadsSource⟩ := meets
  exact ⟨key :: path, (follow_cons_of_get? found path).trans leads,
    (follow_cons_of_get? foundSource path).trans leadsSource⟩

theorem Meets.cases_head (meets : heap.Meets destination source inner incoming) :
    (inner = destination ∧ incoming = source) ∨
      ∃ key next nextSource, heap.get? destination key = some (.struct next) ∧
        heap.get? source key = some (.struct nextSource) ∧
        heap.Meets next nextSource inner incoming := by
  obtain ⟨path, leads, leadsSource⟩ := meets
  cases path with
  | nil =>
      cases leads
      cases leadsSource
      exact Or.inl ⟨rfl, rfl⟩
  | cons key rest =>
      obtain ⟨next, found, leadsOn⟩ := get?_of_follow_cons leads
      obtain ⟨nextSource, foundSource, leadsOnSource⟩ := get?_of_follow_cons leadsSource
      exact Or.inr ⟨key, next, nextSource, found, foundSource, rest, leadsOn, leadsOnSource⟩

theorem Meets.part (found : heap.get? destination key = some (.struct next))
    (meets : heap.Meets next nextSource inner incoming) : heap.Part destination key inner := by
  obtain ⟨path, leads, _⟩ := meets
  exact ⟨path, (follow_cons_of_get? found path).trans leads⟩

theorem Meets.part_below {name : String} (found : heap.get? destination key = some (.struct next))
    (meets : heap.Meets next nextSource inner incoming) (part : heap.Part inner name cell) :
    heap.Part destination key cell := by
  obtain ⟨path, leads, _⟩ := meets
  obtain ⟨rest, leadsOn⟩ := part
  refine ⟨path ++ name :: rest, ?_⟩
  rw [follow_cons_of_get? found, follow_append, leads]
  exact leadsOn

/-- The destination is a tree and shares nothing with the source. -/
structure Apart (heap : Heap) (destination source : Cell) : Prop where
  unique : heap.UniquePaths destination
  disjoint : ∀ inner, ReflTransGen heap.Child destination inner →
    ¬ ReflTransGen heap.Child source inner

theorem Apart.below (apart : heap.Apart destination source)
    (found : heap.get? destination key = some (.struct next))
    (foundSource : heap.get? source key = some (.struct nextSource)) :
    heap.Apart next nextSource where
  unique := apart.unique.below found
  disjoint inner reached reachedSource :=
    apart.disjoint inner (.head (Table.mem_values_of_get? found) reached)
      (.head (Table.mem_values_of_get? foundSource) reachedSource)

/-! ## What has been merged -/

/-- Two cells that met have been merged, and what only the destination has is still there. -/
structure MergedAt (base after : Heap) (inner incoming : Cell) : Prop where
  table : after.read inner = base.mergedTable inner incoming
  rest : ∀ key ∉ (base.read incoming).keys, ∀ cell, base.Part inner key cell →
    after.read cell = base.read cell

/-- All cells where two structs meet have been merged. -/
def Merged (base after : Heap) (destination source : Cell) : Prop :=
  ∀ inner incoming, base.Meets destination source inner incoming →
    base.MergedAt after inner incoming

variable {base before after : Heap}

/-- What has been merged below a key stays so if the part that the key leads to stays. -/
theorem Merged.later (merged : base.Merged before next nextSource)
    (found : base.get? destination key = some (.struct next))
    (same : ∀ cell, base.Part destination key cell → after.read cell = before.read cell) :
    base.Merged after next nextSource := by
  intro inner incoming meets
  have here := merged inner incoming meets
  refine ⟨(same inner (meets.part found)).trans here.table, fun name fresh cell part => ?_⟩
  exact (same cell (meets.part_below found part)).trans (here.rest name fresh cell part)

/-- A heap in the course of a merge: the source has not changed, and the keys lead to the same parts
of the destination as at first. -/
structure Course (base heap : Heap) (destination source : Cell) (keys : List String) : Prop where
  distinct : heap.Distinct
  allocated : ∀ inner, ReflTransGen base.Child destination inner → inner < heap.size
  sources : ∀ inner, ReflTransGen base.Child source inner → heap.read inner = base.read inner
  parts : ∀ key ∈ keys, base.SamePart heap destination key

variable {keys : List String} {merging : List (Cell × Cell)} {depth : Nat}

theorem Course.below (course : base.Course heap destination source keys) (member : key ∈ keys)
    (found : base.get? destination key = some (.struct next))
    (foundSource : base.get? source key = some (.struct nextSource)) (others : List String) :
    base.Course heap next nextSource others where
  distinct := course.distinct
  allocated inner reached := course.allocated inner (.head (Table.mem_values_of_get? found) reached)
  sources inner reached :=
    course.sources inner (.head (Table.mem_values_of_get? foundSource) reached)
  parts other _ := (course.parts key member).below found other

theorem Course.step (course : base.Course before destination source (key :: keys))
    (apart : base.Apart destination source) (fresh : key ∉ keys)
    (stored : before.storeWithin depth merging destination key value = some after) :
    base.Course after destination source keys := by
  have changes : base.ChangesOnly before after destination [key] :=
    changesOnly_storeWithin apart.unique course.distinct (course.parts key List.mem_cons_self)
      stored
  refine ⟨course.distinct.storeWithin stored, fun inner reached => ?_, fun inner reached => ?_,
    fun other member => ?_⟩
  · rw [size_storeWithin stored]
    exact course.allocated inner reached
  · have notRoot : inner ≠ destination := fun same =>
      apart.disjoint inner (same ▸ .refl) reached
    have outside : ∀ name ∈ [key], ¬ base.Part destination name inner :=
      fun _ _ part => apart.disjoint inner part.reaches reached
    exact (changes.others inner notRoot outside).trans (course.sources inner reached)
  · have different : other ∉ [key] := fun here => fresh (List.mem_singleton.mp here ▸ member)
    exact changes.samePart apart.unique different
      (course.parts other (List.mem_cons_of_mem key member))

/-- What storing one entry of a source does. -/
structure Stored (base before after : Heap) (destination : Cell) (entry : String × Value) :
    Prop where
  table : after.read destination =
    if base.mergesAt destination entry then before.read destination
    else (before.read destination).insert entry.1 entry.2
  merged : ∀ next nextSource, base.get? destination entry.1 = some (.struct next) →
    entry.2 = .struct nextSource → base.Merged after next nextSource

/-- What merging entries does, if storing each of them does what it should. -/
private theorem merged_entries {entries : List (String × Value)}
    (apart : base.Apart destination source) (distinctEntries : Table.Distinct entries)
    (step : ∀ {before after : Heap} {entry : String × Value} {keys : List String},
      entry ∈ entries → base.Course before destination source (entry.1 :: keys) →
      before.storeWithin depth merging destination entry.1 entry.2 = some after →
      base.Stored before after destination entry)
    (course : base.Course before destination source (Table.keys entries))
    (folded : mergeWithin depth merging destination entries before = some after) :
    after.read destination =
        (before.read destination).overlay
          (entries.filter fun entry => !base.mergesAt destination entry) ∧
      ∀ entry ∈ entries, ∀ next nextSource,
        base.get? destination entry.1 = some (.struct next) → entry.2 = .struct nextSource →
          base.Merged after next nextSource := by
  induction entries generalizing before with
  | nil =>
      cases folded
      exact ⟨rfl, fun _ member => absurd member List.not_mem_nil⟩
  | cons entry rest inductionHypothesis =>
      obtain ⟨fresh, distinctRest⟩ := List.nodup_cons.mp distinctEntries
      rw [mergeWithin, Option.bind_eq_some_iff] at folded
      obtain ⟨next, first, remaining⟩ := folded
      have stored : base.Stored before next destination entry :=
        step List.mem_cons_self course first
      have courseRest : base.Course next destination source (Table.keys rest) :=
        course.step apart fresh first
      obtain ⟨table, merged⟩ := inductionHypothesis distinctRest
        (fun member => step (List.mem_cons_of_mem entry member)) courseRest remaining
      constructor
      · rw [table, stored.table, List.filter_cons]
        cases base.mergesAt destination entry <;> rfl
      · refine List.forall_mem_cons.mpr ⟨fun inner incoming found isSource => ?_, merged⟩
        -- the entries that follow lead elsewhere
        have changes : base.ChangesOnly next after destination (Table.keys rest) :=
          changesOnly_mergeWithin apart.unique courseRest.distinct distinctRest courseRest.parts
            remaining
        exact (stored.merged inner incoming found isSource).later found
          fun cell part => changes.elsewhere apart.unique fresh part

/-- Merging a source into a tree merges all cells where the two meet. -/
private theorem merged_of_mergeWithin (apart : base.Apart destination source)
    (distinct : base.Distinct) (course : ∀ keys, base.Course heap destination source keys)
    (root : heap.read destination = base.read destination)
    (step : ∀ {before after : Heap} {entry : String × Value} {keys : List String},
      entry ∈ base.read source → base.Course before destination source (entry.1 :: keys) →
      before.storeWithin depth merging destination entry.1 entry.2 = some after →
      base.Stored before after destination entry)
    (folded : mergeWithin depth merging destination (base.read source) heap = some after) :
    base.Merged after destination source := by
  have atStart := course (base.read source).keys
  obtain ⟨table, merged⟩ := merged_entries apart (distinct source) step atStart folded
  have changes : base.ChangesOnly heap after destination (base.read source).keys :=
    changesOnly_mergeWithin apart.unique atStart.distinct (distinct source) atStart.parts folded
  intro inner incoming meets
  rcases meets.cases_head with ⟨rfl, rfl⟩ | ⟨key, next, nextSource, found, foundSource, deeper⟩
  · refine ⟨by rw [table, root, mergedTable], fun key fresh cell part => ?_⟩
    exact (changes.elsewhere apart.unique fresh part).trans
      (((course [key]).parts key List.mem_cons_self).part cell part)
  · exact merged (key, .struct nextSource) (Table.mem_of_get? foundSource) next nextSource found
      rfl inner incoming deeper

/-- Storing an entry of a source that is apart from a tree merges what meets there. -/
theorem stored_storeWithin (apart : base.Apart destination source) (distinct : base.Distinct)
    (member : entry ∈ base.read source)
    (course : base.Course before destination source (entry.1 :: keys))
    (guard : ∀ pair ∈ merging, ∀ key, ¬ base.Part destination key pair.1)
    (stored : before.storeWithin depth merging destination entry.1 entry.2 = some after) :
    base.Stored before after destination entry := by
  induction depth generalizing before after destination source merging entry keys with
  | zero => exact nomatch stored
  | succ depth inductionHypothesis =>
      have part : base.SamePart before destination entry.1 :=
        course.parts entry.1 List.mem_cons_self
      have foundSource : ∀ incoming, entry.2 = .struct incoming →
          base.get? source entry.1 = some (.struct incoming) :=
        fun incoming isSource => Table.get?_of_mem (distinct source) (isSource ▸ member)
      rcases storeWithin_cases stored with
        ⟨rfl, replaces⟩ | ⟨inner, incoming, found, isSource, different, step⟩
      · -- two structs that meet are different, so the entry is not merged further down
        have notBoth : ∀ inner incoming,
            base.get? destination entry.1 = some (.struct inner) →
              entry.2 ≠ .struct incoming := by
          intro inner incoming found isSource
          have same : inner = incoming := replaces inner incoming (part.entry ▸ found) isSource
          exact (apart.below found (foundSource incoming isSource)).disjoint inner .refl
            (same ▸ .refl)
        have replaced : base.mergesAt destination entry = false := by
          rw [← Bool.not_eq_true, mergesAt_eq_true_iff]
          rintro ⟨inner, incoming, found, isSource⟩
          exact notBoth inner incoming found isSource
        refine ⟨?_, fun inner incoming found isSource =>
          absurd isSource (notBoth inner incoming found)⟩
        rw [replaced, read_insert_self _ _ _ (course.allocated destination .refl)]
        rfl
      · rw [part.entry] at found
        have foundIncoming := foundSource incoming isSource
        have apartBelow : base.Apart inner incoming := apart.below found foundIncoming
        have merges : base.mergesAt destination entry = true :=
          mergesAt_eq_true_iff.mpr ⟨inner, incoming, found, isSource⟩
        rcases step with ⟨_, inside⟩ | ⟨_, folded⟩
        · exact absurd (part_of_get? found) (guard _ inside entry.1)
        · have sameIncoming : before.read incoming = base.read incoming :=
            course.sources incoming (.single (Table.mem_values_of_get? foundIncoming))
          rw [sameIncoming] at folded
          have courseBelow : ∀ others, base.Course before inner incoming others :=
            course.below List.mem_cons_self found foundIncoming
          have guardBelow : ∀ pair ∈ (inner, incoming) :: merging, ∀ key,
              ¬ base.Part inner key pair.1 := by
            refine List.forall_mem_cons.mpr ⟨fun key here => ?_, fun pair isPair key here => ?_⟩
            · exact apartBelow.unique.ne_of_part here rfl
            · exact guard pair isPair entry.1 (here.below found)
          have merged : base.Merged after inner incoming :=
            merged_of_mergeWithin apartBelow distinct courseBelow
              (part.part inner (part_of_get? found))
              (fun isEntry courseEntry first =>
                inductionHypothesis apartBelow isEntry courseEntry guardBelow first)
              folded
          have changes : base.ChangesOnly before after inner (base.read incoming).keys :=
            changesOnly_mergeWithin apartBelow.unique course.distinct (distinct incoming)
              (fun key _ => part.below found key) folded
          refine ⟨?_, fun next nextSource foundNext isNextSource => ?_⟩
          · rw [merges]
            exact (changes.above apart.unique found).1
          · rw [found] at foundNext
            rw [isSource] at isNextSource
            cases foundNext
            cases isNextSource
            exact merged

/-- Storing a struct over a tree that shares nothing with it merges all cells where they meet. -/
theorem merged_store (apart : heap.Apart destination source) (distinct : heap.Distinct)
    (closed : heap.Closed) (found : heap.get? cell key = some (.struct destination)) :
    heap.Merged (heap.store cell key (.struct source)) destination source := by
  have different : destination ≠ source := fun same => apart.disjoint source (same ▸ .refl) .refl
  obtain ⟨depth, folded⟩ := exists_mergeWithin_eq_store found different
  have allocated : ∀ inner, ReflTransGen heap.Child destination inner → inner < heap.size := by
    intro inner reached
    rcases reached.cases_tail with rfl | ⟨parent, _, child⟩
    · exact closed cell _ (Table.mem_values_of_get? found)
    · exact closed parent _ child
  have guard : ∀ pair ∈ [(destination, source)], ∀ key, ¬ heap.Part destination key pair.1 :=
    List.forall_mem_singleton.mpr fun key here => apart.unique.ne_of_part here rfl
  refine merged_of_mergeWithin apart distinct
    (fun keys => ⟨distinct, allocated, fun _ _ => rfl, fun _ _ => ⟨rfl, fun _ _ => rfl⟩⟩) rfl
    (fun isEntry course first => ?_) folded
  exact stored_storeWithin apart distinct isEntry course guard first

/-! ## Reading what has been merged -/

theorem mergedRead_of_structs (found : heap.get? destination key = some (.struct inner))
    (foundSource : heap.get? source key = some (.struct incoming)) (rest : List String) :
    heap.mergedRead destination source (key :: rest) = heap.mergedRead inner incoming rest := by
  simp only [mergedRead, found, foundSource]

theorem mergedRead_of_source (foundSource : heap.get? source key = some value)
    (replaces : heap.mergesAt destination (key, value) = false) (rest : List String) :
    heap.mergedRead destination source (key :: rest) = heap.follow value rest := by
  rw [mergedRead, foundSource]
  split
  · rename_i isSource
    exact nomatch isSource
  · rename_i isSource found
    cases isSource
    rw [mergesAt_of_structs found] at replaces
    exact nomatch replaces
  · rename_i isSource _
    cases isSource
    rfl

theorem mergedRead_of_absent (absent : heap.get? source key = none) (rest : List String) :
    heap.mergedRead destination source (key :: rest) =
      heap.follow (.struct destination) (key :: rest) := by
  rw [mergedRead, absent]
  rfl

theorem Merged.below (merged : base.Merged after destination source)
    (found : base.get? destination key = some (.struct next))
    (foundSource : base.get? source key = some (.struct nextSource)) :
    base.Merged after next nextSource :=
  fun inner incoming meets => merged inner incoming (meets.below found foundSource)

/-- Below merged structs every path reads as the reference says. -/
theorem Merged.follow_eq (merged : base.Merged after destination source)
    (distinct : base.Distinct)
    (sources : ∀ inner, ReflTransGen base.Child source inner → after.read inner = base.read inner)
    (path : List String) :
    after.follow (.struct destination) path = base.mergedRead destination source path := by
  induction path generalizing destination source with
  | nil => rfl
  | cons key rest inductionHypothesis =>
      have here : base.MergedAt after destination source :=
        merged destination source (.refl base destination source)
      cases foundSource : base.get? source key with
      | none =>
          have fresh : key ∉ (base.read source).keys := Table.get?_eq_none_iff.mp foundSource
          have held : after.get? destination key = base.get? destination key := by
            rw [get?, here.table]
            exact get?_mergedTable_of_absent distinct foundSource
          have same : ∀ path cell,
              base.follow ((base.get? destination key).getD .void) path = .struct cell →
                after.read cell = base.read cell :=
            fun path cell leads => here.rest key fresh cell ⟨path, leads⟩
          calc
            after.follow (.struct destination) (key :: rest) =
                after.follow ((base.get? destination key).getD .void) rest := by
              rw [← held]
              rfl
            _ = base.follow ((base.get? destination key).getD .void) rest :=
              follow_congr same rest
            _ = base.mergedRead destination source (key :: rest) :=
              (mergedRead_of_absent foundSource rest).symm
      | some value =>
          cases merges : base.mergesAt destination (key, value) with
          | true =>
              obtain ⟨next, nextSource, found, rfl⟩ := mergesAt_eq_true_iff.mp merges
              have held : after.get? destination key = some (.struct next) := by
                rw [get?, here.table]
                exact get?_mergedTable_of_structs distinct found foundSource
              have sourcesBelow : ∀ inner, ReflTransGen base.Child nextSource inner →
                  after.read inner = base.read inner :=
                fun inner reached =>
                  sources inner (.head (Table.mem_values_of_get? foundSource) reached)
              rw [follow_cons_of_get? held, mergedRead_of_structs found foundSource]
              exact inductionHypothesis (merged.below found foundSource) sourcesBelow
          | false =>
              have held : after.get? destination key = some value := by
                rw [get?, here.table]
                exact get?_mergedTable_of_source distinct foundSource merges
              have same : ∀ path cell, base.follow value path = .struct cell →
                  after.read cell = base.read cell :=
                fun path cell leads => sources cell
                  (reaches_of_follow ((follow_cons_of_get? foundSource path).trans leads))
              rw [follow_cons_of_get? held, mergedRead_of_source foundSource merges]
              exact follow_congr same rest

/-! ## Merging again -/

/-- An entry is already there, or the two structs that meet there are such a pair. -/
def Settled (heap : Heap) (pairs : Cell → Cell → Prop) (cell : Cell) (entry : String × Value) :
    Prop :=
  heap.get? cell entry.1 = some entry.2 ∨ ∃ inner incoming,
    heap.get? cell entry.1 = some (.struct inner) ∧ entry.2 = .struct incoming ∧
      pairs inner incoming

/-- If of all pairs of structs that meet all entries are settled, then storing a settled entry
changes nothing. -/
theorem eq_of_settled {pairs : Cell → Cell → Prop}
    (settled : ∀ inner incoming, pairs inner incoming → ∀ entry ∈ heap.read incoming,
      heap.Settled pairs inner entry)
    (here : heap.Settled pairs cell entry)
    (stored : heap.storeWithin depth merging cell entry.1 entry.2 = some after) :
    after = heap := by
  induction depth generalizing merging after cell entry with
  | zero => exact nomatch stored
  | succ depth inductionHypothesis =>
      rcases storeWithin_cases stored with
        ⟨rfl, replaces⟩ | ⟨destination, source, found, isSource, different, step⟩
      · rcases here with same | ⟨inner, incoming, found, isSource, _⟩
        · exact insert_of_get? same
        · have same : inner = incoming := replaces inner incoming found isSource
          rw [isSource, ← same]
          exact insert_of_get? found
      · rcases step with ⟨rfl, _⟩ | ⟨_, folded⟩
        · rfl
        · rcases here with same | ⟨inner, incoming, foundInner, isIncoming, meets⟩
          · rw [found, isSource] at same
            cases same
            exact absurd rfl different
          · rw [found] at foundInner
            rw [isSource] at isIncoming
            cases foundInner
            cases isIncoming
            refine mergeWithin_induction (motive := fun between => between = heap) folded rfl ?_
            rintro entry member _ after rfl first
            exact inductionHypothesis (settled destination source meets entry member) first

theorem Meets.tail (meets : heap.Meets destination source inner incoming)
    (found : heap.get? inner key = some (.struct next))
    (foundSource : heap.get? incoming key = some (.struct nextSource)) :
    heap.Meets destination source next nextSource := by
  obtain ⟨path, leads, leadsSource⟩ := meets
  refine ⟨path ++ [key], ?_, ?_⟩
  · rw [follow_append, leads]
    exact follow_cons_of_get? found []
  · rw [follow_append, leadsSource]
    exact follow_cons_of_get? foundSource []

/-- Wherever merged structs meet, every entry of the source is settled. -/
theorem Merged.settled (merged : base.Merged after destination source)
    (distinct : base.Distinct)
    (sources : ∀ inner, ReflTransGen base.Child source inner → after.read inner = base.read inner)
    (meets : base.Meets destination source inner incoming) (member : entry ∈ after.read incoming) :
    after.Settled (base.Meets destination source) inner entry := by
  have here : base.MergedAt after inner incoming := merged inner incoming meets
  have sameSource : after.read incoming = base.read incoming := by
    obtain ⟨path, _, leadsSource⟩ := meets
    exact sources incoming (reaches_of_follow leadsSource)
  rw [sameSource] at member
  have foundSource : base.get? incoming entry.1 = some entry.2 :=
    Table.get?_of_mem (distinct incoming) member
  cases merges : base.mergesAt inner entry with
  | true =>
      obtain ⟨next, nextSource, found, isSource⟩ := mergesAt_eq_true_iff.mp merges
      rw [isSource] at foundSource
      refine Or.inr ⟨next, nextSource, ?_, isSource, meets.tail found foundSource⟩
      rw [get?, here.table]
      exact get?_mergedTable_of_structs distinct found foundSource
  | false =>
      refine Or.inl ?_
      rw [get?, here.table]
      exact get?_mergedTable_of_source distinct foundSource merges

end Heap

/-- If the struct under a key is a tree that shares nothing with an incoming struct, then storing
the latter keeps the struct under the key and every cell of the incoming struct; afterwards every
path below the key reads as the reference says, and wherever the two meet the old keys come first
and the new ones follow in the order of the source. Storing the same struct again changes nothing.
-/
theorem store_over_tree_reads_as_merged {heap : Heap} {cell destination source : Cell}
    {key : String} (distinct : heap.Distinct) (closed : heap.Closed)
    (found : heap.get? cell key = some (.struct destination))
    (unique : heap.UniquePaths destination)
    (disjoint : ∀ inner, ReflTransGen heap.Child destination inner →
      ¬ ReflTransGen heap.Child source inner) :
    (heap.store cell key (.struct source)).get? cell key = some (.struct destination) ∧
      (∀ inner, ReflTransGen heap.Child source inner →
        (heap.store cell key (.struct source)).read inner = heap.read inner) ∧
      (∀ path, (heap.store cell key (.struct source)).follow (.struct destination) path =
        heap.mergedRead destination source path) ∧
      (∀ path inner incoming, heap.follow (.struct destination) path = .struct inner →
        heap.follow (.struct source) path = .struct incoming →
          ((heap.store cell key (.struct source)).read inner).keys =
            (heap.read inner).keys ++
              (heap.read incoming).keys.filter fun name => name ∉ (heap.read inner).keys) ∧
      (heap.store cell key (.struct source)).store cell key (.struct source) =
        heap.store cell key (.struct source) := by
  have apart : heap.Apart destination source := ⟨unique, disjoint⟩
  have different : destination ≠ source := fun same => disjoint source (same ▸ .refl) .refl
  obtain ⟨depth, folded⟩ := Heap.exists_mergeWithin_eq_store found different
  have changes := Heap.changesOnly_mergeWithin unique distinct (distinct source)
    (fun _ _ => ⟨rfl, fun _ _ => rfl⟩) folded
  have merged := heap.merged_store apart distinct closed found
  -- the slot lies outside the tree, for a path back to it would be a second path to the root
  have slot : (heap.store cell key (.struct source)).read cell = heap.read cell := by
    have noReturn : ∀ path, heap.follow (.struct destination) path ≠ .struct cell := by
      intro path leads
      have again : heap.follow (.struct destination) (path ++ [key]) = .struct destination := by
        rw [Heap.follow_append, leads]
        exact Heap.follow_cons_of_get? found []
      have empty : path ++ [key] = [] := unique _ [] destination again rfl
      exact absurd empty (List.append_ne_nil_of_right_ne_nil path (List.cons_ne_nil key []))
    exact changes.others cell (fun same => noReturn [] (same ▸ rfl))
      fun name _ ⟨path, leads⟩ => noReturn (name :: path) leads
  have sources : ∀ inner, ReflTransGen heap.Child source inner →
      (heap.store cell key (.struct source)).read inner = heap.read inner := by
    intro inner reached
    refine changes.others inner (fun same => disjoint inner (same ▸ .refl) reached) ?_
    exact fun name _ part => disjoint inner part.reaches reached
  have held :
      (heap.store cell key (.struct source)).get? cell key = some (.struct destination) := by
    rw [Heap.get?, slot]
    exact found
  refine ⟨held, sources, merged.follow_eq distinct sources, ?_, ?_⟩
  · intro path inner incoming leads leadsSource
    rw [(merged inner incoming ⟨path, leads, leadsSource⟩).table]
    exact Heap.keys_mergedTable distinct inner incoming
  · have stored := (heap.store cell key (.struct source)).storeWithin_eq_some_store cell key
      (.struct source) (Nat.le_refl _)
    have here : (heap.store cell key (.struct source)).Settled (heap.Meets destination source) cell
        (key, .struct source) :=
      Or.inr ⟨destination, source, held, rfl, .refl heap destination source⟩
    exact Heap.eq_of_settled
      (fun inner incoming meets entry => merged.settled distinct sources meets) here stored

/-- A struct with a struct in it, and a struct that leads back to itself in two ways. -/
private def treeAndLoop : Heap where
  tables := #[
    [("x", .struct 1)],
    [("a", .struct 2), ("b", .bool true)],
    [("c", .bool true)],
    [("again", .struct 3), ("b", .bool false), ("a", .struct 4)],
    [("n", .struct 3), ("c", .bool false)]]

private theorem uniquePaths_treeAndLoop : treeAndLoop.UniquePaths 1 := by
  have paths : ∀ path inner, treeAndLoop.follow (.struct 1) path = .struct inner →
      (path = [] ∧ inner = 1) ∨ (path = ["a"] ∧ inner = 2) := by
    intro path inner leads
    cases path with
    | nil =>
        cases leads
        exact Or.inl ⟨rfl, rfl⟩
    | cons key rest =>
        obtain ⟨next, found, leadsOn⟩ := Heap.get?_of_follow_cons leads
        have entry : (key, Value.struct next) ∈
            [("a", Value.struct 2), ("b", Value.bool true)] := Table.mem_of_get? found
        obtain ⟨rfl, rfl⟩ : key = "a" ∧ next = 2 := by simpa using entry
        cases rest with
        | nil =>
            cases leadsOn
            exact Or.inr ⟨rfl, rfl⟩
        | cons other rest =>
            obtain ⟨next, found, _⟩ := Heap.get?_of_follow_cons leadsOn
            have entry : (other, Value.struct next) ∈ [("c", Value.bool true)] :=
              Table.mem_of_get? found
            exact absurd entry (by simp)
  intro first second inner leadsFirst leadsSecond
  rcases paths first inner leadsFirst with ⟨rfl, rfl⟩ | ⟨rfl, rfl⟩ <;>
    rcases paths second _ leadsSecond with ⟨rfl, same⟩ | ⟨rfl, same⟩
  · rfl
  · exact absurd same (by decide)
  · exact absurd same (by decide)
  · rfl

private theorem disjoint_treeAndLoop (inner : Cell)
    (reached : ReflTransGen treeAndLoop.Child 1 inner) :
    ¬ ReflTransGen treeAndLoop.Child 3 inner := by
  have tree : treeAndLoop.Sealed fun cell => cell = 1 ∨ cell = 2 := by
    rintro cell (rfl | rfl) inner child
    · have held : Value.struct inner ∈ [Value.struct 2, Value.bool true] := child
      simpa using Or.inr held
    · have held : Value.struct inner ∈ [Value.bool true] := child
      exact absurd held (by simp)
  have loop : treeAndLoop.Sealed fun cell => cell = 3 ∨ cell = 4 := by
    rintro cell (rfl | rfl) inner child
    · have held : Value.struct inner ∈ [Value.struct 3, Value.bool false, Value.struct 4] := child
      simpa using held
    · have held : Value.struct inner ∈ [Value.struct 3, Value.bool false] := child
      simpa using Or.inl held
  intro reachedSource
  rcases tree.reaches (Or.inl rfl) reached with rfl | rfl
  · exact absurd (loop.reaches (Or.inl rfl) reachedSource) (by decide)
  · exact absurd (loop.reaches (Or.inl rfl) reachedSource) (by decide)

theorem loop_over_tree_reads_as_merged :
    treeAndLoop.Distinct ∧ treeAndLoop.Closed ∧
      treeAndLoop.get? 0 "x" = some (.struct 1) ∧ treeAndLoop.UniquePaths 1 ∧
      (∀ inner, ReflTransGen treeAndLoop.Child 1 inner →
        ¬ ReflTransGen treeAndLoop.Child 3 inner) ∧
      (treeAndLoop.store 0 "x" (.struct 3)).follow (.struct 1) ["a", "n", "again", "b"] =
        .bool false ∧
      ((treeAndLoop.store 0 "x" (.struct 3)).read 1).keys = ["a", "b", "again"] ∧
      (treeAndLoop.store 0 "x" (.struct 3)).read 3 = treeAndLoop.read 3 ∧
      (treeAndLoop.store 0 "x" (.struct 3)).store 0 "x" (.struct 3) =
        treeAndLoop.store 0 "x" (.struct 3) := by
  have distinct : treeAndLoop.Distinct :=
    Heap.read_induction (motive := Table.Distinct) (by decide) (by decide)
  have closed : treeAndLoop.Closed :=
    Heap.closed_of_tables
      (by simp [treeAndLoop, Heap.size, Table.values, Value.Within, or_imp, forall_and])
  have found : treeAndLoop.get? 0 "x" = some (.struct 1) := rfl
  obtain ⟨_, sources, reads, keys, again⟩ :=
    store_over_tree_reads_as_merged distinct closed found uniquePaths_treeAndLoop
      disjoint_treeAndLoop
  exact ⟨distinct, closed, found, uniquePaths_treeAndLoop, disjoint_treeAndLoop,
    reads ["a", "n", "again", "b"], keys [] 1 3 rfl rfl, sources 3 .refl, again⟩

end Tabula
