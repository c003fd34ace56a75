/-!
Tables remember the order in which their keys were first written. Writing a key that is already
there replaces its value and keeps its place; a new key goes last. Structs, scopes and argument
lists are all tables, so this one order is the order of every listing.
-/

namespace Tabula

/-- Entries in the order in which their keys were first written. -/
abbrev Table (α : Type) : Type := List (String × α)

namespace Table

variable {α : Type}

/-- The keys in order. -/
def keys (table : Table α) : List String := table.map Prod.fst

/-- The values in the order of their keys. -/
def values (table : Table α) : List α := table.map Prod.snd

/-- No key is listed twice. Every table built by `insert` and `erase` is so. -/
def Distinct (table : Table α) : Prop := table.keys.Nodup

instance (table : Table α) : Decidable table.Distinct :=
  inferInstanceAs (Decidable table.keys.Nodup)

/-- The value under a key. -/
def get? : Table α → String → Option α
  | [], _ => none
  | entry :: rest, key => if entry.1 = key then some entry.2 else get? rest key

/-- Whether a key is present. -/
def contains (table : Table α) (key : String) : Bool := (table.get? key).isSome

/-- Overwrites the value of a present key in its place, and puts a new key last. -/
def insert : Table α → String → α → Table α
  | [], key, value => [(key, value)]
  | entry :: rest, key, value =>
      if entry.1 = key then (key, value) :: rest else entry :: insert rest key value

/-- Removes a key; the others keep their order. -/
def erase (table : Table α) (key : String) : Table α := table.filter (·.1 ≠ key)

/-- Lays entries over a table one after another. -/
def overlay (table : Table α) (entries : List (String × α)) : Table α :=
  entries.foldl (fun written entry => written.insert entry.1 entry.2) table

/-- The table written by a list of entries: a repeated key keeps its first place and its last value.
-/
def ofList (entries : List (String × α)) : Table α := overlay [] entries

/-! ## What an insertion does to look-ups and keys -/

theorem get?_insert (table : Table α) (key other : String) (value : α) :
    (table.insert key value).get? other = if key = other then some value else table.get? other := by
  induction table with
  | nil => rfl
  | cons entry rest inductionHypothesis =>
      by_cases atEntry : entry.1 = key <;> by_cases sameKey : key = other <;>
        simp_all [insert, get?]

theorem keys_insert (table : Table α) (key : String) (value : α) :
    (table.insert key value).keys =
      if key ∈ table.keys then table.keys else table.keys ++ [key] := by
  induction table with
  | nil => rfl
  | cons entry rest inductionHypothesis =>
      by_cases atEntry : entry.1 = key
      · simp [insert, keys, atEntry]
      · have keyNeEntry : key ≠ entry.1 := fun same => atEntry same.symm
        by_cases present : key ∈ rest.map Prod.fst <;>
          simp_all [insert, keys]

/-! ## What values come from -/

theorem mem_values_of_get? {table : Table α} {key : String} {value : α}
    (found : table.get? key = some value) : value ∈ table.values := by
  induction table with
  | nil => simp [get?] at found
  | cons entry rest inductionHypothesis =>
      rw [get?] at found
      split at found
      · have first : entry.2 = value := Option.some.inj found
        simp [values, first]
      · exact List.mem_cons_of_mem entry.2 (inductionHypothesis found)

theorem mem_values_insert {table : Table α} {key : String} {written value : α}
    (member : value ∈ (table.insert key written).values) :
    value = written ∨ value ∈ table.values := by
  induction table with
  | nil =>
      left
      simpa [insert, values] using member
  | cons entry rest inductionHypothesis =>
      rw [insert] at member
      split at member
      · rcases List.mem_cons.mp member with first | later
        · exact Or.inl first
        · exact Or.inr (List.mem_cons_of_mem entry.2 later)
      · rcases List.mem_cons.mp member with first | later
        · exact Or.inr (by simp [values, first])
        · rcases inductionHypothesis later with same | old
          · exact Or.inl same
          · exact Or.inr (List.mem_cons_of_mem entry.2 old)

/-! ## Distinct keys -/

theorem get?_eq_none_iff {table : Table α} {key : String} :
    table.get? key = none ↔ key ∉ table.keys := by
  induction table with
  | nil => simp [get?, keys]
  | cons entry rest inductionHypothesis =>
      rw [get?, keys, List.map_cons, List.mem_cons, not_or]
      by_cases here : entry.1 = key
      · simp [here]
      · rw [if_neg here, inductionHypothesis]
        exact ⟨fun absent => ⟨Ne.symm here, absent⟩, And.right⟩

theorem mem_of_get? {table : Table α} {key : String} {value : α}
    (found : table.get? key = some value) : (key, value) ∈ table := by
  induction table with
  | nil => exact nomatch found
  | cons entry rest inductionHypothesis =>
      rw [get?] at found
      split at found
      · rename_i here
        cases found
        exact here ▸ List.mem_cons_self
      · exact List.mem_cons_of_mem entry (inductionHypothesis found)

theorem get?_of_mem {table : Table α} (distinct : table.Distinct) {key : String} {value : α}
    (member : (key, value) ∈ table) : table.get? key = some value := by
  induction table with
  | nil => exact absurd member List.not_mem_nil
  | cons entry rest inductionHypothesis =>
      obtain ⟨fresh, distinctRest⟩ := List.nodup_cons.mp distinct
      rw [get?]
      rcases List.mem_cons.mp member with rfl | later
      · exact if_pos rfl
      · have apart : entry.1 ≠ key := fun same =>
          fresh (same ▸ List.mem_map_of_mem (f := Prod.fst) later)
        rw [if_neg apart]
        exact inductionHypothesis distinctRest later

theorem Distinct.filter {table : Table α} (distinct : table.Distinct) (keep : String × α → Bool) :
    Distinct (table.filter keep) :=
  List.Nodup.sublist (List.Sublist.map Prod.fst List.filter_sublist) distinct

theorem get?_filter {table : Table α} (distinct : table.Distinct) (keep : String × α → Bool)
    (key : String) :
    get? (table.filter keep) key = (table.get? key).filter fun value => keep (key, value) := by
  induction table with
  | nil => rfl
  | cons entry rest inductionHypothesis =>
      obtain ⟨fresh, distinctRest⟩ := List.nodup_cons.mp distinct
      rw [List.filter_cons, get?]
      by_cases here : entry.1 = key
      · subst here
        have absent : get? rest entry.1 = none := get?_eq_none_iff.mpr fresh
        rw [if_pos rfl, Option.filter_some]
        split
        · rw [get?, if_pos rfl]
        · rw [inductionHypothesis distinctRest, absent]
          rfl
      · rw [if_neg here]
        split
        · rw [get?, if_neg here, inductionHypothesis distinctRest]
        · exact inductionHypothesis distinctRest

theorem insert_of_get? {table : Table α} {key : String} {value : α}
    (found : table.get? key = some value) : table.insert key value = table := by
  induction table with
  | nil => exact nomatch found
  | cons entry rest inductionHypothesis =>
      rw [get?] at found
      rw [insert]
      split at found
      · rename_i here
        cases found
        rw [if_pos here, ← here]
      · rename_i elsewhere
        rw [if_neg elsewhere, inductionHypothesis found]

theorem insert_of_absent {table : Table α} {key : String} (value : α)
    (absent : key ∉ table.keys) : table.insert key value = table ++ [(key, value)] := by
  induction table with
  | nil => rfl
  | cons entry rest inductionHypothesis =>
      have apart : entry.1 ≠ key := fun same => absent (same ▸ List.mem_cons_self)
      have absentRest : key ∉ keys rest := fun present => absent (List.mem_cons_of_mem _ present)
      rw [insert, if_neg apart, inductionHypothesis absentRest, List.cons_append]

theorem Distinct.insert {table : Table α} (distinct : table.Distinct) (key : String) (value : α) :
    (table.insert key value).Distinct := by
  rw [Distinct, keys_insert]
  by_cases present : key ∈ table.keys
  · rw [if_pos present]
    exact distinct
  · rw [if_neg present]
    have apart : ∀ other ∈ table.keys, other ≠ key :=
      fun other member same => present (same ▸ member)
    exact List.nodup_append.mpr ⟨distinct, by simp, by simpa using apart⟩

/-! ## Overlays -/

theorem overlay_cons (table : Table α) (entry : String × α) (rest : List (String × α)) :
    table.overlay (entry :: rest) = (table.insert entry.1 entry.2).overlay rest := rfl

theorem Distinct.overlay {table : Table α} (distinct : table.Distinct)
    (entries : List (String × α)) : (table.overlay entries).Distinct := by
  induction entries generalizing table with
  | nil => exact distinct
  | cons entry rest inductionHypothesis =>
      exact inductionHypothesis (distinct.insert entry.1 entry.2)

theorem mem_values_overlay {table : Table α} {entries : List (String × α)} {value : α}
    (member : value ∈ (table.overlay entries).values) :
    value ∈ values entries ∨ value ∈ table.values := by
  induction entries generalizing table with
  | nil => exact Or.inr member
  | cons entry rest inductionHypothesis =>
      rcases inductionHypothesis member with later | written
      · exact Or.inl (List.mem_cons_of_mem entry.2 later)
      · rcases mem_values_insert written with rfl | old
        · exact Or.inl List.mem_cons_self
        · exact Or.inr old

/-- Entries that are laid over a table with other keys follow it. -/
theorem overlay_of_distinct {table : Table α} {entries : List (String × α)}
    (distinct : Distinct (table ++ entries)) : table.overlay entries = table ++ entries := by
  induction entries generalizing table with
  | nil => exact (List.append_nil table).symm
  | cons entry rest inductionHypothesis =>
      have absent : entry.1 ∉ table.keys := by
        rw [Distinct, keys, List.map_append, List.nodup_append] at distinct
        exact fun present => distinct.2.2 entry.1 present entry.1 List.mem_cons_self rfl
      have split : table ++ entry :: rest = (table ++ [entry]) ++ rest :=
        List.append_cons table entry rest
      rw [overlay_cons, insert_of_absent entry.2 absent, inductionHypothesis (split ▸ distinct),
        split]

theorem get?_overlay {table : Table α} {entries : List (String × α)}
    (distinct : Distinct entries) (key : String) :
    (table.overlay entries).get? key = (get? entries key).or (table.get? key) := by
  induction entries generalizing table with
  | nil => rfl
  | cons entry rest inductionHypothesis =>
      obtain ⟨fresh, distinctRest⟩ := List.nodup_cons.mp distinct
      rw [overlay_cons, inductionHypothesis distinctRest, get?_insert, get?]
      by_cases here : entry.1 = key
      · have absent : get? rest key = none := get?_eq_none_iff.mpr (here ▸ fresh)
        rw [if_pos here, if_pos here, absent]
        rfl
      · rw [if_neg here, if_neg here]

theorem keys_overlay {table : Table α} {entries : List (String × α)}
    (distinct : Distinct entries) :
    (table.overlay entries).keys =
      table.keys ++ (keys entries).filter fun key => key ∉ table.keys := by
  induction entries generalizing table with
  | nil => exact (List.append_nil table.keys).symm
  | cons entry rest inductionHypothesis =>
      obtain ⟨fresh, distinctRest⟩ := List.nodup_cons.mp distinct
      rw [overlay_cons, inductionHypothesis distinctRest, keys_insert]
      have first : keys (entry :: rest) = entry.1 :: keys rest := rfl
      by_cases present : entry.1 ∈ table.keys
      · rw [if_pos present, first, List.filter_cons_of_neg (by simpa using present)]
      · have same : ∀ key ∈ keys rest,
            decide (key ∉ table.keys ++ [entry.1]) = decide (key ∉ table.keys) := by
          intro key member
          have apart : key ≠ entry.1 := fun same => fresh (same ▸ member)
          simp [apart]
        rw [if_neg present, first, List.filter_cons_of_pos (by simpa using present),
          List.filter_congr same, List.append_assoc, List.singleton_append]

end Table

end Tabula
