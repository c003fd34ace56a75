import Tabula.Table

/-!
Tables used as sequences: elements keyed by their positions, in decimal.
-/

namespace Tabula.Table

variable {α : Type}

/-- The least number from `index` up that is no key, tried so many times. -/
def freeFrom (table : Table α) : Nat → Nat → Nat
  | 0, index => index
  | tries + 1, index =>
      if table.contains (Nat.repr index) then table.freeFrom tries (index + 1) else index

/-- The least number, from the size of the table up, that is no key yet. Only as many candidates as
there are keys can be taken. -/
def freeIndex (table : Table α) : Nat := table.freeFrom table.length table.length

/-- Appends a value under the next free index. -/
def push (table : Table α) (value : α) : Table α := table.insert (Nat.repr table.freeIndex) value

/-- The table that holds values under their positions. -/
def sequence (values : List α) : Table α := values.foldl push []

/-! ## Tables keyed by positions -/

/-- Items under their positions, from the given one on. -/
def positioned (position : Nat) (items : List α) : Table α :=
  (items.zipIdx position).map fun (item, place) => (Nat.repr place, item)

theorem positioned_cons (position : Nat) (item : α) (rest : List α) :
    positioned position (item :: rest) =
      (Nat.repr position, item) :: positioned (position + 1) rest := rfl

theorem values_positioned (position : Nat) (items : List α) :
    (positioned position items).values = items := by
  rw [values, positioned, List.map_map]
  exact List.zipIdx_map_fst position items

theorem keys_positioned (position : Nat) (items : List α) :
    (positioned position items).keys = (List.range' position items.length).map Nat.repr := by
  rw [← List.zipIdx_map_snd, keys, positioned, List.map_map, List.map_map]
  rfl

/-- Different positions have different decimal texts. -/
theorem eq_of_repr_eq {first second : Nat} (same : Nat.repr first = Nat.repr second) :
    first = second := by
  rw [Nat.repr_eq_ofList_toDigits, Nat.repr_eq_ofList_toDigits, String.ofList_inj] at same
  have digits := congrArg (Nat.ofDigitChars 10 · 0) same
  simpa only [Nat.ofDigitChars_ten_toDigits] using digits

theorem distinct_positioned (position : Nat) (items : List α) :
    (positioned position items).Distinct := by
  have apart : ∀ first second : Nat, first ≠ second → Nat.repr first ≠ Nat.repr second :=
    fun _ _ different same => different (eq_of_repr_eq same)
  rw [Distinct, keys_positioned]
  have distinct : (List.range' position items.length).Nodup := List.nodup_range'
  exact List.Pairwise.map Nat.repr apart distinct

end Tabula.Table
