/-!
# Tables

A table keeps its entries in the order in which their keys were first written.  Writing a key again
changes the value in its old place.
-/

namespace LineScope

/-- Keys with values, in the order of first writing. -/
structure Table (κ α : Type) where
  entries : List (κ × α)
deriving Repr, DecidableEq

namespace Table

variable {κ α : Type} [DecidableEq κ]

/-- The table without entries. -/
def empty : Table κ α := ⟨[]⟩

/-- The keys in order. -/
def keys (table : Table κ α) : List κ := table.entries.map (·.1)

/-- The value at a key. -/
def get? (table : Table κ α) (key : κ) : Option α :=
  (table.entries.find? fun entry => entry.1 = key).map (·.2)

/-- Writes a value into a list of entries. -/
def setEntry (key : κ) (value : α) : List (κ × α) → List (κ × α)
  | [] => [(key, value)]
  | entry :: entries =>
    if entry.1 = key then (key, value) :: entries else entry :: setEntry key value entries

/-- Writes a value at a key. -/
def set (table : Table κ α) (key : κ) (value : α) : Table κ α := ⟨setEntry key value table.entries⟩

/-- Writes a value at a key that has none. -/
def setDefault (table : Table κ α) (key : κ) (value : α) : Table κ α :=
  if (table.get? key).isSome then table else table.set key value

theorem get?_empty (key : κ) : (empty : Table κ α).get? key = none := rfl

/-- What is written is read, and other keys keep their values. -/
theorem get?_set (table : Table κ α) (key other : κ) (value : α) :
    (table.set key value).get? other = if key = other then some value else table.get? other := by
  cases table with
  | mk entries =>
    simp only [get?, set]
    induction entries with
    | nil => by_cases h : key = other <;> simp [setEntry, h]
    | cons entry entries ih =>
      by_cases hk : entry.1 = key
      · by_cases h : key = other
        · simp [setEntry, hk, h]
        · simp [setEntry, hk, h]
      · by_cases ho : entry.1 = other
        · have hne : ¬ key = other := fun he => hk (ho.trans he.symm)
          rw [setEntry, if_neg hk, if_neg hne]
          simp [ho]
        · rw [setEntry, if_neg hk]
          simpa [ho] using ih

/-- What is written at a key stays there, and other keys keep their values. -/
theorem get?_setDefault (table : Table κ α) (key other : κ) (value : α) :
    (table.setDefault key value).get? other =
      (table.get? other).or (if key = other then some value else none) := by
  unfold setDefault
  split
  · rename_i hsome
    split
    · rename_i he
      obtain ⟨old, hold⟩ := Option.isSome_iff_exists.mp (he ▸ hsome)
      rw [hold, Option.some_or]
    · rw [Option.or_none]
  · rename_i hnone
    rw [get?_set]
    split
    · rename_i he
      rw [← he, Option.not_isSome_iff_eq_none.mp hnone, Option.none_or]
    · rw [Option.or_none]

end Table

end LineScope
