import Mathlib

/-!
# Tables with a primary key

A table whose key decides the row: for each key the row, if there is one. The statements that
select, insert, update and delete are described by what they leave at each key.
-/

universe u v

/-- The row of each key. -/
abbrev KeyTable (κ : Type u) (ρ : Type v) := κ → Option ρ

namespace KeyTable

variable {κ : Type u} {ρ : Type v} {t : KeyTable κ ρ} {k k' : κ} {r r' : ρ}
  {p : κ → ρ → Bool} {f : ρ → ρ}

/-- No row. -/
def empty : KeyTable κ ρ := fun _ => none

@[simp] theorem empty_apply : (empty : KeyTable κ ρ) k = none := rfl

/-- `INSERT`, which the primary key refuses where there is a row. -/
def insert [DecidableEq κ] (t : KeyTable κ ρ) (k : κ) (r : ρ) : Option (KeyTable κ ρ) :=
  if t k = none then some (Function.update t k (some r)) else none

/-- `DELETE ... WHERE`. -/
def deleteWhere (p : κ → ρ → Bool) (t : KeyTable κ ρ) : KeyTable κ ρ :=
  fun k => (t k).filter fun r => !p k r

/-- `UPDATE ... SET ... WHERE`. -/
def updateWhere (p : κ → ρ → Bool) (f : ρ → ρ) (t : KeyTable κ ρ) : KeyTable κ ρ :=
  fun k => (t k).map fun r => if p k r then f r else r

theorem insert_of_none [DecidableEq κ] (h : t k = none) :
    t.insert k r = some (Function.update t k (some r)) := if_pos h

theorem update_eq_some [DecidableEq κ] :
    Function.update t k (some r) k' = some r' ↔ k' = k ∧ r = r' ∨ k' ≠ k ∧ t k' = some r' := by
  by_cases h : k' = k
  · subst h
    simp
  · simp [h]

theorem deleteWhere_eq_some :
    t.deleteWhere p k = some r ↔ t k = some r ∧ p k r = false := by
  rw [deleteWhere, Option.filter_eq_some_iff, Bool.not_eq_true']

theorem updateWhere_eq_some :
    t.updateWhere p f k = some r ↔ ∃ q, t k = some q ∧ (if p k q then f q else q) = r := by
  rw [updateWhere, Option.map_eq_some_iff]

@[simp]
theorem updateWhere_eq_none : t.updateWhere p f k = none ↔ t k = none := by
  rw [updateWhere, Option.map_eq_none_iff]

theorem deleteWhere_eq_none_of_none (h : t k = none) : t.deleteWhere p k = none := by
  rw [deleteWhere, h, Option.filter_none]

end KeyTable
