import Mathlib

/-!
# Tables with an automatic primary key

A table whose integer primary key is assigned by the database: the next key is one
above the largest key that was ever in the table, also when that row is gone. The
high-water mark is part of the table, together with the two facts that make it one.
-/

universe u

/-- A table with an automatic integer key. -/
structure AutoTable (ρ : Type u) where
  rows : List (Int × ρ)
  /-- The largest key that was ever in the table; it never goes back. -/
  highWater : Int
  nodup : (rows.map Prod.fst).Nodup
  le_highWater : ∀ row ∈ rows, row.1 ≤ highWater
  nonneg : 0 ≤ highWater

namespace AutoTable

variable {ρ : Type u}

/-- A table that never held a row. -/
def empty : AutoTable ρ := ⟨[], 0, by simp, by simp, le_refl _⟩

/-- Add a row under a key that the table does not hold; the mark is raised if needed. -/
def insertAt (t : AutoTable ρ) (k : Int) (r : ρ) : Option (AutoTable ρ) :=
  if h : k ∉ t.rows.map Prod.fst then some
    { rows := t.rows ++ [(k, r)]
      highWater := max t.highWater k
      nodup := by
        rw [List.map_append, List.map_cons, List.map_nil]
        exact List.nodup_append.mpr
          ⟨t.nodup, by simp, fun a ha b hb hab => h (by simp_all)⟩
      le_highWater := by
        intro row hrow
        rcases List.mem_append.mp hrow with hrow | hrow
        · exact le_max_of_le_left (t.le_highWater row hrow)
        · simp only [List.mem_singleton] at hrow
          simp [hrow]
      nonneg := le_max_of_le_left t.nonneg }
  else none

/-- The key of the next automatic row is free. -/
theorem next_not_mem (t : AutoTable ρ) : t.highWater + 1 ∉ t.rows.map Prod.fst := by
  intro h
  obtain ⟨row, hrow, hk⟩ := List.mem_map.mp h
  have := t.le_highWater row hrow
  omega

/-- Add a row under the next automatic key. -/
def insertNext (t : AutoTable ρ) (r : ρ) : AutoTable ρ where
  rows := t.rows ++ [(t.highWater + 1, r)]
  highWater := t.highWater + 1
  nodup := by
    rw [List.map_append, List.map_cons, List.map_nil]
    exact List.nodup_append.mpr
      ⟨t.nodup, by simp, fun a ha b hb hab => t.next_not_mem (by simp_all)⟩
  le_highWater := by
    intro row hrow
    rcases List.mem_append.mp hrow with hrow | hrow
    · have := t.le_highWater row hrow
      omega
    · simp only [List.mem_singleton] at hrow
      simp [hrow]
  nonneg := by have := t.nonneg; omega

/-- Delete the rows that satisfy the test. -/
def delete (t : AutoTable ρ) (p : Int × ρ → Bool) : AutoTable ρ where
  rows := t.rows.filter fun row => !p row
  highWater := t.highWater
  nodup := t.nodup.sublist (List.Sublist.map _ List.filter_sublist)
  le_highWater row hrow := t.le_highWater row (List.mem_of_mem_filter hrow)
  nonneg := t.nonneg

/-- Rewrite the row with the given key. -/
def update (t : AutoTable ρ) (k : Int) (f : ρ → ρ) : AutoTable ρ where
  rows := t.rows.map fun row => if row.1 = k then (row.1, f row.2) else row
  highWater := t.highWater
  nodup := by
    have : (t.rows.map fun row => if row.1 = k then (row.1, f row.2) else row).map Prod.fst =
        t.rows.map Prod.fst := by
      rw [List.map_map]
      exact List.map_congr_left fun row _ => by by_cases h : row.1 = k <;> simp [h]
    rw [this]
    exact t.nodup
  le_highWater row hrow := by
    obtain ⟨old, hold, rfl⟩ := List.mem_map.mp hrow
    have := t.le_highWater old hold
    by_cases h : old.1 = k <;> simpa [h] using this
  nonneg := t.nonneg

/-- The largest key among the surviving rows. -/
def maxKey (t : AutoTable ρ) : Option Int := (t.rows.map Prod.fst).max?

@[simp] theorem rows_insertNext (t : AutoTable ρ) (r : ρ) :
    (t.insertNext r).rows = t.rows ++ [(t.highWater + 1, r)] := rfl

@[simp] theorem highWater_insertNext (t : AutoTable ρ) (r : ρ) :
    (t.insertNext r).highWater = t.highWater + 1 := rfl

@[simp] theorem rows_delete (t : AutoTable ρ) (p : Int × ρ → Bool) :
    (t.delete p).rows = t.rows.filter fun row => !p row := rfl

@[simp] theorem highWater_delete (t : AutoTable ρ) (p : Int × ρ → Bool) :
    (t.delete p).highWater = t.highWater := rfl

@[simp] theorem highWater_update (t : AutoTable ρ) (k : Int) (f : ρ → ρ) :
    (t.update k f).highWater = t.highWater := rfl

/-- What an insertion under a chosen key does, when it succeeds. -/
theorem insertAt_eq_some {t t' : AutoTable ρ} {k : Int} {r : ρ} (h : t.insertAt k r = some t') :
    t'.rows = t.rows ++ [(k, r)] ∧ t'.highWater = max t.highWater k := by
  simp only [insertAt] at h
  split at h
  · cases h
    exact ⟨rfl, rfl⟩
  · cases h

/-- Rewriting the row that was just added: the others stay as they are. -/
theorem rows_update_insertNext (t : AutoTable ρ) (r : ρ) (f : ρ → ρ) :
    ((t.insertNext r).update (t.highWater + 1) f).rows = t.rows ++ [(t.highWater + 1, f r)] := by
  simp only [update, rows_insertNext, List.map_append, List.map_cons, List.map_nil, if_true]
  congr 1
  nth_rewrite 2 [← List.map_id t.rows]
  refine List.map_congr_left fun row hrow => if_neg ?_
  have := t.le_highWater row hrow
  omega

/-- Above every surviving key there is nothing: the largest key bounds them. -/
theorem le_maxKey {t : AutoTable ρ} {row : Int × ρ} (h : row ∈ t.rows) :
    ∃ k, t.maxKey = some k ∧ row.1 ≤ k := by
  cases hm : t.maxKey with
  | none =>
    have : t.rows.map Prod.fst = [] := List.max?_eq_none_iff.mp hm
    simp_all
  | some k =>
    exact ⟨k, rfl, (List.max?_eq_some_iff.mp hm).2 _ (List.mem_map_of_mem h)⟩

/-- The largest surviving key belongs to a surviving row. -/
theorem exists_of_maxKey {t : AutoTable ρ} {k : Int} (h : t.maxKey = some k) :
    ∃ r, (k, r) ∈ t.rows := by
  obtain ⟨hk, -⟩ := List.max?_eq_some_iff.mp h
  obtain ⟨⟨k', r⟩, hrow, rfl⟩ := List.mem_map.mp hk
  exact ⟨r, hrow⟩

end AutoTable
