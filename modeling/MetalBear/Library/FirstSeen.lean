import Mathlib

/-!
# The first of each key

A scan that keeps a row if no row with its key is kept yet.
-/

universe u v

namespace FirstSeen

variable {ρ : Type u} {κ : Type v} [DecidableEq κ] (key : ρ → κ)

/-- One more row is seen. -/
def add (kept : List ρ) (r : ρ) : List ρ := if key r ∈ kept.map key then kept else kept ++ [r]

/-- What is kept of the rows. -/
def firsts (rows : List ρ) : List ρ := rows.foldl (add key) []

variable {key} {kept rows : List ρ} {r : ρ} {k : κ}

theorem firsts_concat (rows : List ρ) (r : ρ) :
    firsts key (rows ++ [r]) = add key (firsts key rows) r := by
  rw [firsts, List.foldl_append, List.foldl_cons, List.foldl_nil, firsts]

theorem mem_keys_add : k ∈ (add key kept r).map key ↔ k ∈ kept.map key ∨ k = key r := by
  unfold add
  split_ifs with h
  · exact ⟨Or.inl, fun hk => hk.elim id fun heq => heq ▸ h⟩
  · rw [List.map_append, List.mem_append, List.map_singleton, List.mem_singleton]

theorem mem_of_mem_add {a : ρ} (h : a ∈ add key kept r) : a ∈ kept ∨ a = r := by
  unfold add at h
  split_ifs at h
  · exact Or.inl h
  · exact (List.mem_append.mp h).imp_right List.mem_singleton.mp

theorem nodup_add (h : (kept.map key).Nodup) : ((add key kept r).map key).Nodup := by
  unfold add
  split_ifs with hr
  · exact h
  · rw [List.map_append, List.map_singleton, ← List.concat_eq_append]
    exact h.concat hr

/-- The keys that are kept are those of the rows. -/
theorem mem_keys_firsts : k ∈ (firsts key rows).map key ↔ k ∈ rows.map key := by
  induction rows using List.reverseRecOn with
  | nil => rfl
  | append_singleton rows r ih =>
    rw [firsts_concat, mem_keys_add, ih]
    simp

theorem mem_of_mem_firsts (h : r ∈ firsts key rows) : r ∈ rows := by
  induction rows using List.reverseRecOn with
  | nil => exact h
  | append_singleton rows a ih =>
    rw [firsts_concat] at h
    obtain h | rfl := mem_of_mem_add h
    · exact List.mem_append_left _ (ih h)
    · exact List.mem_append_right _ (List.mem_singleton_self _)

/-- No two rows with one key are kept. -/
theorem nodup_firsts (rows : List ρ) : ((firsts key rows).map key).Nodup := by
  induction rows using List.reverseRecOn with
  | nil => exact List.nodup_nil
  | append_singleton rows a ih =>
    rw [firsts_concat]
    exact nodup_add ih

/-- Rows may be left out by their keys before or after the scan. -/
theorem filter_firsts (p : κ → Bool) (rows : List ρ) :
    (firsts key rows).filter (fun r => p (key r)) = firsts key (rows.filter fun r => p (key r)) := by
  induction rows using List.reverseRecOn with
  | nil => rfl
  | append_singleton rows a ih =>
    have hkept : key a ∈ (firsts key (rows.filter fun r => p (key r))).map key ↔
        p (key a) = true ∧ key a ∈ (firsts key rows).map key := by
      rw [mem_keys_firsts, mem_keys_firsts, List.mem_map, List.mem_map]
      constructor
      · rintro ⟨r, hr, hkey⟩
        obtain ⟨hmem, hp⟩ := List.mem_filter.mp hr
        exact ⟨hkey ▸ hp, r, hmem, hkey⟩
      · rintro ⟨hp, r, hr, hkey⟩
        exact ⟨r, List.mem_filter.mpr ⟨hr, hkey ▸ hp⟩, hkey⟩
    rw [firsts_concat, List.filter_append]
    cases hp : p (key a) with
    | false =>
      have hnone : [a].filter (fun r => p (key r)) = [] := by simp [hp]
      rw [hnone, List.append_nil, ← ih, add]
      split_ifs
      · rfl
      · rw [List.filter_append, hnone, List.append_nil]
    | true =>
      have hone : [a].filter (fun r => p (key r)) = [a] := by simp [hp]
      rw [hone, firsts_concat, add, add]
      rw [hp, eq_self, true_and] at hkept
      rw [if_congr hkept rfl rfl]
      split_ifs
      · exact ih
      · rw [List.filter_append, hone, ih]

end FirstSeen
