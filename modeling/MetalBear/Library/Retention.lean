import Mathlib

/-!
# Keeping the last entries of a set

A store that keeps a fixed number of entries sorts them and removes the first ones, as many as
there are beyond that number. Whether an entry goes is a matter of how many sort before it.
-/

universe u

namespace Retention

variable {α : Type u} [LinearOrder α]

/-- The first entries of a set in order, as many as there are beyond the number to keep. -/
def surplus (keep : Nat) (names : List α) : List α :=
  (names.insertionSort (· ≤ ·)).take (names.length - keep)

/-- How many entries sort before this one. -/
def rank (names : List α) (a : α) : Nat := names.countP (· < a)

/-- In a strictly increasing list the place of an entry is the number of entries below it. -/
theorem mem_take_iff_rank {names : List α} (hsorted : names.Pairwise (· < ·)) {a : α}
    (ha : a ∈ names) {n : Nat} : a ∈ names.take n ↔ rank names a < n := by
  unfold rank
  induction names generalizing n with
  | nil => cases ha
  | cons b names ih =>
    obtain ⟨hb, hrest⟩ := List.pairwise_cons.mp hsorted
    cases n with
    | zero => simp
    | succ n =>
      rw [List.take_succ_cons, List.mem_cons, List.countP_cons]
      rcases List.mem_cons.mp ha with rfl | hmem
      · have hnone : names.countP (· < a) = 0 := by
          rw [List.countP_eq_zero]
          intro c hc
          simpa using (hb c hc).le
        simp [hnone]
      · have hlt : b < a := hb a hmem
        rw [ih hrest hmem, if_pos (by simpa using hlt)]
        constructor
        · rintro (rfl | h)
          · exact absurd hlt (lt_irrefl a)
          · omega
        · intro h
          exact Or.inr (by omega)

section Surplus

variable {keep : Nat} {names : List α}

theorem length_surplus : (surplus keep names).length = names.length - keep := by
  rw [surplus, List.length_take, List.length_insertionSort]
  omega

theorem mem_of_mem_surplus {a : α} (h : a ∈ surplus keep names) : a ∈ names :=
  (List.mem_insertionSort _).mp (List.mem_of_mem_take h)

theorem surplus_nodup (hnodup : names.Nodup) : (surplus keep names).Nodup := by
  apply List.Nodup.sublist (List.take_sublist _ _)
  exact (List.perm_insertionSort _ names).nodup_iff.mpr hnodup

theorem surplus_eq_nil (h : names.length ≤ keep) : surplus keep names = [] := by
  rw [← List.length_eq_zero_iff, length_surplus]
  omega

/-- An entry goes when fewer entries sort before it than have to go. -/
theorem mem_surplus_iff (hnodup : names.Nodup) {a : α} (ha : a ∈ names) :
    a ∈ surplus keep names ↔ rank names a < names.length - keep := by
  have hperm := List.perm_insertionSort (· ≤ ·) names
  have hsorted : (names.insertionSort (· ≤ ·)).Pairwise (· < ·) := by
    have hle : (names.insertionSort (· ≤ ·)).Pairwise (· ≤ ·) := List.pairwise_insertionSort _ _
    exact (hle.and (hperm.nodup_iff.mpr hnodup)).imp fun h => lt_of_le_of_ne h.1 h.2
  rw [surplus, mem_take_iff_rank hsorted (hperm.mem_iff.mpr ha), rank, rank, hperm.countP_eq]

/-- When as many entries as there is room for stay, all others go. -/
theorem mem_surplus_of_kept {kept : List α} (hnodup : names.Nodup) (hkept : kept.Nodup)
    (hlength : kept.length = keep) (hmem : ∀ k ∈ kept, k ∈ names)
    (hstay : ∀ k ∈ kept, k ∉ surplus keep names) {a : α} (ha : a ∈ names) (hnot : a ∉ kept) :
    a ∈ surplus keep names := by
  by_contra hgoes
  -- otherwise the surplus, the kept entries and this one are more than there are
  have hall : (a :: (surplus keep names ++ kept)).Nodup := by
    rw [List.nodup_cons, List.mem_append, List.nodup_append]
    refine ⟨fun h => h.elim hgoes hnot, surplus_nodup hnodup, hkept, ?_⟩
    rintro x hx _ hk rfl
    exact hstay x hk hx
  have hsub : a :: (surplus keep names ++ kept) ⊆ names := by
    intro x hx
    rcases List.mem_cons.mp hx with rfl | hx
    · exact ha
    · exact (List.mem_append.mp hx).elim mem_of_mem_surplus (hmem x)
  have hle := (hall.subperm hsub).length_le
  rw [List.length_cons, List.length_append, length_surplus, hlength] at hle
  omega

end Surplus

section Last

variable {β : Type u} {history : List β} {m n : Nat}

/-- The last entries of a history are as many as asked for, or all. -/
theorem length_rtake : (history.rtake n).length = min n history.length := by
  rw [List.rtake, List.length_drop]
  omega

theorem rtake_of_length_le (h : history.length ≤ n) : history.rtake n = history := by
  rw [List.rtake, Nat.sub_eq_zero_of_le h, List.drop_zero]

/-- Fewer of the last entries are among more of them. -/
theorem rtake_suffix_rtake (h : m ≤ n) : history.rtake m <:+ history.rtake n := by
  have hsplit : history.length - m = history.length - n +
      ((history.length - m) - (history.length - n)) := by omega
  rw [List.rtake, List.rtake, hsplit, ← List.drop_drop]
  exact List.drop_suffix _ _

/-- Asking for more than is left of a history gives what is left. -/
theorem rtake_suffix_of_le_or (h : m ≤ n ∨ n = history.length) :
    history.rtake m <:+ history.rtake n := by
  rcases h with h | h
  · exact rtake_suffix_rtake h
  · rw [rtake_of_length_le h.ge]
    exact List.drop_suffix _ _

end Last

end Retention
