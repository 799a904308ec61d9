import Mathlib

/-!
# Splicing dated entries into a list

A list some of whose entries carry a date, newest first. A new entry goes in front of the first
older one, or to the end. What was there stays in its order, and the list stays newest first.
-/

universe u v

namespace Splicing

variable {α : Type u} {τ : Type v} [LinearOrder τ] {time : α → Option τ} {t : τ} {w a : α}
  {l : List α}

/-- The entry has an earlier date. -/
def isOlder (time : α → Option τ) (t : τ) (a : α) : Bool := (time a).any (· < t)

/-- An entry with the given date is put in front of the first older one. -/
def splice (time : α → Option τ) (t : τ) (w : α) (l : List α) : List α :=
  l.takeWhile (!isOlder time t ·) ++ w :: l.dropWhile (!isOlder time t ·)

/-- The dates come in descending order. -/
def NewestFirst (time : α → Option τ) (l : List α) : Prop :=
  (l.filterMap time).Pairwise (· ≥ ·)

theorem splice_perm : (splice time t w l).Perm (l ++ [w]) := by
  have hmiddle : (splice time t w l).Perm
      (w :: (l.takeWhile (!isOlder time t ·) ++ l.dropWhile (!isOlder time t ·))) :=
    List.perm_middle
  rw [List.takeWhile_append_dropWhile] at hmiddle
  exact hmiddle.trans (List.perm_append_singleton w l).symm

/-- What was there stays in its order. -/
theorem sublist_splice : l.Sublist (splice time t w l) := by
  have hsplit : (l.takeWhile (!isOlder time t ·) ++ l.dropWhile (!isOlder time t ·)).Sublist
      (splice time t w l) :=
    (List.Sublist.refl _).append (List.sublist_cons_self w _)
  rwa [List.takeWhile_append_dropWhile] at hsplit

/-- No entry in front of the new one is older. -/
theorem le_of_mem_takeWhile (ha : a ∈ l.takeWhile (!isOlder time t ·)) {s : τ}
    (hs : time a = some s) : t ≤ s := by
  have hnot := List.mem_takeWhile_imp ha
  rw [isOlder, hs] at hnot
  simpa using hnot

/-- The new entry keeps the list newest first. -/
theorem NewestFirst.splice (hw : time w = some t) (h : NewestFirst time l) :
    NewestFirst time (splice time t w l) := by
  have hall : (l.takeWhile (!isOlder time t ·) ++ l.dropWhile (!isOlder time t ·)).filterMap time =
      l.filterMap time := by rw [List.takeWhile_append_dropWhile]
  rw [NewestFirst, ← hall, List.filterMap_append, List.pairwise_append] at h
  obtain ⟨hbefore, hafter, hacross⟩ := h
  rw [NewestFirst, Splicing.splice, List.filterMap_append, List.filterMap_cons_some hw,
    List.pairwise_append, List.pairwise_cons]
  -- all dates behind the new entry are at most that of the entry right behind it
  have hbehind : ∀ s ∈ (l.dropWhile (!isOlder time t ·)).filterMap time, s ≤ t := by
    intro s hs
    cases hdrop : l.dropWhile (!isOlder time t ·) with
    | nil =>
      rw [hdrop] at hs
      cases hs
    | cons first rest =>
      have hne : l.dropWhile (!isOlder time t ·) ≠ [] := by
        rw [hdrop]
        exact List.cons_ne_nil _ _
      have hfirst : isOlder time t first = true := by
        have hnot := List.head_dropWhile_not (!isOlder time t ·) hne
        simpa [hdrop] using hnot
      obtain ⟨r, hr, hrt⟩ := (Option.any_eq_true _ _).mp hfirst
      have hrt' : r < t := of_decide_eq_true hrt
      rw [hdrop, List.filterMap_cons_some hr, List.pairwise_cons] at hafter
      rw [hdrop, List.filterMap_cons_some hr, List.mem_cons] at hs
      rcases hs with rfl | hs
      · exact hrt'.le
      · exact (hafter.1 s hs).trans hrt'.le
  refine ⟨hbefore, ⟨fun s hs => hbehind s hs, hafter⟩, fun r hr s hs => ?_⟩
  rcases List.mem_cons.mp hs with rfl | hs
  · obtain ⟨a, ha, har⟩ := List.mem_filterMap.mp hr
    exact le_of_mem_takeWhile ha har
  · exact hacross r hr s hs

end Splicing
