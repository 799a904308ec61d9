import Mathlib

/-!
# Updating the first match of a list

A scan that stops at the first hit and changes it in place. Everything the update
does is said once, by splitting the list at the hit.
-/

universe u

variable {α : Type u}

/-- Change the first element that satisfies the test, if there is one. -/
def updateFirst (p : α → Bool) (f : α → α) : List α → List α
  | [] => []
  | a :: l => if p a then f a :: l else a :: updateFirst p f l

/-- A hit ends the scan. -/
theorem updateFirst_of_pos {p : α → Bool} {a : α} (h : p a = true) (f : α → α) (l : List α) :
    updateFirst p f (a :: l) = f a :: l := if_pos h

/-- What is not a hit is passed over. -/
theorem updateFirst_of_neg {p : α → Bool} {a : α} (h : ¬ p a = true) (f : α → α) (l : List α) :
    updateFirst p f (a :: l) = a :: updateFirst p f l := if_neg h

@[simp] theorem length_updateFirst (p : α → Bool) (f : α → α) (l : List α) :
    (updateFirst p f l).length = l.length := by
  induction l with
  | nil => rfl
  | cons b l ih =>
    by_cases hb : p b = true
    · rw [updateFirst_of_pos hb, List.length_cons, List.length_cons]
    · rw [updateFirst_of_neg hb, List.length_cons, List.length_cons, ih]

/-- What the change does not touch stays as it is all along the list. -/
theorem map_updateFirst {β : Type*} {p : α → Bool} {f : α → α} {g : α → β} (l : List α)
    (h : ∀ a, g (f a) = g a) : (updateFirst p f l).map g = l.map g := by
  induction l with
  | nil => rfl
  | cons b l ih =>
    by_cases hb : p b = true
    · rw [updateFirst_of_pos hb, List.map_cons, List.map_cons, h]
    · rw [updateFirst_of_neg hb, List.map_cons, List.map_cons, ih]

/-- Where the search hits, the update changes exactly that position. -/
theorem updateFirst_of_find? {p : α → Bool} {l : List α} {a : α} (h : l.find? p = some a)
    (f : α → α) : ∃ before after, l = before ++ a :: after ∧
      updateFirst p f l = before ++ f a :: after ∧ p a = true := by
  induction l with
  | nil => cases h
  | cons b l ih =>
    by_cases hb : p b = true
    · rw [List.find?_cons_of_pos hb] at h
      cases h
      exact ⟨[], l, rfl, updateFirst_of_pos hb f l, hb⟩
    · rw [List.find?_cons_of_neg hb] at h
      obtain ⟨before, after, rfl, hu, ha⟩ := ih h
      exact ⟨b :: before, after, rfl, by rw [updateFirst_of_neg hb, hu, List.cons_append], ha⟩
