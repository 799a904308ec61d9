import Mathlib

/-!
# Writes to a keyed map

A map from keys to values is changed by a list of writes, each of which sets or removes the
value of one key and expects the key to be free or to be taken. What a key has in the end is
what it had or what a write gave it, and a property that its value loses is lost in a write.
-/

namespace KeyedWrites

universe u v

variable {κ : Type u} {ν : Type v} [DecidableEq κ]

/-- The values of the keys that are taken. -/
abbrev Map (κ : Type u) (ν : Type v) := κ → Option ν

/-- A write of one key: its new value, or none. -/
structure Write (κ : Type u) (ν : Type v) where
  key : κ
  /-- The key is expected to be free, else to be taken. -/
  fresh : Bool
  value : Option ν

/-- The write is carried out. -/
def Write.apply (t : Map κ ν) (w : Write κ ν) : Map κ ν := Function.update t w.key w.value

/-- The writes are carried out one after the other. -/
def applyAll (ws : List (Write κ ν)) (t : Map κ ν) : Map κ ν := ws.foldl Write.apply t

omit [DecidableEq κ] in
/-- The key is as the write expects it. -/
def Write.Fits (t : Map κ ν) (w : Write κ ν) : Prop :=
  if w.fresh then t w.key = none else (t w.key).isSome = true

/-- Every write finds its key as it expects it. -/
def FitAll : Map κ ν → List (Write κ ν) → Prop
  | _, [] => True
  | t, w :: ws => w.Fits t ∧ FitAll (w.apply t) ws

section Rules

variable {t : Map κ ν} {w : Write κ ν} {ws : List (Write κ ν)} {k : κ} {v : ν}

@[simp] theorem applyAll_nil : applyAll [] t = t := rfl

@[simp] theorem applyAll_cons : applyAll (w :: ws) t = applyAll ws (w.apply t) := rfl

theorem applyAll_append (ws' : List (Write κ ν)) :
    applyAll (ws ++ ws') t = applyAll ws' (applyAll ws t) := List.foldl_append

@[simp] theorem apply_key : w.apply t w.key = w.value := Function.update_self ..

theorem apply_of_ne (h : k ≠ w.key) : w.apply t k = t k := Function.update_of_ne h ..

/-- Writes of other keys leave a key alone. -/
theorem applyAll_of_untouched (h : ∀ w ∈ ws, w.key ≠ k) : applyAll ws t k = t k := by
  induction ws generalizing t with
  | nil => rfl
  | cons w ws ih =>
    rw [applyAll_cons, ih fun w' hw' => h w' (List.mem_cons_of_mem _ hw'),
      apply_of_ne (h w List.mem_cons_self).symm]

/-- The last write of a key decides on it. -/
theorem applyAll_eq_last (ws : List (Write κ ν)) (t : Map κ ν) (k : κ) :
    applyAll ws t k =
      match (ws.filter fun w => w.key = k).getLast? with
      | some w => w.value
      | none => t k := by
  induction ws using List.reverseRecOn with
  | nil => rfl
  | append_singleton ws w ih =>
    rw [applyAll_append, applyAll_cons, applyAll_nil, List.filter_append]
    by_cases hk : w.key = k
    · subst hk
      simp
    · rw [apply_of_ne (Ne.symm hk), ih, List.filter_cons_of_neg (by simpa using hk),
        List.filter_nil, List.append_nil]

/-- What a key has in the end it had before, or a write gave it. -/
theorem applyAll_eq_some (h : applyAll ws t k = some v) :
    t k = some v ∨ ∃ w ∈ ws, w.key = k ∧ w.value = some v := by
  induction ws generalizing t with
  | nil => exact Or.inl h
  | cons w ws ih =>
    rcases ih h with hw | ⟨w', hw', hkey, hvalue⟩
    · by_cases hk : k = w.key
      · rw [hk, apply_key] at hw
        exact Or.inr ⟨w, List.mem_cons_self, hk.symm, hw⟩
      · rw [apply_of_ne hk] at hw
        exact Or.inl hw
    · exact Or.inr ⟨w', List.mem_cons_of_mem _ hw', hkey, hvalue⟩

/-- A property that the value of a key has at first and not in the end is lost in a write of
the key that found it taken. -/
theorem exists_losing {P : ν → Prop} (hfit : FitAll t ws) (hfirst : ∃ v ∈ t k, P v)
    (hlast : ∀ v ∈ applyAll ws t k, ¬ P v) :
    ∃ w ∈ ws, w.key = k ∧ w.fresh = false ∧ ∀ v ∈ w.value, ¬ P v := by
  induction ws generalizing t with
  | nil =>
    obtain ⟨v, hv, hP⟩ := hfirst
    exact absurd hP (hlast v hv)
  | cons w ws ih =>
    have hstep : (∃ v ∈ w.apply t k, P v) →
        ∃ w' ∈ w :: ws, w'.key = k ∧ w'.fresh = false ∧ ∀ v ∈ w'.value, ¬ P v := by
      intro hnext
      obtain ⟨w', hw', hlost⟩ := ih hfit.2 hnext hlast
      exact ⟨w', List.mem_cons_of_mem _ hw', hlost⟩
    by_cases hk : k = w.key
    · by_cases hvalue : ∃ v ∈ w.value, P v
      · refine hstep ?_
        rw [hk, apply_key]
        exact hvalue
      · have hfresh : w.fresh = false := by
          cases hf : w.fresh with
          | false => rfl
          | true =>
            have hfree := hfit.1
            rw [Write.Fits, hf, if_pos rfl, ← hk] at hfree
            obtain ⟨v, hv, -⟩ := hfirst
            rw [hfree] at hv
            cases hv
        exact ⟨w, List.mem_cons_self, hk.symm, hfresh, fun v hv hP => hvalue ⟨v, hv, hP⟩⟩
    · refine hstep ?_
      rw [apply_of_ne hk]
      exact hfirst

/-- Removals free the keys that they name, and leave the others alone. -/
theorem applyAll_of_removals (hws : ∀ w ∈ ws, w.value = none) (k : κ) :
    applyAll ws t k = if ∃ w ∈ ws, w.key = k then none else t k := by
  split
  · next hnamed =>
    rw [applyAll_eq_last]
    cases hlast : (ws.filter fun w => w.key = k).getLast? with
    | none =>
      obtain ⟨w, hw, hk⟩ := hnamed
      rw [List.getLast?_eq_none_iff, List.filter_eq_nil_iff] at hlast
      exact absurd hk (by simpa using hlast w hw)
    | some w => exact hws w (List.mem_filter.mp (List.mem_of_getLast? hlast)).1
  · next hnone => exact applyAll_of_untouched fun w hw hk => hnone ⟨w, hw, hk⟩

/-- Writes fit one after the other. -/
theorem fitAll_append (ws' : List (Write κ ν)) :
    FitAll t (ws ++ ws') ↔ FitAll t ws ∧ FitAll (applyAll ws t) ws' := by
  induction ws generalizing t with
  | nil => simp [FitAll]
  | cons w ws ih => rw [List.cons_append, FitAll, FitAll, ih, applyAll_cons, and_assoc]

end Rules

end KeyedWrites
