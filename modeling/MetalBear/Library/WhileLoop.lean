import Mathlib

/-!
# Loops that may run forever

A loop with a test and a body, run with a bound on its turns. It returns when some bound is
enough; more turns than that change nothing.
-/

universe u

namespace WhileLoop

variable {σ : Type u}

/-- Run the body as long as the test holds, for at most the given number of turns. -/
def whileLoop (test : σ → Bool) (body : σ → σ) : Nat → σ → Option σ
  | 0, _ => none
  | n + 1, s => if test s then whileLoop test body n (body s) else some s

variable {test : σ → Bool} {body : σ → σ} {n : Nat} {s s' : σ}

theorem whileLoop_of_true (h : test s = true) :
    whileLoop test body (n + 1) s = whileLoop test body n (body s) :=
  if_pos h

theorem whileLoop_of_false (h : test s = false) : whileLoop test body (n + 1) s = some s :=
  if_neg (by simp [h])

/-- A loop that has returned returns the same with more turns. -/
theorem whileLoop_mono {m : Nat} (hnm : n ≤ m) (h : whileLoop test body n s = some s') :
    whileLoop test body m s = some s' := by
  induction n generalizing s m with
  | zero => cases h
  | succ n ih =>
    obtain ⟨m, rfl⟩ := Nat.exists_eq_add_of_le' hnm
    rw [← Nat.add_assoc]
    rw [← Nat.add_assoc] at hnm
    cases htest : test s with
    | true =>
      rw [whileLoop_of_true htest] at h ⊢
      exact ih (Nat.le_of_succ_le_succ hnm) h
    | false =>
      rw [whileLoop_of_false htest] at h ⊢
      exact h

/-- A loop whose test holds as long as an invariant does never returns. -/
theorem whileLoop_eq_none {J : σ → Prop} (h0 : J s) (htest : ∀ s, J s → test s = true)
    (hbody : ∀ s, J s → J (body s)) : whileLoop test body n s = none := by
  induction n generalizing s with
  | zero => rfl
  | succ n ih =>
    rw [whileLoop_of_true (htest s h0)]
    exact ih (hbody s h0)

end WhileLoop
