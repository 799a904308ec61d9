import Mathlib

/-!
# Content-addressed graphs

Blocks are known by their content, so what a block of a given role links to depends on its
key alone; which blocks are at hand is a set of keys. A walk from a root passes only through
blocks that are at hand. A set is complete for a root when no walk leaves it.
-/

namespace ContentGraph

universe u v

variable {ρ : Type u} {κ : Type v}

/-- The nodes that a walk from the root comes to, through blocks that are at hand. -/
inductive Reach (links : ρ → κ → List (ρ × κ)) (present : Set κ) (root : ρ × κ) :
    ρ × κ → Prop where
  | root : Reach links present root root
  | step {n m : ρ × κ} : Reach links present root n → n.2 ∈ present → m ∈ links n.1 n.2 →
      Reach links present root m

/-- The keys that a walk comes to, in whatever role. -/
def Reachable (links : ρ → κ → List (ρ × κ)) (present : Set κ) (root : ρ × κ) : Set κ :=
  {k | ∃ r, Reach links present root (r, k)}

/-- Everything that a walk from the root comes to is at hand. -/
def Complete (links : ρ → κ → List (ρ × κ)) (present : Set κ) (root : ρ × κ) : Prop :=
  Reachable links present root ⊆ present

section Rules

variable {links : ρ → κ → List (ρ × κ)} {s t : Set κ} {root n : ρ × κ}

/-- More blocks at hand open more walks. -/
theorem Reach.mono (hst : s ⊆ t) (h : Reach links s root n) : Reach links t root n := by
  induction h with
  | root => exact .root
  | step _ hmem hlink ih => exact ih.step (hst hmem) hlink

theorem reachable_mono (hst : s ⊆ t) : Reachable links s root ⊆ Reachable links t root :=
  fun _ ⟨r, h⟩ => ⟨r, h.mono hst⟩

/-- A complete set is left by no walk, whatever else is at hand. -/
theorem Complete.reach (h : Complete links s root) (hn : Reach links t root n) :
    Reach links s root n := by
  induction hn with
  | root => exact .root
  | @step n m _ _ hlink ih => exact ih.step (h ⟨n.1, ih⟩) hlink

/-- Adding blocks to a complete set changes nothing that is reachable. -/
theorem Complete.reachable_eq (h : Complete links s root) (hst : s ⊆ t) :
    Reachable links t root = Reachable links s root :=
  Set.Subset.antisymm (fun _ ⟨r, hr⟩ => ⟨r, h.reach hr⟩) (reachable_mono hst)

theorem Complete.mono (h : Complete links s root) (hst : s ⊆ t) : Complete links t root := by
  rw [Complete, h.reachable_eq hst]
  exact h.trans hst

end Rules

end ContentGraph
