import MetalBear.Library.Machine

/-!
# Tokens that are given and spent

Events give tokens and spend them, and a state holds some of them. Where no step leaves more held
than what was held before and given by its events, less what they spent, no run spends a token more
often than it was given. Nothing is assumed of how tokens are chosen.
-/

namespace Spending

open Machine

universe u v

variable {σ : Type u} {α : Type v} {ε κ : Type*} [DecidableEq κ]

/-- The token that an event gives, and the one that it spends. -/
structure Ledger (ε κ : Type*) where
  gives : ε → Option κ
  spends : ε → Option κ

variable {L : Ledger ε κ} {before between after : κ → Bool} {events events' : List ε} {k : κ}

/-- How often a token is given. -/
def Ledger.given (L : Ledger ε κ) (events : List ε) (k : κ) : Nat :=
  events.countP fun e => L.gives e = some k

/-- How often it is spent. -/
def Ledger.spent (L : Ledger ε κ) (events : List ε) (k : κ) : Nat :=
  events.countP fun e => L.spends e = some k

/-- The events account for the tokens that are held after them. -/
def Accounts (L : Ledger ε κ) (before : κ → Bool) (events : List ε) (after : κ → Bool) : Prop :=
  ∀ k, L.spent events k + (after k).toNat ≤ L.given events k + (before k).toNat

/-- Without an event tokens can only be lost. -/
theorem accounts_nil (h : ∀ k, after k = true → before k = true) :
    Accounts L before [] after := by
  intro k
  have hle : (after k).toNat ≤ (before k).toNat := Bool.toNat_le_toNat (h k)
  exact Nat.add_le_add_left hle 0

theorem Accounts.append (h : Accounts L before events between)
    (h' : Accounts L between events' after) : Accounts L before (events ++ events') after := by
  intro k
  have hfirst := h k
  have hsecond := h' k
  rw [Ledger.spent, Ledger.given, List.countP_append, List.countP_append]
  rw [Ledger.spent, Ledger.given] at hfirst hsecond
  omega

/-- An event that gives a token where none is held, and spends one that is held. -/
theorem accounts_single {e : ε} (hspends : ∀ k, L.spends e = some k → before k = true)
    (hafter : ∀ k, after k = true → L.gives e = some k ∨ before k = true ∧ L.spends e ≠ some k) :
    Accounts L before [e] after := by
  intro k
  rw [Ledger.spent, Ledger.given, List.countP_singleton, List.countP_singleton]
  have hs := hspends k
  have ha := hafter k
  by_cases hspend : L.spends e = some k
  · rw [hs hspend, if_pos (decide_eq_true hspend)]
    by_cases hgive : L.gives e = some k
    · rw [if_pos (decide_eq_true hgive)]
      exact Nat.add_le_add_left (Bool.toNat_le _) 1
    · have hfalse : after k = false := by
        rw [← Bool.not_eq_true]
        intro htrue
        exact (ha htrue).elim hgive fun h => h.2 hspend
      rw [hfalse]
      exact Nat.le_add_left _ _
  · rw [if_neg (by simpa using hspend)]
    by_cases hgive : L.gives e = some k
    · rw [if_pos (decide_eq_true hgive), Nat.zero_add]
      exact (Bool.toNat_le _).trans (Nat.le_add_right _ _)
    · rw [if_neg (by simpa using hgive)]
      refine Nat.add_le_add_left (Bool.toNat_le_toNat fun htrue => ?_) 0
      exact ((ha htrue).resolve_left hgive).1

/-! ## Runs -/

/-- An event among those so far and the last one is the last, or one of those so far. -/
theorem concat_eq_split {last e : ε} {before later : List ε}
    (h : events ++ [last] = before ++ e :: later) :
    before = events ∧ e = last ∨ ∃ later', events = before ++ e :: later' := by
  obtain rfl | ⟨later', e', rfl⟩ := List.eq_nil_or_concat later
  · obtain ⟨hbefore, hlast⟩ := List.append_inj' h rfl
    exact .inl ⟨hbefore.symm, (List.cons.inj hlast).1.symm⟩
  · rw [List.concat_eq_append, ← List.cons_append, ← List.append_assoc] at h
    exact .inr ⟨later', (List.append_inj' h rfl).1⟩

/-- A machine that writes down its events. -/
def logged (serve : σ → α → σ × List ε) (s : σ × List ε) (a : α) : σ × List ε :=
  ((serve s.1 a).1, s.2 ++ (serve s.1 a).2)

/-- If every step is accounted for, so is every run. -/
theorem accounts_exec (serve : σ → α → σ × List ε) (holds : σ → κ → Bool)
    (hstep : ∀ s a, Accounts L (holds s) (serve s a).2 (holds (serve s a).1)) (s : σ)
    (run : List α) : Accounts L (holds s) (exec (logged serve) (s, []) run).2
      (holds (exec (logged serve) (s, []) run).1) := by
  refine exec_of_invariant (P := fun p : σ × List ε => Accounts L (holds s) p.2 (holds p.1)) ?_ ?_
  · exact accounts_nil fun _ => id
  · exact fun p a hp => hp.append (hstep p.1 a)

/-! ## Tokens that are given once -/

theorem Ledger.given_eq_count (L : Ledger ε κ) (events : List ε) (k : κ) :
    L.given events k = (events.filterMap L.gives).count k := by
  rw [Ledger.given, List.count, List.countP_filterMap]
  congr 1
  funext e
  cases h : L.gives e with
  | none => rfl
  | some given =>
    rw [Bool.eq_iff_iff]
    simp

omit [DecidableEq κ] in
/-- Where no token is given twice, the event that gives one is the only one that does. -/
theorem eq_of_gives (hfresh : (events.filterMap L.gives).Nodup) {e e' : ε} (he : e ∈ events)
    (he' : e' ∈ events) (hk : L.gives e = some k) (hk' : L.gives e' = some k) : e = e' := by
  induction events with
  | nil => cases he
  | cons head rest ih =>
    have hnone : L.gives head = some k → ∀ other ∈ rest, L.gives other ≠ some k := by
      intro hhead other hother hgives
      rw [List.filterMap_cons_some hhead, List.nodup_cons] at hfresh
      exact hfresh.1 (List.mem_filterMap.mpr ⟨other, hother, hgives⟩)
    have hrest : (rest.filterMap L.gives).Nodup :=
      hfresh.sublist ((List.sublist_cons_self head rest).filterMap _)
    obtain rfl | hold := List.mem_cons.mp he
    · obtain rfl | hold' := List.mem_cons.mp he'
      · rfl
      · exact absurd hk' (hnone hk e' hold')
    · obtain rfl | hold' := List.mem_cons.mp he'
      · exact absurd hk (hnone hk' e hold)
      · exact ih hrest hold hold'

omit [DecidableEq κ] in
/-- A run gives no other tokens than its steps have drawn. -/
theorem gives_exec_sublist (serve : σ → α → σ × List ε) (drawn : α → Option κ)
    (hstep : ∀ s a, ((serve s a).2.filterMap L.gives).Sublist (drawn a).toList) (s : σ)
    (events : List ε) (run : List α) :
    ((exec (logged serve) (s, events) run).2.filterMap L.gives).Sublist
      (events.filterMap L.gives ++ run.filterMap drawn) := by
  induction run generalizing s events with
  | nil => simp
  | cons a run ih =>
    have hdrawn : (a :: run).filterMap drawn = (drawn a).toList ++ run.filterMap drawn := by
      cases h : drawn a with
      | none => rw [List.filterMap_cons_none h]; rfl
      | some k => rw [List.filterMap_cons_some h]; rfl
    rw [exec_cons, hdrawn, ← List.append_assoc]
    refine (ih _ _).trans (List.Sublist.append_right ?_ _)
    change ((events ++ (serve s a).2).filterMap L.gives).Sublist _
    rw [List.filterMap_append]
    exact (hstep s a).append_left _

end Spending
