import Mathlib

/-!
# Reference counting

A table knows objects by their key, each with the set of its referrers. An object that loses
its last referrer is deleted, unless its removal fails; an object that never had one stays.
-/

namespace RefCount

universe u v

variable {κ : Type u} {υ : Type v} [DecidableEq κ] [DecidableEq υ]

/-- The referrers of every object that is stored. -/
abbrev Table (κ : Type u) (υ : Type v) := κ → Option (Finset υ)

/-- A stored object gains a referrer. -/
def link (t : Table κ υ) (pair : κ × υ) : Table κ υ :=
  Function.update t pair.1 ((t pair.1).map (insert pair.2))

/-- What is left of an object that loses a referrer. -/
def drop (removes : Bool) (u : υ) (refs : Finset υ) : Option (Finset υ) :=
  if u ∈ refs ∧ refs.erase u = ∅ ∧ removes = true then none else some (refs.erase u)

/-- A stored object loses a referrer. -/
def unlink (removes : κ → Bool) (t : Table κ υ) (pair : κ × υ) : Table κ υ :=
  Function.update t pair.1 ((t pair.1).bind (drop (removes pair.1) pair.2))

/-- The links one after the other. -/
def linkAll (pairs : List (κ × υ)) (t : Table κ υ) : Table κ υ := pairs.foldl link t

/-- The unlinks one after the other. -/
def unlinkAll (removes : κ → Bool) (pairs : List (κ × υ)) (t : Table κ υ) : Table κ υ :=
  pairs.foldl (unlink removes) t

/-- The referrers that the pairs name for a key. -/
def named (pairs : List (κ × υ)) (k : κ) : Finset υ :=
  ((pairs.filter fun p => p.1 = k).map Prod.snd).toFinset

section Rules

variable {removes : κ → Bool} {pairs : List (κ × υ)} {t : Table κ υ} {k : κ} {u : υ}

@[simp] theorem mem_named : u ∈ named pairs k ↔ (k, u) ∈ pairs := by
  simp only [named, List.mem_toFinset, List.mem_map, List.mem_filter, decide_eq_true_eq]
  constructor
  · rintro ⟨⟨k', u'⟩, ⟨hmem, rfl⟩, rfl⟩
    exact hmem
  · exact fun h => ⟨(k, u), ⟨h, rfl⟩, rfl⟩

/-- Links delete nothing, and add the referrers they name. -/
theorem linkAll_apply (pairs : List (κ × υ)) (t : Table κ υ) (k : κ) :
    linkAll pairs t k = (t k).map (· ∪ named pairs k) := by
  induction pairs generalizing t with
  | nil => cases h : t k <;> simp [linkAll, named, h]
  | cons pair pairs ih =>
    obtain ⟨k', u'⟩ := pair
    have hstep := ih (link t (k', u'))
    rw [linkAll, List.foldl_cons]
    rw [linkAll] at hstep
    rw [hstep, link]
    by_cases hk : k = k'
    · subst hk
      rw [Function.update_self]
      cases t k with
      | none => rfl
      | some refs =>
        simp only [Option.map_some, Option.some.injEq]
        ext u
        simp only [Finset.mem_union, Finset.mem_insert, mem_named, List.mem_cons, Prod.mk.injEq,
          true_and]
        tauto
    · rw [Function.update_of_ne hk]
      have hnamed : named ((k', u') :: pairs) k = named pairs k := by
        ext u
        simp [hk]
      rw [hnamed]

/-- One unlink, seen from a key. -/
theorem unlink_apply (removes : κ → Bool) (t : Table κ υ) (pair : κ × υ) (k : κ) :
    unlink removes t pair k =
      if k = pair.1 then (t k).bind (drop (removes k) pair.2) else t k := by
  by_cases hk : k = pair.1
  · rw [if_pos hk, hk, unlink, Function.update_self]
  · rw [if_neg hk, unlink, Function.update_of_ne hk]

/-- An object that is not stored is not brought back. -/
theorem unlinkAll_of_none (h : t k = none) : unlinkAll removes pairs t k = none := by
  induction pairs generalizing t with
  | nil => exact h
  | cons pair pairs ih =>
    apply ih
    rw [unlink_apply, h]
    split <;> rfl

/-- An object without referrers is left alone. -/
theorem unlinkAll_of_empty (h : t k = some ∅) : unlinkAll removes pairs t k = some ∅ := by
  induction pairs generalizing t with
  | nil => exact h
  | cons pair pairs ih =>
    apply ih
    rw [unlink_apply, h]
    split <;> simp [drop]

/-- An object that has referrers is deleted when all of them go and its removal succeeds. -/
theorem unlinkAll_eq_none_iff {refs : Finset υ} (h : t k = some refs) (hrefs : refs.Nonempty) :
    unlinkAll removes pairs t k = none ↔
      removes k = true ∧ ∀ u ∈ refs, (k, u) ∈ pairs := by
  induction pairs generalizing t refs with
  | nil =>
    obtain ⟨u, hu⟩ := hrefs
    simp only [unlinkAll, List.foldl_nil, h, List.not_mem_nil, reduceCtorEq, false_iff]
    exact fun hall => hall.2 u hu
  | cons pair pairs ih =>
    obtain ⟨k', u'⟩ := pair
    have hstep : unlinkAll removes ((k', u') :: pairs) t k =
        unlinkAll removes pairs (unlink removes t (k', u')) k := rfl
    have hone := unlink_apply removes t (k', u') k
    rw [hstep]
    by_cases hk : k = k'
    · subst hk
      rw [if_pos rfl, h, Option.bind_some] at hone
      -- the referrers that are left have to be named by the other pairs
      have hrest : (∀ u ∈ refs, (k, u) ∈ (k, u') :: pairs) ↔
          ∀ u ∈ refs.erase u', (k, u) ∈ pairs := by
        simp only [List.mem_cons, Prod.mk.injEq, true_and, Finset.mem_erase]
        constructor
        · exact fun hall u hu => (hall u hu.2).resolve_left hu.1
        · intro hall u hu
          by_cases heq : u = u'
          · exact Or.inl heq
          · exact Or.inr (hall u ⟨heq, hu⟩)
      by_cases hempty : refs.erase u' = ∅
      · have hmem : u' ∈ refs := by
          by_contra hnot
          rw [Finset.erase_eq_of_notMem hnot] at hempty
          exact hrefs.ne_empty hempty
        rw [hrest, hempty]
        cases hremoves : removes k with
        | true =>
          have hgone : unlink removes t (k, u') k = none := by
            rw [hone, drop, if_pos ⟨hmem, hempty, hremoves⟩]
          simp [unlinkAll_of_none hgone]
        | false =>
          have hstays : unlink removes t (k, u') k = some ∅ := by
            rw [hone, drop, if_neg (by simp [hremoves]), hempty]
          simp [unlinkAll_of_empty hstays]
      · have hleft : unlink removes t (k, u') k = some (refs.erase u') := by
          rw [hone, drop, if_neg fun hall => hempty hall.2.1]
        rw [ih hleft (Finset.nonempty_iff_ne_empty.mpr hempty), hrest]
    · rw [if_neg hk, h] at hone
      rw [ih hone hrefs]
      simp [hk]

/-- An object that is left has the referrers that do not go. -/
theorem mem_of_unlinkAll {refs refs' : Finset υ} (h : t k = some refs)
    (h' : unlinkAll removes pairs t k = some refs') :
    u ∈ refs' ↔ u ∈ refs ∧ (k, u) ∉ pairs := by
  induction pairs generalizing t refs with
  | nil =>
    have heq : some refs = some refs' := h.symm.trans h'
    cases heq
    simp
  | cons pair pairs ih =>
    obtain ⟨k', u'⟩ := pair
    have hstep : unlinkAll removes pairs (unlink removes t (k', u')) k = some refs' := h'
    have hone := unlink_apply removes t (k', u') k
    by_cases hk : k = k'
    · subst hk
      rw [if_pos rfl, h, Option.bind_some, drop] at hone
      split at hone
      · rw [unlinkAll_of_none hone] at hstep
        cases hstep
      · rw [ih hone hstep]
        simp only [Finset.mem_erase, List.mem_cons, Prod.mk.injEq, true_and, not_or]
        tauto
    · rw [if_neg hk, h] at hone
      rw [ih hone hstep]
      simp [hk]

/-- Links to one referrer, seen from a key. -/
theorem linkAll_of_one_referrer (keys : List κ) (u : υ) (t : Table κ υ) (k : κ) :
    linkAll (keys.map (·, u)) t k = if k ∈ keys then (t k).map (insert u) else t k := by
  rw [linkAll_apply]
  split
  · next hmem =>
    have hnamed : named (keys.map (·, u)) k = {u} := by
      ext v
      simp [hmem, eq_comm]
    rw [hnamed]
    congr 1
    funext refs
    rw [Finset.union_comm]
    rfl
  · next hnot =>
    have hnamed : named (keys.map (·, u)) k = ∅ := by
      ext v
      simp [hnot]
    rw [hnamed]
    simp

/-- A referrer that is gone is not lost again. -/
theorem drop_bind_drop (r : Bool) (u : υ) (x : Option (Finset υ)) :
    (x.bind (drop r u)).bind (drop r u) = x.bind (drop r u) := by
  cases x with
  | none => rfl
  | some refs =>
    simp only [Option.bind_some, drop]
    split
    · rfl
    · simp [drop]

/-- Unlinks from one referrer, seen from a key. -/
theorem unlinkAll_of_one_referrer (removes : κ → Bool) (keys : List κ) (u : υ) (t : Table κ υ)
    (k : κ) : unlinkAll removes (keys.map (·, u)) t k =
      if k ∈ keys then (t k).bind (drop (removes k) u) else t k := by
  induction keys generalizing t with
  | nil => rfl
  | cons key keys ih =>
    have hstep : unlinkAll removes ((key :: keys).map (·, u)) t k =
        unlinkAll removes (keys.map (·, u)) (unlink removes t (key, u)) k := rfl
    rw [hstep, ih, unlink_apply]
    by_cases hk : k = key
    · subst hk
      rw [if_pos rfl, if_pos (List.mem_cons_self (l := keys) (a := k))]
      split
      · rw [drop_bind_drop]
      · rfl
    · rw [if_neg hk]
      simp only [List.mem_cons, hk, false_or]

/-- A round of links followed by a round of unlinks deletes an object exactly if it then has
referrers, all of which go, and its removal succeeds. -/
theorem relink_eq_none_iff {refs : Finset υ} {added dropped : List (κ × υ)}
    (h : t k = some refs) :
    unlinkAll removes dropped (linkAll added t) k = none ↔
      (refs ∪ named added k).Nonempty ∧ removes k = true ∧
        ∀ u ∈ refs ∪ named added k, (k, u) ∈ dropped := by
  have hlinked : linkAll added t k = some (refs ∪ named added k) := by
    rw [linkAll_apply, h]
    rfl
  by_cases hrefs : (refs ∪ named added k).Nonempty
  · rw [unlinkAll_eq_none_iff hlinked hrefs]
    simp only [hrefs, true_and]
  · rw [Finset.not_nonempty_iff_eq_empty] at hrefs
    rw [hrefs] at hlinked
    simp [unlinkAll_of_empty hlinked, hrefs]

/-- What an object refers to after a round of links followed by a round of unlinks. -/
theorem mem_of_relink {refs refs' : Finset υ} {added dropped : List (κ × υ)} (h : t k = some refs)
    (h' : unlinkAll removes dropped (linkAll added t) k = some refs') :
    u ∈ refs' ↔ (u ∈ refs ∨ (k, u) ∈ added) ∧ (k, u) ∉ dropped := by
  have hlinked : linkAll added t k = some (refs ∪ named added k) := by
    rw [linkAll_apply, h]
    rfl
  rw [mem_of_unlinkAll hlinked h', Finset.mem_union, mem_named]

end Rules

end RefCount
