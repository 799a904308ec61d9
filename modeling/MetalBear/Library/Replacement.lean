import MetalBear.Library.RefCount

/-!
# Two replacements of one value

Two parties replace one value. Each reads it, writes its own, links the objects that its own
value names, and unlinks those that only the value it has read names. The steps of the two
interleave freely. What becomes of one object is read off the order of four of them.
-/

namespace Replacement

open RefCount

universe u

/-! ## Histories -/

/-- The steps of a replacement, in their order. -/
inductive Step where
  | read
  | write
  | link
  | unlink
  deriving DecidableEq, Repr

/-- The step that has to come before. -/
def Step.prior : Step → Option Step
  | read => none
  | write => some read
  | link => some write
  | unlink => some link

/-- A party takes a step. -/
abbrev Event := Bool × Step

/-- The steps that have been taken, the latest first: each party takes its own in their order
and none of them twice. -/
inductive History : List Event → Prop
  | nil : History []
  | cons {p : Bool} {s : Step} {h : List Event} : History h → (p, s) ∉ h →
      (∀ r ∈ s.prior, (p, r) ∈ h) → History ((p, s) :: h)

/-- One event comes before another. -/
def Before (h : List Event) (a b : Event) : Prop := [b, a].Sublist h

instance (h : List Event) (a b : Event) : Decidable (Before h a b) :=
  inferInstanceAs (Decidable ([b, a].Sublist h))

section Order

variable {h : List Event} {a b e : Event} {p : Bool} {s : Step}

theorem History.nodup (hist : History h) : h.Nodup := by
  induction hist with
  | nil => exact List.nodup_nil
  | cons _ hnot _ ih => exact List.nodup_cons.mpr ⟨hnot, ih⟩

/-- A step that has been taken was preceded by the one before it. -/
theorem History.prior (hist : History h) (hmem : (p, s) ∈ h) {r : Step} (hr : r ∈ s.prior) :
    (p, r) ∈ h := by
  induction hist with
  | nil => cases hmem
  | cons _ _ hprior ih =>
    rcases List.mem_cons.mp hmem with heq | htail
    · cases heq
      exact List.mem_cons_of_mem _ (hprior r hr)
    · exact List.mem_cons_of_mem _ (ih htail)

theorem Before.left (hab : Before h a b) : a ∈ h := hab.subset (by simp)

theorem Before.right (hab : Before h a b) : b ∈ h := hab.subset (by simp)

/-- The order of two events, seen at the latest one. -/
theorem before_cons : Before (e :: h) a b ↔ Before h a b ∨ e = b ∧ a ∈ h := by
  simp only [Before]
  constructor
  · intro hsub
    cases hsub with
    | cons _ hsub => exact Or.inl hsub
    | cons_cons _ hsub => exact Or.inr ⟨rfl, List.singleton_sublist.mp hsub⟩
  · rintro (hsub | ⟨rfl, hmem⟩)
    · exact hsub.cons _
    · exact (List.singleton_sublist.mpr hmem).cons_cons _

/-- Of two events that have both happened one came first. -/
theorem before_or_before (ha : a ∈ h) (hb : b ∈ h) (hne : a ≠ b) : Before h a b ∨ Before h b a := by
  induction h with
  | nil => cases ha
  | cons e h ih =>
    rw [before_cons, before_cons]
    rcases List.mem_cons.mp ha with hae | ha'
    · rcases List.mem_cons.mp hb with hbe | hb'
      · exact absurd (hae.trans hbe.symm) hne
      · exact Or.inr (Or.inr ⟨hae.symm, hb'⟩)
    · rcases List.mem_cons.mp hb with hbe | hb'
      · exact Or.inl (Or.inr ⟨hbe.symm, ha'⟩)
      · exact (ih ha' hb').imp Or.inl Or.inl

/-- An order of two events excludes the other. -/
theorem Before.asymm (hnodup : h.Nodup) (hab : Before h a b) : ¬ Before h b a := by
  induction h with
  | nil => exact absurd hab.left List.not_mem_nil
  | cons e h ih =>
    obtain ⟨hnot, hnodup⟩ := List.nodup_cons.mp hnodup
    rw [before_cons] at hab ⊢
    rintro (hba | ⟨rfl, hb⟩)
    · rcases hab with hab | ⟨rfl, -⟩
      · exact ih hnodup hab hba
      · exact hnot hba.left
    · rcases hab with hab | ⟨rfl, -⟩
      · exact hnot hab.left
      · exact hnot hb

theorem Before.trans {c : Event} (hnodup : h.Nodup) (hab : Before h a b) (hbc : Before h b c) :
    Before h a c := by
  induction h with
  | nil => exact absurd hab.left List.not_mem_nil
  | cons e h ih =>
    obtain ⟨hnot, hnodup⟩ := List.nodup_cons.mp hnodup
    rw [before_cons] at hab hbc ⊢
    rcases hbc with hbc | ⟨rfl, hb⟩
    · rcases hab with hab | ⟨rfl, -⟩
      · exact Or.inl (ih hnodup hab hbc)
      · exact absurd hbc.left hnot
    · rcases hab with hab | ⟨rfl, -⟩
      · exact Or.inr ⟨rfl, hab.left⟩
      · exact absurd hb hnot

/-- A step and the one before it. -/
theorem History.before_prior (hist : History h) (hmem : (p, s) ∈ h) {r : Step}
    (hr : r ∈ s.prior) : Before h (p, r) (p, s) := by
  induction hist with
  | nil => cases hmem
  | cons _ _ hprior ih =>
    rw [before_cons]
    rcases List.mem_cons.mp hmem with heq | htail
    · cases heq
      exact Or.inr ⟨rfl, hprior r hr⟩
    · exact Or.inl (ih htail)

end Order

/-! ## One object -/

/-- What the values say of the object: whether the first one names it, and that of each
party. A party's unlink can fail to remove the object. -/
structure Setting where
  old : Bool
  new : Bool → Bool
  removes : Bool → Bool

namespace Setting

variable {υ : Type u} [DecidableEq υ] (S : Setting) (u : υ)

/-- The value names the object. -/
def valueNames : List Event → Bool
  | [] => S.old
  | (p, .write) :: _ => S.new p
  | (_, _) :: h => valueNames h

/-- The value that the party has read names the object. -/
def readNames (p : Bool) : List Event → Bool
  | [] => false
  | (q, s) :: h => if q = p ∧ s = .read then S.valueNames h else readNames p h

/-- What a step does to the object, where the parties have read what they have. -/
def act (reads : Bool → Bool) (e : Event) (entry : Option (Finset υ)) : Option (Finset υ) :=
  match e with
  | (p, .link) => if S.new p then entry.map (insert u) else entry
  | (p, .unlink) =>
    if reads p = true ∧ S.new p = false then entry.bind (drop (S.removes p) u) else entry
  | _ => entry

/-- The object after the steps. -/
def entry (start : Option (Finset υ)) : List Event → Option (Finset υ)
  | [] => start
  | e :: h => S.act u (fun p => S.readNames p h) e (entry start h)

variable {S u} {h : List Event} {first last p : Bool} {start : Option (Finset υ)}

/-! ## Values and reads -/

theorem valueNames_cons_of_ne {s : Step} (hs : s ≠ .write) :
    S.valueNames ((p, s) :: h) = S.valueNames h := by
  cases s with
  | write => exact absurd rfl hs
  | read => rfl
  | link => rfl
  | unlink => rfl

theorem valueNames_of_no_write (hnone : ∀ p, (p, Step.write) ∉ h) : S.valueNames h = S.old := by
  induction h with
  | nil => rfl
  | cons e h ih =>
    obtain ⟨p, s⟩ := e
    have hs : s ≠ .write := by
      rintro rfl
      exact hnone p List.mem_cons_self
    rw [valueNames_cons_of_ne hs, ih fun q hq => hnone q (List.mem_cons_of_mem _ hq)]

/-- The value is that of the party that has written last. -/
theorem valueNames_of_last (hmem : (last, Step.write) ∈ h)
    (hlast : ¬ Before h (last, .write) ((!last), .write)) : S.valueNames h = S.new last := by
  induction h with
  | nil => cases hmem
  | cons e h ih =>
    obtain ⟨q, s⟩ := e
    rw [before_cons, not_or] at hlast
    by_cases heq : (q, s) = (last, .write)
    · cases heq
      rfl
    · have htail := (List.mem_cons.mp hmem).resolve_left fun h => heq h.symm
      have hs : s ≠ .write := by
        rintro rfl
        have hq : q = !last := Bool.eq_not_of_ne fun h => heq (by rw [h])
        exact hlast.2 ⟨by rw [hq], htail⟩
      rw [valueNames_cons_of_ne hs, ih htail hlast.1]

theorem readNames_cons_of_ne {e : Event} (he : e ≠ (p, .read)) :
    S.readNames p (e :: h) = S.readNames p h := by
  obtain ⟨q, s⟩ := e
  rw [readNames, if_neg]
  rintro ⟨rfl, rfl⟩
  exact he rfl

/-- A party reads the value of the other one if that has written it before. -/
theorem readNames_eq (hist : History h) (hread : (p, Step.read) ∈ h) :
    S.readNames p h =
      if Before h ((!p), .write) (p, .read) then S.new (!p) else S.old := by
  induction hist with
  | nil => cases hread
  | @cons q s h hist hnot hprior ih =>
    simp only [before_cons]
    by_cases heq : (q, s) = (p, .read)
    · cases heq
      have hown : (p, Step.write) ∉ h := fun hw => hnot (hist.prior hw rfl)
      rw [readNames, if_pos ⟨rfl, rfl⟩]
      by_cases hother : ((!p), Step.write) ∈ h
      · rw [if_pos (Or.inr ⟨rfl, hother⟩)]
        exact valueNames_of_last hother fun hb => hown (by simpa using hb.right)
      · have hnone : ∀ r, (r, Step.write) ∉ h := by
          intro r
          rcases Bool.eq_or_eq_not r p with rfl | rfl
          · exact hown
          · exact hother
        rw [if_neg (by rintro (hb | ⟨-, hw⟩); exacts [hother hb.left, hother hw]),
          valueNames_of_no_write hnone]
    · have htail := (List.mem_cons.mp hread).resolve_left fun h => heq h.symm
      rw [readNames_cons_of_ne heq, ih htail]
      simp [heq]

/-! ## The steps that matter -/

/-- What the parties have read once they unlink is what they have read in the end. -/
theorem entry_eq_foldr (hist : History h) {reads : Bool → Bool}
    (hreads : ∀ p, (p, Step.unlink) ∈ h → reads p = S.readNames p h) :
    S.entry u start h = h.foldr (S.act u reads) start := by
  induction hist with
  | nil => rfl
  | @cons q s h hist hnot hprior ih =>
    have hkeep : ∀ p, (p, Step.unlink) ∈ (q, s) :: h → (p, Step.unlink) ∈ h ∨ (q, s) = (p, .unlink) :=
      fun p hp => (List.mem_cons.mp hp).symm.imp id Eq.symm
    have htail : ∀ p, (p, Step.unlink) ∈ h → reads p = S.readNames p h := by
      intro p hp
      rw [hreads p (List.mem_cons_of_mem _ hp), readNames_cons_of_ne]
      intro heq
      have hlink := hist.prior hp rfl
      exact hnot (heq ▸ hist.prior (hist.prior hlink rfl) rfl)
    rw [entry, List.foldr_cons, ih htail]
    cases s with
    | unlink =>
      have hq : reads q = S.readNames q h := by
        rw [hreads q List.mem_cons_self, readNames_cons_of_ne (by simp)]
      simp only [act, hq]
    | read => rfl
    | write => rfl
    | link => rfl

/-- Steps without effect can be left out. -/
theorem foldr_of_id {β : Type u} {f : Event → β → β} (hid : ∀ e ∈ h, ∀ x, f e x = x) (x : β) :
    h.foldr f x = x := by
  induction h with
  | nil => rfl
  | cons e h ih =>
    rw [List.foldr_cons, ih fun e he => hid e (List.mem_cons_of_mem _ he)]
    exact hid e List.mem_cons_self x

/-- If only one step has an effect, the effect is its own. -/
theorem foldr_of_mem {β : Type u} {f : Event → β → β} {a : Event} (hnodup : h.Nodup) (ha : a ∈ h)
    (hid : ∀ e ∈ h, e ≠ a → ∀ x, f e x = x) (x : β) : h.foldr f x = f a x := by
  induction h with
  | nil => cases ha
  | cons e h ih =>
    obtain ⟨hnot, hnodup⟩ := List.nodup_cons.mp hnodup
    rw [List.foldr_cons]
    rcases List.mem_cons.mp ha with rfl | ha
    · rw [foldr_of_id fun c hc => hid c (List.mem_cons_of_mem _ hc) fun h => hnot (h ▸ hc)]
    · rw [ih hnodup ha fun c hc => hid c (List.mem_cons_of_mem _ hc)]
      exact hid e List.mem_cons_self (fun h => hnot (h ▸ ha)) _

/-- If only two steps have an effect, the effect is theirs in their order. -/
theorem foldr_of_before {β : Type u} {f : Event → β → β} {a b : Event} (hnodup : h.Nodup)
    (hab : Before h a b) (hid : ∀ e, e ≠ a → e ≠ b → ∀ x, f e x = x) (x : β) :
    h.foldr f x = f b (f a x) := by
  induction h with
  | nil => exact absurd hab.left List.not_mem_nil
  | cons e h ih =>
    obtain ⟨hnot, hnodup⟩ := List.nodup_cons.mp hnodup
    rw [List.foldr_cons]
    rcases before_cons.mp hab with htail | ⟨rfl, ha⟩
    · rw [ih hnodup htail]
      exact hid e (fun h => hnot (h ▸ htail.left)) (fun h => hnot (h ▸ htail.right)) _
    · rw [foldr_of_mem hnodup ha fun c hc hca => hid c hca fun h => hnot (h ▸ hc)]

/-- The step of a party by which it can change the object: its link if its own value names
the object, and its unlink otherwise. -/
def deciding (S : Setting) (p : Bool) : Event := (p, if S.new p then .link else .unlink)

theorem deciding_mem (hist : History h) (hend : (p, Step.unlink) ∈ h) : S.deciding p ∈ h := by
  rw [deciding]
  split
  · exact hist.prior hend rfl
  · exact hend

theorem act_deciding (reads : Bool → Bool) (x : Option (Finset υ)) :
    S.act u reads (S.deciding p) x =
      if S.new p then x.map (insert u) else
        if reads p then x.bind (drop (S.removes p) u) else x := by
  cases hnew : S.new p <;> cases hr : reads p <;> simp [deciding, act, hnew, hr]

/-- The other steps leave the object alone. -/
theorem act_of_ne {reads : Bool → Bool} {e : Event} (he : ∀ q, e ≠ S.deciding q)
    (x : Option (Finset υ)) : S.act u reads e x = x := by
  obtain ⟨q, s⟩ := e
  have hq := he q
  cases s with
  | read => rfl
  | write => rfl
  | link =>
    have hnew : S.new q = false := by
      by_contra hnot
      exact hq (by simp [deciding, hnot])
    simp [act, hnew]
  | unlink =>
    have hnew : S.new q = true := by
      by_contra hnot
      exact hq (by simp [deciding, hnot])
    simp [act, hnew]

/-- Once both parties are done, the object is what their deciding steps have made of it, in
their order. -/
theorem entry_of_both (hist : History h)
    (hab : Before h (S.deciding p) (S.deciding (!p))) :
    S.entry u start h = S.act u (fun q => S.readNames q h) (S.deciding !p)
      (S.act u (fun q => S.readNames q h) (S.deciding p) start) := by
  rw [entry_eq_foldr hist fun _ _ => rfl]
  refine foldr_of_before hist.nodup hab (fun e hp hnp => act_of_ne fun q => ?_) start
  rcases Bool.eq_or_eq_not q p with rfl | rfl
  · exact hp
  · exact hnp

/-- With one party alone it is what that has made of it. -/
theorem entry_of_one (hist : History h) (hend : (p, Step.unlink) ∈ h)
    (hother : ((!p), Step.write) ∉ h) :
    S.entry u start h = S.act u (fun q => S.readNames q h) (S.deciding p) start := by
  rw [entry_eq_foldr hist fun _ _ => rfl]
  refine foldr_of_mem hist.nodup (deciding_mem hist hend) (fun e he hp => ?_) start
  refine act_of_ne (fun q heq => ?_) 
  rcases Bool.eq_or_eq_not q p with rfl | rfl
  · exact hp heq
  · refine hother ?_
    have hmem : S.deciding (!p) ∈ h := heq ▸ he
    rw [deciding] at hmem
    split at hmem
    · exact hist.prior hmem rfl
    · exact hist.prior (hist.prior hmem rfl) rfl

/-- Without a write nothing has become of it. -/
theorem entry_of_none (hist : History h) (hnone : ∀ q, (q, Step.write) ∉ h) :
    S.entry u start h = start := by
  rw [entry_eq_foldr hist fun _ _ => rfl]
  refine foldr_of_id (fun e he x => act_of_ne (fun q heq => ?_) x) start
  rw [heq, deciding] at he
  split at he
  · exact hnone q (hist.prior he rfl)
  · exact hnone q (hist.prior (hist.prior he rfl) rfl)

/-! ## What becomes of the object -/

/-- The object has the referrer. -/
def Holds (u : υ) (x : Option (Finset υ)) : Prop := ∃ refs, x = some refs ∧ u ∈ refs

/-- The first writer removes an object that the value before it and the value after it name. -/
structure Removed (S : Setting) (p : Bool) : Prop where
  old : S.old = true
  first : S.new p = false
  last : S.new (!p) = true
  removes : S.removes p = true

/-- The link of the first writer is left, since the second one has not read its value, or has
unlinked before. -/
structure Leaked (S : Setting) (h : List Event) (p : Bool) : Prop where
  first : S.new p = true
  last : S.new (!p) = false
  missed : (S.old = false ∧ Before h ((!p), .read) (p, .write)) ∨
    (Before h ((!p), .unlink) (p, .link) ∧ (S.old = false ∨ S.removes (!p) = false))

/-- No other referrer than this one, which is there if the first value names the object. -/
def Sole (S : Setting) (u : υ) (start : Option (Finset υ)) : Prop :=
  start = some (if S.old then {u} else ∅)

/-- An object with another referrer stays. -/
theorem entry_of_other (hother : ∃ refs, start = some refs ∧ ∃ v ∈ refs, v ≠ u) :
    ∃ refs, S.entry u start h = some refs ∧ ∃ v ∈ refs, v ≠ u := by
  induction h with
  | nil => exact hother
  | cons e h ih =>
    obtain ⟨refs, hrefs, v, hv, hne⟩ := ih
    obtain ⟨q, s⟩ := e
    rw [entry, hrefs]
    have hmem : v ∈ refs.erase u := Finset.mem_erase.mpr ⟨hne, hv⟩
    cases s with
    | read => exact ⟨refs, rfl, v, hv, hne⟩
    | write => exact ⟨refs, rfl, v, hv, hne⟩
    | link =>
      simp only [act]
      split
      · exact ⟨_, rfl, v, Finset.mem_insert_of_mem hv, hne⟩
      · exact ⟨refs, rfl, v, hv, hne⟩
    | unlink =>
      simp only [act]
      split
      · refine ⟨refs.erase u, ?_, v, hmem, hne⟩
        rw [Option.bind_some, drop, if_neg]
        rintro ⟨-, hempty, -⟩
        rw [hempty] at hmem
        cases hmem
      · exact ⟨refs, rfl, v, hv, hne⟩

/-- An object gains no other referrer. -/
theorem entry_subset (hsole : S.Sole u start) {refs : Finset υ} (h' : S.entry u start h = some refs) :
    refs ⊆ {u} := by
  induction h generalizing refs with
  | nil =>
    rw [entry, hsole] at h'
    cases h'
    split <;> simp
  | cons e h ih =>
    obtain ⟨q, s⟩ := e
    rw [entry] at h'
    cases hrest : S.entry u start h with
    | none =>
      rw [hrest] at h'
      cases s <;> simp [act] at h'
    | some before =>
      have hbefore := ih hrest
      rw [hrest] at h'
      cases s with
      | read => cases h'; exact hbefore
      | write => cases h'; exact hbefore
      | link =>
        simp only [act] at h'
        split at h'
        · cases h'
          exact Finset.insert_subset (Finset.mem_singleton_self u) hbefore
        · cases h'
          exact hbefore
      | unlink =>
        simp only [act] at h'
        split at h'
        · rw [Option.bind_some, drop] at h'
          split at h'
          · cases h'
          · cases h'
            exact (Finset.erase_subset _ _).trans hbefore
        · cases h'
          exact hbefore

/-- An object that is not there stays away. -/
theorem entry_of_absent (hstart : start = none) : S.entry u start h = none := by
  induction h with
  | nil => exact hstart
  | cons e h ih =>
    obtain ⟨q, s⟩ := e
    rw [entry, ih]
    cases s <;> simp [act]

/-- What the parties have read, where both have written and this one first. -/
theorem readNames_of_before (hist : History h) (hw : Before h (p, .write) ((!p), .write)) :
    S.readNames p h = S.old ∧
      S.readNames (!p) h = if Before h ((!p), .read) (p, .write) then S.old else S.new p := by
  have hread : ∀ {q : Bool}, (q, Step.write) ∈ h → (q, Step.read) ∈ h := fun hq => hist.prior hq rfl
  constructor
  · rw [readNames_eq hist (hread hw.left), if_neg]
    intro hback
    exact (hw.trans hist.nodup hback).asymm hist.nodup (hist.before_prior hw.left rfl)
  · rw [readNames_eq hist (hread hw.right), Bool.not_not]
    rcases before_or_before hw.left (hread hw.right) (by simp) with hb | hb
    · rw [if_pos hb, if_neg (hb.asymm hist.nodup)]
    · rw [if_neg (hb.asymm hist.nodup), if_pos hb]

/-- Of two writers the later one's value stays. If it names the object, the object is gone
exactly if the first writer has removed it. -/
theorem entry_eq_none_iff (hist : History h) (hend : ∀ q, (q, Step.unlink) ∈ h)
    (hw : Before h (p, .write) ((!p), .write)) (hsole : S.Sole u start)
    (hnew : S.new (!p) = true) : S.entry u start h = none ↔ S.Removed p := by
  obtain ⟨hfirst, -⟩ := readNames_of_before (S := S) hist hw
  have hremoved : S.Removed p ↔ S.old = true ∧ S.new p = false ∧ S.removes p = true :=
    ⟨fun hr => ⟨hr.old, hr.first, hr.removes⟩, fun hr => ⟨hr.1, hr.2.1, hnew, hr.2.2⟩⟩
  rw [hremoved]
  have hne : S.deciding p ≠ S.deciding (!p) := by simp [deciding]
  rcases before_or_before (deciding_mem hist (hend p)) (deciding_mem hist (hend (!p))) hne
    with hab | hba
  · rw [entry_of_both hist hab, act_deciding, act_deciding, hnew, hfirst, hsole]
    cases S.old <;> cases S.new p <;> cases S.removes p <;> simp [drop]
  · rw [← Bool.not_not p] at hba
    nth_rewrite 1 [Bool.not_not] at hba
    rw [entry_of_both hist hba, act_deciding, act_deciding, Bool.not_not, hnew, hfirst, hsole]
    cases S.old <;> cases S.new p <;> cases S.removes p <;> simp [drop]

/-- If the value that stays does not name the object, the object keeps its referrer exactly
if the link of the first writer has leaked. -/
theorem holds_entry_iff (hist : History h) (hend : ∀ q, (q, Step.unlink) ∈ h)
    (hw : Before h (p, .write) ((!p), .write)) (hsole : S.Sole u start)
    (hnew : S.new (!p) = false) : Holds u (S.entry u start h) ↔ S.Leaked h p := by
  obtain ⟨hfirst, hlast⟩ := readNames_of_before (S := S) hist hw
  have hne : S.deciding p ≠ S.deciding (!p) := by simp [deciding]
  have hleaked : S.Leaked h p ↔ S.new p = true ∧
      ((S.old = false ∧ Before h ((!p), .read) (p, .write)) ∨
        (Before h (S.deciding !p) (S.deciding p) ∧ (S.old = false ∨ S.removes (!p) = false))) := by
    constructor
    · rintro ⟨hp, -, hmissed⟩
      exact ⟨hp, by simpa [deciding, hp, hnew] using hmissed⟩
    · rintro ⟨hp, hmissed⟩
      exact ⟨hp, hnew, by simpa [deciding, hp, hnew] using hmissed⟩
  rw [hleaked]
  rcases before_or_before (deciding_mem hist (hend p)) (deciding_mem hist (hend (!p))) hne
    with hab | hba
  · -- the first writer has linked before the second one unlinks
    have hnot := hab.asymm hist.nodup
    rw [entry_of_both hist hab, act_deciding, act_deciding, hnew, hfirst, hlast, hsole]
    by_cases hearly : Before h ((!p), .read) (p, .write) <;>
      cases S.old <;> cases S.new p <;> cases S.removes p <;> cases S.removes (!p) <;>
      simp [hnot, hearly, Holds, drop]
  · have hback := hba
    rw [← Bool.not_not p] at hback
    nth_rewrite 1 [Bool.not_not] at hback
    rw [entry_of_both hist hback, act_deciding, act_deciding, Bool.not_not, hnew, hfirst,
      hlast, hsole]
    by_cases hearly : Before h ((!p), .read) (p, .write) <;>
      cases S.old <;> cases S.new p <;> cases S.removes p <;> cases S.removes (!p) <;>
      simp [hba, hearly, Holds, drop]

/-- A single writer leaves the object if its value names it, and without the referrer if not. -/
theorem entry_of_one_writer (hist : History h) (hend : (p, Step.unlink) ∈ h)
    (hother : ((!p), Step.write) ∉ h) (hsole : S.Sole u start) :
    (S.new p = true → S.entry u start h ≠ none) ∧
      (S.new p = false → ¬ Holds u (S.entry u start h)) := by
  have hread : (p, Step.read) ∈ h := hist.prior (hist.prior (hist.prior hend rfl) rfl) rfl
  have hold : S.readNames p h = S.old := by
    rw [readNames_eq hist hread, if_neg fun hb => hother hb.left]
  rw [entry_of_one hist hend hother, act_deciding, hold, hsole]
  cases S.old <;> cases S.new p <;> cases S.removes p <;> simp [Holds, drop]

/-- Once every party has ended, an object that the value names is gone exactly if the first of
two writers has removed it, and an object that it does not name keeps the referrer exactly if
the link of the first of two writers has leaked. -/
theorem entry_at_end (hist : History h)
    (hend : ∀ q, (q, Step.unlink) ∈ h ∨ (q, Step.write) ∉ h) (hsole : S.Sole u start) :
    (S.valueNames h = true → (S.entry u start h = none ↔
        ∃ q, Before h (q, .write) ((!q), .write) ∧ S.Removed q)) ∧
      (S.valueNames h = false → (Holds u (S.entry u start h) ↔
        ∃ q, Before h (q, .write) ((!q), .write) ∧ S.Leaked h q)) := by
  by_cases hboth : ∃ p, Before h (p, .write) ((!p), .write)
  · obtain ⟨p, hw⟩ := hboth
    have hback : ¬ Before h ((!p), .write) ((!(!p)), .write) := by
      rw [Bool.not_not]
      exact hw.asymm hist.nodup
    have honly : ∀ {P : Bool → Prop},
        (∃ q, Before h (q, .write) ((!q), .write) ∧ P q) ↔ P p := by
      intro P
      constructor
      · rintro ⟨q, hq, hP⟩
        rcases Bool.eq_or_eq_not q p with rfl | rfl
        · exact hP
        · exact absurd hq hback
      · exact fun hP => ⟨p, hw, hP⟩
    have hdone : ∀ q, (q, Step.unlink) ∈ h := by
      intro q
      refine (hend q).resolve_right (not_not.mpr ?_)
      rcases Bool.eq_or_eq_not q p with rfl | rfl
      · exact hw.left
      · exact hw.right
    rw [honly, honly, valueNames_of_last hw.right hback]
    exact ⟨entry_eq_none_iff hist hdone hw hsole, holds_entry_iff hist hdone hw hsole⟩
  · have hnever : ∀ {P : Bool → Prop},
        (∃ q, Before h (q, .write) ((!q), .write) ∧ P q) ↔ False :=
      iff_false_intro fun ⟨q, hq, _⟩ => hboth ⟨q, hq⟩
    rw [hnever, hnever]
    by_cases hone : ∃ p, (p, Step.write) ∈ h
    · obtain ⟨p, hp⟩ := hone
      have hother : ((!p), Step.write) ∉ h := by
        intro hq
        rcases before_or_before hp hq (by simp) with hb | hb
        · exact hboth ⟨p, hb⟩
        · exact hboth ⟨!p, by rwa [Bool.not_not]⟩
      have hunlink := (hend p).resolve_right (not_not.mpr hp)
      rw [valueNames_of_last hp fun hb => hother hb.right]
      obtain ⟨hkept, hreleased⟩ := entry_of_one_writer hist hunlink hother hsole
      exact ⟨fun hnew => iff_false_intro (hkept hnew),
        fun hnew => iff_false_intro (hreleased hnew)⟩
    · have hnone : ∀ p, (p, Step.write) ∉ h := fun p hp => hone ⟨p, hp⟩
      rw [entry_of_none hist hnone, valueNames_of_no_write hnone, hsole]
      refine ⟨fun hold => by simp, fun hold => ?_⟩
      simp [Holds, hold]

end Setting

end Replacement
