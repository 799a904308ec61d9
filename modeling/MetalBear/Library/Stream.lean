import Mathlib

/-!
# Reading a log behind a cursor

A log holds records under keys that only ever grow; records may be removed from
anywhere in it. A reader takes the least record above its cursor, delivers it, and
only then moves the cursor to that record's key. Others write and remove between any
two of these moves. This file says what such a reader can rely on.
-/

universe u v

namespace Stream

variable {κ : Type u} {φ : Type v}

/-- A reader, with what a bookkeeper beside it would have noted down. -/
structure Reader (κ : Type u) (φ : Type v) where
  /-- The cursor it came with. -/
  start : κ
  cursor : κ
  /-- A record that was taken from the log and is not delivered yet. -/
  held : Option (κ × φ)
  /-- What was delivered, oldest first. -/
  sent : List (κ × φ)
  /-- What was in the log when the reader came, or was added since. -/
  seen : List (κ × φ)
  /-- What was removed while it was still ahead of the cursor. -/
  missed : List (κ × φ)
  deriving DecidableEq, Repr

/-- A log together with at most one reader. -/
structure State (κ : Type u) (φ : Type v) where
  live : List (κ × φ)
  /-- No key above the mark was ever used. -/
  mark : κ
  reader : Option (Reader κ φ)

/-- A reader that has just come. -/
def Reader.attach (c : κ) (live : List (κ × φ)) : Reader κ φ := ⟨c, c, none, [], live, []⟩

/-- Records were added to the log. -/
def Reader.saw (r : Reader κ φ) (new : List (κ × φ)) : Reader κ φ :=
  { r with seen := r.seen ++ new }

/-- The held record, if any, is delivered and the cursor moved to it. -/
def Reader.deliver (r : Reader κ φ) : Reader κ φ :=
  match r.held with
  | none => r
  | some x => { r with held := none, cursor := x.1, sent := r.sent ++ [x] }

@[simp] theorem Reader.deliver_seen (r : Reader κ φ) : r.deliver.seen = r.seen := by
  cases h : r.held <;> simp [Reader.deliver, h]

@[simp] theorem Reader.deliver_start (r : Reader κ φ) : r.deliver.start = r.start := by
  cases h : r.held <;> simp [Reader.deliver, h]

/-- The records of `old` that `new` no longer has. -/
def removed [DecidableEq κ] [DecidableEq φ] (old new : List (κ × φ)) : List (κ × φ) :=
  old.filter (· ∉ new)

/-- Nothing is gone from a log that still has it all. -/
theorem removed_of_subset [DecidableEq κ] [DecidableEq φ] {old new : List (κ × φ)}
    (h : old ⊆ new) : removed old new = [] := by
  simp only [removed, List.filter_eq_nil_iff]
  intro x hx
  simpa using h hx

/-- A new record is all that a log lacks without it. -/
theorem removed_snoc [DecidableEq κ] [DecidableEq φ] {l : List (κ × φ)} {x : κ × φ}
    (h : x ∉ l) : removed (l ++ [x]) l = [x] := by
  have hold : l.filter (· ∉ l) = [] := removed_of_subset (List.Subset.refl l)
  rw [removed, List.filter_append, hold, List.nil_append]
  simp [h]

/-- What stays and what does not make up the log. -/
theorem perm_of_sublist [DecidableEq κ] [DecidableEq φ] {live kept : List (κ × φ)}
    (hn : (live.map Prod.fst).Nodup) (hs : kept.Sublist live) :
    live.Perm (removed live kept ++ kept) := by
  have hlive : live.Nodup := List.Nodup.of_map _ hn
  have hparts : (removed live kept ++ kept).Nodup := by
    refine List.nodup_append.mpr ⟨hlive.filter _, hlive.sublist hs, ?_⟩
    rintro a ha b hb rfl
    exact absurd hb (by simpa using (List.mem_filter.mp ha).2)
  refine (List.perm_ext_iff_of_nodup hlive hparts).mpr fun x => ?_
  simp only [removed, List.mem_append, List.mem_filter, decide_not, Bool.not_eq_eq_eq_not,
    Bool.not_true, decide_eq_false_iff_not]
  have := hs.subset (a := x)
  tauto

variable [LinearOrder κ]

/-- Records were removed from the log. -/
def Reader.lose (r : Reader κ φ) (gone : List (κ × φ)) : Reader κ φ :=
  { r with missed := r.missed ++ gone.filter fun x => r.cursor < x.1 }

/-- The record with the least key above the cursor. -/
def Next (live : List (κ × φ)) (c : κ) (x : κ × φ) : Prop :=
  x ∈ live ∧ c < x.1 ∧ ∀ y ∈ live, c < y.1 → x.1 ≤ y.1

/-- What may happen to the log and to a reader that stays. -/
inductive Move : State κ φ → State κ φ → Prop
  | stay (s) : Move s s
  | add (s) (k : κ) (f : φ) (h : s.mark < k) :
      Move s ⟨s.live ++ [(k, f)], k, s.reader.map (·.saw [(k, f)])⟩
  | remove (s) (kept gone : List (κ × φ)) (h : s.live.Perm (gone ++ kept)) :
      Move s ⟨kept, s.mark, s.reader.map (·.lose gone)⟩
  | take (s) (r : Reader κ φ) (x : κ × φ) (hr : s.reader = some r) (hx : Next s.live r.cursor x) :
      Move s { s with reader := some { r with held := some x } }
  | deliver (s) (r : Reader κ φ) (hr : s.reader = some r) :
      Move s { s with reader := some r.deliver }
  | leave (s) : Move s { s with reader := none }
  | rebuild (s) (live : List (κ × φ)) (mark : κ) (hn : (live.map Prod.fst).Nodup)
      (hle : ∀ x ∈ live, x.1 ≤ mark) (hmark : s.mark ≤ mark) : Move s ⟨live, mark, none⟩

/-- A step also lets a reader come, at any cursor. -/
inductive Step : State κ φ → State κ φ → Prop
  | move {s s'} (h : Move s s') : Step s s'
  | attach (s) (c : κ) : Step s { s with reader := some (Reader.attach c s.live) }

/-! ## What a reader can rely on -/

/-- The invariant of a reader. -/
structure Reader.Ok (live : List (κ × φ)) (mark : κ) (r : Reader κ φ) : Prop where
  /-- Delivered keys increase strictly. -/
  increasing : (r.sent.map Prod.fst).Pairwise (· < ·)
  above : ∀ x ∈ r.sent, r.start < x.1
  behind : ∀ x ∈ r.sent, x.1 ≤ r.cursor
  start_le : r.start ≤ r.cursor
  /-- The cursor stands where the reader started or on a key that was used. -/
  used : r.cursor = r.start ∨ r.cursor ≤ mark
  /-- Within the reader's time a key names one record. -/
  unique : (r.seen.map Prod.fst).Nodup
  bounded : ∀ x ∈ r.seen, x.1 ≤ mark
  liveSeen : ∀ x ∈ live, x ∈ r.seen
  sentSeen : ∀ x ∈ r.sent, x ∈ r.seen
  missedSeen : ∀ x ∈ r.missed, x ∈ r.seen ∧ x ∉ live
  /-- What is ahead of the cursor is still in the log, unless it was removed. -/
  ahead : ∀ x ∈ r.seen, r.cursor < x.1 → x ∈ live ∨ x ∈ r.missed
  /-- What the cursor has passed was delivered, unless it was removed before. -/
  complete : ∀ x ∈ r.seen, r.start < x.1 → x.1 ≤ r.cursor → x ∈ r.sent ∨ x ∈ r.missed
  held : ∀ x ∈ r.held, x ∈ r.seen ∧ r.cursor < x.1 ∧ ∀ y ∈ live, r.cursor < y.1 → x.1 ≤ y.1

/-- The invariant of the log and its reader. -/
structure State.Ok (s : State κ φ) : Prop where
  nodup : (s.live.map Prod.fst).Nodup
  le_mark : ∀ x ∈ s.live, x.1 ≤ s.mark
  reader : ∀ r ∈ s.reader, r.Ok s.live s.mark

/-- Two records seen under one key are one record. -/
theorem Reader.Ok.eq_of_key {live : List (κ × φ)} {mark : κ} {r : Reader κ φ}
    (h : r.Ok live mark) {x y : κ × φ} (hx : x ∈ r.seen) (hy : y ∈ r.seen) (hk : x.1 = y.1) :
    x = y :=
  List.inj_on_of_nodup_map h.unique hx hy hk

omit [LinearOrder κ] in
/-- A record under a fresh key keeps the keys distinct. -/
theorem nodup_snoc {l : List (κ × φ)} {k : κ} {f : φ} (h : (l.map Prod.fst).Nodup)
    (hk : ∀ x ∈ l, x.1 ≠ k) : ((l ++ [(k, f)]).map Prod.fst).Nodup := by
  rw [List.map_append]
  refine List.nodup_append.mpr ⟨h, by simp, fun a ha b hb => ?_⟩
  obtain ⟨x, hx, rfl⟩ := List.mem_map.mp ha
  obtain rfl : b = k := by simpa using hb
  exact hk x hx

theorem Reader.Ok.attach {live : List (κ × φ)} {mark : κ} (c : κ)
    (hn : (live.map Prod.fst).Nodup) (hle : ∀ x ∈ live, x.1 ≤ mark) :
    (Reader.attach c live).Ok live mark where
  increasing := by simp [Reader.attach]
  above := by simp [Reader.attach]
  behind := by simp [Reader.attach]
  start_le := le_refl c
  used := Or.inl rfl
  unique := hn
  bounded := hle
  liveSeen := fun x hx => hx
  sentSeen := by simp [Reader.attach]
  missedSeen := by simp [Reader.attach]
  ahead := fun x hx _ => Or.inl hx
  complete := fun x _ hlt hle => absurd hlt (not_lt.mpr hle)
  held := by simp [Reader.attach]

/-- A record above the mark is ahead of everything the reader has seen. -/
theorem Reader.Ok.saw {live : List (κ × φ)} {mark k : κ} {f : φ} {r : Reader κ φ}
    (h : r.Ok live mark) (hk : mark < k) :
    (r.saw [(k, f)]).Ok (live ++ [(k, f)]) k where
  increasing := h.increasing
  above := h.above
  behind := h.behind
  start_le := h.start_le
  used := h.used.imp id fun hle => hle.trans hk.le
  unique := nodup_snoc h.unique fun x hx => ((h.bounded x hx).trans_lt hk).ne
  bounded := by
    intro x hx
    rcases List.mem_append.mp hx with hx | hx
    · exact ((h.bounded x hx).trans_lt hk).le
    · simp [List.mem_singleton.mp hx]
  liveSeen := by
    intro x hx
    rcases List.mem_append.mp hx with hx | hx
    · exact List.mem_append_left _ (h.liveSeen x hx)
    · exact List.mem_append_right _ hx
  sentSeen := fun x hx => List.mem_append_left _ (h.sentSeen x hx)
  missedSeen := by
    intro x hx
    obtain ⟨hs, hl⟩ := h.missedSeen x hx
    refine ⟨List.mem_append_left _ hs, fun hm => ?_⟩
    rcases List.mem_append.mp hm with hm | hm
    · exact hl hm
    · obtain rfl := List.mem_singleton.mp hm
      exact absurd (h.bounded _ hs) (not_le.mpr hk)
  ahead := by
    intro x hx hlt
    rcases List.mem_append.mp hx with hx | hx
    · exact (h.ahead x hx hlt).imp (List.mem_append_left _) id
    · exact Or.inl (List.mem_append_right _ hx)
  complete := by
    intro x hx hlt hle
    rcases List.mem_append.mp hx with hx | hx
    · exact h.complete x hx hlt hle
    · -- A cursor beyond the new key is where the reader started, and asks for nothing so far.
      obtain rfl := List.mem_singleton.mp hx
      rcases h.used with hu | hu
      · exact absurd (hu ▸ hle) (not_le.mpr hlt)
      · exact absurd (hle.trans hu) (not_le.mpr hk)
  held := by
    intro x hx
    obtain ⟨hs, hlt, hmin⟩ := h.held x hx
    refine ⟨List.mem_append_left _ hs, hlt, fun y hy hy' => ?_⟩
    rcases List.mem_append.mp hy with hy | hy
    · exact hmin y hy hy'
    · rw [List.mem_singleton.mp hy]
      exact ((h.bounded x hs).trans_lt hk).le

/-- Removals are noted as missed exactly where they are still ahead. -/
theorem Reader.Ok.lose {live kept gone : List (κ × φ)} {mark : κ} {r : Reader κ φ}
    (h : r.Ok live mark) (hn : (live.map Prod.fst).Nodup) (hp : live.Perm (gone ++ kept)) :
    (r.lose gone).Ok kept mark := by
  have hkept : ∀ x ∈ kept, x ∈ live := fun x hx => hp.mem_iff.mpr (List.mem_append_right _ hx)
  have hgone : ∀ x ∈ gone, x ∈ live := fun x hx => hp.mem_iff.mpr (List.mem_append_left _ hx)
  have hapart : ∀ x ∈ gone, x ∉ kept := by
    intro x hx hk
    have hnodup : (gone ++ kept).Nodup := (hp.nodup_iff).mp (List.Nodup.of_map _ hn)
    exact (List.nodup_append.mp hnodup).2.2 x hx x hk rfl
  refine ⟨h.increasing, h.above, h.behind, h.start_le, h.used, h.unique, h.bounded, ?_, h.sentSeen,
    ?_, ?_, ?_, ?_⟩
  · exact fun x hx => h.liveSeen x (hkept x hx)
  · intro x hx
    rcases List.mem_append.mp hx with hx | hx
    · exact ⟨(h.missedSeen x hx).1, fun hk => (h.missedSeen x hx).2 (hkept x hk)⟩
    · have hg := List.mem_of_mem_filter hx
      exact ⟨h.liveSeen x (hgone x hg), hapart x hg⟩
  · intro x hx (hlt : r.cursor < x.1)
    rcases h.ahead x hx hlt with hl | hm
    · rcases List.mem_append.mp (hp.mem_iff.mp hl) with hg | hk
      · exact Or.inr (List.mem_append_right _ (List.mem_filter.mpr ⟨hg, by simpa using hlt⟩))
      · exact Or.inl hk
    · exact Or.inr (List.mem_append_left _ hm)
  · exact fun x hx hlt hle => (h.complete x hx hlt hle).imp id (List.mem_append_left _)
  · intro x hx
    obtain ⟨hs, hlt, hmin⟩ := h.held x hx
    exact ⟨hs, hlt, fun y hy => hmin y (hkept y hy)⟩

theorem Reader.Ok.take {live : List (κ × φ)} {mark : κ} {r : Reader κ φ} {x : κ × φ}
    (h : r.Ok live mark) (hx : Next live r.cursor x) :
    ({ r with held := some x } : Reader κ φ).Ok live mark where
  increasing := h.increasing
  above := h.above
  behind := h.behind
  start_le := h.start_le
  used := h.used
  unique := h.unique
  bounded := h.bounded
  liveSeen := h.liveSeen
  sentSeen := h.sentSeen
  missedSeen := h.missedSeen
  ahead := h.ahead
  complete := h.complete
  held := by
    rintro y ⟨⟩
    exact ⟨h.liveSeen x hx.1, hx.2⟩

/-- Between the cursor and the held record nothing is left to deliver. -/
theorem Reader.Ok.between {live : List (κ × φ)} {mark : κ} {r : Reader κ φ} {x y : κ × φ}
    (h : r.Ok live mark) (hx : r.held = some x) (hy : y ∈ r.seen) (hlt : r.cursor < y.1)
    (hle : y.1 ≤ x.1) : y = x ∨ y ∈ r.missed := by
  obtain ⟨hs, -, hmin⟩ := h.held x hx
  rcases h.ahead y hy hlt with hl | hm
  · exact Or.inl (h.eq_of_key hy hs (le_antisymm hle (hmin y hl hlt)))
  · exact Or.inr hm

theorem Reader.Ok.deliver {live : List (κ × φ)} {mark : κ} {r : Reader κ φ}
    (h : r.Ok live mark) : r.deliver.Ok live mark := by
  cases hx : r.held with
  | none => simpa [Reader.deliver, hx] using h
  | some x =>
    obtain ⟨hs, hlt, -⟩ := h.held x hx
    simp only [Reader.deliver, hx]
    refine ⟨?_, ?_, ?_, h.start_le.trans hlt.le, Or.inr (h.bounded x hs), h.unique, h.bounded,
      h.liveSeen, ?_, h.missedSeen, ?_, ?_, by simp⟩
    · rw [List.map_append]
      refine List.pairwise_append.mpr ⟨h.increasing, by simp, fun a ha b hb => ?_⟩
      obtain ⟨y, hy, rfl⟩ := List.mem_map.mp ha
      obtain rfl : b = x.1 := by simpa using hb
      exact (h.behind y hy).trans_lt hlt
    · intro y hy
      rcases List.mem_append.mp hy with hy | hy
      · exact h.above y hy
      · rw [List.mem_singleton.mp hy]
        exact h.start_le.trans_lt hlt
    · intro y hy
      rcases List.mem_append.mp hy with hy | hy
      · exact (h.behind y hy).trans hlt.le
      · rw [List.mem_singleton.mp hy]
    · intro y hy
      rcases List.mem_append.mp hy with hy | hy
      · exact h.sentSeen y hy
      · rwa [List.mem_singleton.mp hy]
    · exact fun y hy hlt' => h.ahead y hy (hlt.trans hlt')
    · intro y hy hstart hle
      rcases le_or_gt y.1 r.cursor with hc | hc
      · exact (h.complete y hy hstart hc).imp (List.mem_append_left _) id
      · exact (h.between hx hy hc hle).imp (fun he => by simp [he]) id

/-- Every move keeps the invariant. -/
theorem Move.ok {s s' : State κ φ} (h : Move s s') (hok : s.Ok) : s'.Ok := by
  cases h with
  | stay => exact hok
  | add k f hk =>
    refine ⟨nodup_snoc hok.nodup fun x hx => ((hok.le_mark x hx).trans_lt hk).ne, ?_, ?_⟩
    · intro x hx
      rcases List.mem_append.mp hx with hx | hx
      · exact ((hok.le_mark x hx).trans_lt hk).le
      · simp [List.mem_singleton.mp hx]
    · intro r hr
      obtain ⟨q, hq, rfl⟩ := Option.map_eq_some_iff.mp hr
      exact (hok.reader q hq).saw hk
  | remove kept gone hp =>
    have hsub : ∀ x ∈ kept, x ∈ s.live := fun x hx => hp.mem_iff.mpr (List.mem_append_right _ hx)
    refine ⟨?_, fun x hx => hok.le_mark x (hsub x hx), ?_⟩
    · have hn : ((gone ++ kept).map Prod.fst).Nodup := ((hp.map Prod.fst).nodup_iff).mp hok.nodup
      exact hn.sublist (List.Sublist.map _ (List.sublist_append_right gone kept))
    · intro r hr
      obtain ⟨q, hq, rfl⟩ := Option.map_eq_some_iff.mp hr
      exact (hok.reader q hq).lose hok.nodup hp
  | take r x hr hx =>
    refine ⟨hok.nodup, hok.le_mark, ?_⟩
    rintro _ ⟨⟩
    exact (hok.reader r hr).take hx
  | deliver r hr =>
    refine ⟨hok.nodup, hok.le_mark, ?_⟩
    rintro _ ⟨⟩
    exact (hok.reader r hr).deliver
  | leave => exact ⟨hok.nodup, hok.le_mark, by simp⟩
  | rebuild live mark hn hle => exact ⟨hn, hle, by simp⟩

/-- Every step keeps the invariant. -/
theorem Step.ok {s s' : State κ φ} (h : Step s s') (hok : s.Ok) : s'.Ok := by
  cases h with
  | move h => exact h.ok hok
  | attach c =>
    refine ⟨hok.nodup, hok.le_mark, ?_⟩
    rintro _ ⟨⟩
    exact Reader.Ok.attach c hok.nodup hok.le_mark

/-! ## Progress -/

/-- The records a reader has seen between its cursor and a key. -/
def Reader.waiting (r : Reader κ φ) (k : κ) : List (κ × φ) :=
  r.seen.filter fun x => decide (r.cursor < x.1) && decide (x.1 ≤ k)

/-- The reader has passed `k`, or the deliveries it has made and those that may still come
first stay within `n`. -/
def Reader.Within (n : Nat) (k : κ) (r : Reader κ φ) : Prop :=
  k ≤ r.cursor ∨ r.sent.length + (r.waiting k).length ≤ n

/-- A delivery takes at least one record out of the window. -/
theorem Reader.Ok.within_deliver {live : List (κ × φ)} {mark k : κ} {r : Reader κ φ} {n : Nat}
    (h : r.Ok live mark) (hw : r.Within n k) : r.deliver.Within n k := by
  cases hx : r.held with
  | none => simpa [Reader.deliver, hx] using hw
  | some x =>
    obtain ⟨hs, hlt, -⟩ := h.held x hx
    simp only [Reader.Within, Reader.deliver, Reader.waiting, hx] at hw ⊢
    rcases le_or_gt k x.1 with hk | hk
    · exact Or.inl hk
    · rcases hw with hw | hw
      · exact absurd (hw.trans_lt hlt) (not_lt.mpr hk.le)
      refine Or.inr ?_
      -- What is still waiting afterwards was waiting before, and the delivered record was too.
      have hsub : (r.seen.filter fun y => decide (x.1 < y.1) && decide (y.1 ≤ k)) =
          (r.waiting k).filter fun y => x.1 < y.1 := by
        rw [Reader.waiting, List.filter_filter]
        refine List.filter_congr fun y _ => ?_
        have : x.1 < y.1 → r.cursor < y.1 := hlt.trans
        rw [← Bool.decide_and, ← Bool.decide_and, ← Bool.decide_and, decide_eq_decide]
        tauto
      have hless : ((r.waiting k).filter fun y => x.1 < y.1).length < (r.waiting k).length := by
        refine List.length_filter_lt_length_iff_exists.mpr ⟨x, ?_, by simp⟩
        exact List.mem_filter.mpr ⟨hs, by simp [hlt, hk.le]⟩
      rw [hsub]
      simp only [Reader.waiting] at hw hless ⊢
      simp only [List.length_append, List.length_cons, List.length_nil]
      omega

/-- A record the reader is still to pass, with the bound on what comes first. -/
structure Reader.Awaits (n : Nat) (x : κ × φ) (r : Reader κ φ) : Prop where
  within : r.Within n x.1
  seen : x ∈ r.seen
  start_lt : r.start < x.1

/-- As long as the reader stays, every move respects the bound. -/
theorem Move.awaits {s s' : State κ φ} {n : Nat} {x : κ × φ} (h : Move s s') (hok : s.Ok)
    (hx : x.1 ≤ s.mark) (hw : ∀ r ∈ s.reader, r.Awaits n x) :
    x.1 ≤ s'.mark ∧ ∀ r ∈ s'.reader, r.Awaits n x := by
  cases h with
  | stay => exact ⟨hx, hw⟩
  | add k' f hk' =>
    refine ⟨hx.trans hk'.le, fun r hr => ?_⟩
    obtain ⟨q, hq, rfl⟩ := Option.map_eq_some_iff.mp hr
    have hout : ¬ k' ≤ x.1 := not_le.mpr (hx.trans_lt hk')
    have hsame : (q.saw [(k', f)]).waiting x.1 = q.waiting x.1 := by
      rw [Reader.waiting, Reader.saw, List.filter_append,
        List.filter_cons_of_neg (by simp [hout]), List.filter_nil, List.append_nil]
      rfl
    obtain ⟨hwithin, hseen, hstart⟩ := hw q hq
    refine ⟨?_, List.mem_append_left _ hseen, hstart⟩
    rw [Reader.Within, hsame]
    exact hwithin
  | remove kept gone hp =>
    refine ⟨hx, fun r hr => ?_⟩
    obtain ⟨q, hq, rfl⟩ := Option.map_eq_some_iff.mp hr
    exact ⟨(hw q hq).within, (hw q hq).seen, (hw q hq).start_lt⟩
  | take r y hr hy =>
    refine ⟨hx, ?_⟩
    rintro _ ⟨⟩
    exact ⟨(hw r hr).within, (hw r hr).seen, (hw r hr).start_lt⟩
  | deliver r hr =>
    refine ⟨hx, ?_⟩
    rintro _ ⟨⟩
    obtain ⟨hwithin, hseen, hstart⟩ := hw r hr
    refine ⟨(hok.reader r hr).within_deliver hwithin, ?_, ?_⟩
    · simpa using hseen
    · simpa using hstart
  | leave => exact ⟨hx, by simp⟩
  | rebuild live mark hn hle hmark => exact ⟨hx.trans hmark, by simp⟩

/-- A reader that has delivered as much as the bound allows has passed the record. -/
theorem Reader.Awaits.passed {r : Reader κ φ} {n : Nat} {x : κ × φ} (h : r.Awaits n x)
    (hn : n ≤ r.sent.length) : x.1 ≤ r.cursor := by
  rcases h.within with hw | hw
  · exact hw
  · by_contra hc
    have hpos : 0 < (r.waiting x.1).length :=
      List.length_pos_of_mem (List.mem_filter.mpr ⟨h.seen, by simpa using not_le.mp hc⟩)
    omega

end Stream
