import MetalBear.Sequencer.FutureCursor

/-!
# Outdated cursors

Retention deletes rows by number and by age, but the mark it leaves behind is the number
alone. This file compares the mark with the events that retention has really deleted, over
any run of the log and its subscribers, and says under which calls a subscriber is told of
a loss exactly when there was one.
-/

namespace MetalBear.Sequencer

open Machine

/-- `pruned_through` as the table has it. -/
def EventLog.mark (l : EventLog) : Int := l.prunedThrough.getD 0

/-- The events in the log; the floor that seeding may leave behind is none. -/
def EventLog.real (l : EventLog) : List (Int × EventRow) :=
  l.events.rows.filter fun row => !row.2.isPlaceholder

theorem EventLog.mem_real {l : EventLog} {row : Int × EventRow} :
    row ∈ l.real ↔ row ∈ l.events.rows ∧ row.2.isPlaceholder = false := by
  simp [EventLog.real]

/-! ## The host with the record of what retention deleted -/

/-- The sequencer process, and the number of every event that retention has deleted. -/
structure Retention where
  host : Firehose
  lost : List Int

def Retention.fresh : Retention := ⟨Firehose.fresh, []⟩

/-- The log's calls, and the arrival of a subscriber. -/
inductive RetentionCall where
  | call (call : FirehoseCall)
  | subscribe (item : CursorParam) (queried pruneQueried : Bool)

/-- The events that a call of `metalbear_sequencer_retain` deletes. -/
def Firehose.lostBy (s : Firehose) : FirehoseCall → List Int
  | .retain minEvents cutoffTs env =>
    (s.log.real.filter fun row =>
      row ∉ (s.step (.retain minEvents cutoffTs env)).log.events.rows).map Prod.fst
  | _ => []

/-- One call or arrival. -/
def Retention.step (s : Retention) : RetentionCall → Retention
  | .call call => ⟨s.host.step call, s.lost ++ s.host.lostBy call⟩
  | .subscribe item queried pruneQueried =>
    let admission := subscribeRepos s.host.log item queried pruneQueried
    if admission.error = none then { s with host := s.host.step (.attach admission.cursor) }
    else s

/-! ## What subscribers are told -/

/-- The first event ever committed after the cursor. -/
def NextAfter (s : Firehose) (cursor seq : Int) : Prop :=
  cursor < seq ∧ ∀ k ∈ s.issued, cursor < k → seq ≤ k

/-- A subscriber with an accepted cursor is told of a loss exactly when retention deleted an
event after it, and not while its next event is in the log. -/
def ToldExactly (s : Retention) : RetentionCall → Prop
  | .subscribe item queried pruneQueried => ∀ cursor, parseCursor item = some cursor →
    (subscribeRepos s.host.log item queried pruneQueried).error = none →
      ((subscribeRepos s.host.log item queried pruneQueried).outdated = true ↔
        ∃ seq ∈ s.lost, cursor < seq) ∧
      ∀ row ∈ s.host.log.real, NextAfter s.host cursor row.1 →
        (subscribeRepos s.host.log item queried pruneQueried).outdated = false
  | .call _ => True

/-- The INSERT on `meta` is reached and carried out: `sqlite3_changes` is positive, be it
from this DELETE or from an earlier statement. -/
def EventLog.markMoves (l : EventLog) (cutoff : Int) (cutoffTs : String) (env : RetainEnv) : Bool :=
  env.marked && if env.deleted then l.events.rows.any (outdated cutoff cutoffTs) else env.staleChanges

/-- The mark moves to the number of an event that this very call deletes, it stays where
every deleted event is behind it already, and no event is kept before a deleted one. -/
structure MarksNewestLost (l : EventLog) (cutoff : Int) (cutoffTs : String) (env : RetainEnv) :
    Prop where
  moved : l.markMoves cutoff cutoffTs env = true → cutoff ≤ l.mark ∨
    env.deleted = true ∧ ∃ row ∈ l.real, outdated cutoff cutoffTs row = true ∧ row.1 = cutoff
  unmoved : l.markMoves cutoff cutoffTs env = false → env.deleted = true →
    ∀ row ∈ l.real, outdated cutoff cutoffTs row = true → row.1 ≤ l.mark
  oldestFirst : env.deleted = true → ∀ row ∈ l.real, outdated cutoff cutoffTs row = true →
    ∀ kept ∈ l.real, outdated cutoff cutoffTs kept = false → row.1 < kept.1

/-- The condition on a call or an arrival. -/
def KeepsHonestMark (s : Retention) : RetentionCall → Prop
  | .call (.retain minEvents cutoffTs env) => s.host.isOpen = true → env.prepared = true →
    0 < currentLocked s.host.log env.queried - minEvents →
      MarksNewestLost s.host.log (currentLocked s.host.log env.queried - minEvents) cutoffTs env
  | .call _ => True
  | .subscribe item _ pruneQueried => pruneQueried = false →
    ∀ cursor ∈ parseCursor item, s.host.log.mark ≤ cursor

/-! ## What the calls do to the mark -/

theorem parseCursor_nonneg {item : CursorParam} {cursor : Int}
    (h : parseCursor item = some cursor) : 0 ≤ cursor := by
  cases item with
  | string s =>
    simp only [parseCursor] at h
    split at h
    · next hp =>
      simp only [Option.some.injEq] at h
      simp only [Bool.and_eq_true, decide_eq_true_eq] at hp
      omega
    · cases h
  | absent => cases h
  | other => cases h

theorem appendEvent_prunedThrough (l : EventLog) (event : SubscribeEvent) (env : AppendEnv) :
    (appendEvent l event env).1.prunedThrough = l.prunedThrough := by
  unfold appendEvent
  split
  · rfl
  · rcases appendTransaction_cases l event env with ⟨status, ht, -⟩ |
      ⟨l', row, ht, -, -, -, -, hp⟩
    · simp [ht]
    · simp only [ht]
      split
      · exact hp
      · rfl

/-- Opening a log leaves the mark alone and brings no event. -/
theorem sequencerOpen_keeps {l l' : EventLog} {prepared : Bool} {seed : SeedEnv}
    (h : sequencerOpen l prepared seed = some l') :
    l'.prunedThrough = l.prunedThrough ∧ l'.real = l.real := by
  simp only [sequencerOpen] at h
  split at h
  · obtain rfl : seedSequenceFloor l seed = l' := by simpa using h
    unfold seedSequenceFloor
    cases hp : placeFloor l seed with
    | none => exact ⟨rfl, rfl⟩
    | some events =>
      have hplaceholder : EventRow.placeholder.isPlaceholder = true := by decide
      cases seed.deleted <;>
        simp [EventLog.real, (placeFloor_eq_some hp).1, List.filter_append, List.filter_filter,
          hplaceholder]
  · cases h

/-- Where retention moves the mark to. -/
theorem sequencerRetain_mark (l : EventLog) (minEvents : Int) (cutoffTs : String)
    (env : RetainEnv) (hprep : env.prepared = true)
    (hcutoff : 0 < currentLocked l env.queried - minEvents) :
    (sequencerRetain l minEvents cutoffTs env).1.mark =
      if l.markMoves (currentLocked l env.queried - minEvents) cutoffTs env then
        max l.mark (currentLocked l env.queried - minEvents)
      else l.mark := by
  have hany : decide (0 < l.events.rows.countP
      (outdated (currentLocked l env.queried - minEvents) cutoffTs)) =
      l.events.rows.any (outdated (currentLocked l env.queried - minEvents) cutoffTs) := by
    rw [Bool.eq_iff_iff]
    simp [List.countP_pos_iff]
  simp only [sequencerRetain, EventLog.mark, EventLog.markMoves, hprep, hany, not_le.mpr hcutoff,
    if_false, Bool.not_true, Bool.false_eq_true, Bool.and_comm env.marked]
  cases hmoves : (if env.deleted = true then
      l.events.rows.any (outdated (currentLocked l env.queried - minEvents) cutoffTs)
    else env.staleChanges) && env.marked with
  | false => simp
  | true =>
    cases l.prunedThrough with
    | none => simp [le_of_lt (Int.sub_pos.mp hcutoff)]
    | some m => simp

theorem Firehose.write_log (s : Firehose) (log : EventLog) :
    (s.write log).log = if s.isOpen then log else s.log := by
  unfold Firehose.write
  split <;> rfl

/-- Which events retention deletes. -/
theorem mem_lostBy (s : Firehose) (minEvents : Int) (cutoffTs : String) (env : RetainEnv)
    (seq : Int) : seq ∈ s.lostBy (.retain minEvents cutoffTs env) ↔
      (s.isOpen = true ∧ env.prepared = true ∧ env.deleted = true ∧
        0 < currentLocked s.log env.queried - minEvents) ∧
        ∃ row ∈ s.log.real, row.1 = seq ∧
          outdated (currentLocked s.log env.queried - minEvents) cutoffTs row = true := by
  have hevents : (s.step (.retain minEvents cutoffTs env)).log.events =
      if s.isOpen = true ∧ env.prepared = true ∧ env.deleted = true ∧
          0 < currentLocked s.log env.queried - minEvents then
        s.log.events.delete (outdated (currentLocked s.log env.queried - minEvents) cutoffTs)
      else s.log.events := by
    rw [Firehose.step, Firehose.write_log, apply_ite EventLog.events, sequencerRetain_events,
      ← ite_and]
    exact if_congr (by tauto) rfl rfl
  simp only [Firehose.lostBy, List.mem_map, List.mem_filter, decide_eq_true_eq, hevents]
  split
  · next h =>
    simp only [h, true_and, AutoTable.rows_delete, List.mem_filter, not_and]
    refine exists_congr fun row => ?_
    constructor
    · rintro ⟨⟨hreal, hnot⟩, hseq⟩
      exact ⟨hreal, hseq, by simpa using hnot (EventLog.mem_real.mp hreal).1⟩
    · rintro ⟨hreal, hseq, hout⟩
      exact ⟨⟨hreal, by simp [hout]⟩, hseq⟩
  · next h =>
    simp only [h, false_and, iff_false]
    rintro ⟨row, ⟨hreal, hnot⟩, -⟩
    exact hnot (EventLog.mem_real.mp hreal).1

/-! ## The mark and the deleted events, over a run -/

/-- The mark is the newest event that retention deleted, and every event still in the log is
newer. -/
structure Kept (s : Retention) : Prop where
  accounted : Accounted s.host
  le_mark : ∀ d ∈ s.lost, d ≤ s.host.log.mark
  mark_lost : s.host.log.mark = 0 ∨ s.host.log.mark ∈ s.lost
  lost_issued : ∀ d ∈ s.lost, d ∈ s.host.issued
  recorded : ∀ row ∈ s.host.log.real, row.1 ∈ s.host.issued
  later : ∀ row ∈ s.host.log.real, ∀ d ∈ s.lost, d < row.1

theorem kept_fresh : Kept Retention.fresh where
  accounted := accounted_fresh
  le_mark := by simp [Retention.fresh]
  mark_lost := Or.inl rfl
  lost_issued := by simp [Retention.fresh]
  recorded := by simp [Retention.fresh, Firehose.fresh, EventLog.empty, EventLog.real,
    AutoTable.empty]
  later := by simp [Retention.fresh]

/-- A call that moves no mark, loses nothing to retention and brings no event. -/
theorem Kept.of_subset {s : Retention} (h : Kept s) {host : Firehose} (hacc : Accounted host)
    (hmark : host.log.mark = s.host.log.mark) (hissued : s.host.issued ⊆ host.issued)
    (hreal : host.log.real ⊆ s.host.log.real) : Kept ⟨host, s.lost⟩ where
  accounted := hacc
  le_mark := by
    rw [hmark]
    exact h.le_mark
  mark_lost := by
    rw [hmark]
    exact h.mark_lost
  lost_issued := fun d hd => hissued (h.lost_issued d hd)
  recorded := fun row hrow => hissued (h.recorded row (hreal hrow))
  later := fun row hrow => h.later row (hreal hrow)

theorem Kept.write_subset {s : Retention} (h : Kept s) {log : EventLog}
    (hacc : Accounted (s.host.write log)) (hmark : log.mark = s.host.log.mark)
    (hreal : log.real ⊆ s.host.log.real) : Kept ⟨s.host.write log, s.lost⟩ := by
  refine h.of_subset hacc ?_ ?_ ?_
  · rw [Firehose.write_log]
    split
    · exact hmark
    · rfl
  · unfold Firehose.write
    split
    · exact List.subset_append_left _ _
    · exact List.Subset.refl _
  · rw [Firehose.write_log]
    split
    · exact hreal
    · exact List.Subset.refl _

/-- A new event is newer than everything deleted. -/
theorem Kept.append {s : Retention} (h : Kept s) (event : SubscribeEvent) (env : AppendEnv) :
    Kept ⟨s.host.step (.append event env), s.lost⟩ := by
  have hacc := h.accounted.step (.append event env)
  have hmark : (appendEvent s.host.log event env).1.mark = s.host.log.mark := by
    rw [EventLog.mark, EventLog.mark, appendEvent_prunedThrough]
  rcases appendEvent_cases s.host.log event env with ⟨ha, -⟩ | ⟨row, -, -, -, hr, -⟩
  · exact h.write_subset hacc hmark (by rw [ha]; exact List.Subset.refl _)
  · simp only [Firehose.step] at hacc ⊢
    cases ho : s.host.isOpen with
    | false =>
      have hsame : s.host.write (appendEvent s.host.log event env).1 = s.host := by
        simp [Firehose.write, ho]
      rw [hsame]
      exact h
    | true =>
      -- The new row is the only event that was not there before.
      have hnew : ∀ x ∈ (appendEvent s.host.log event env).1.real, x ∈ s.host.log.real ∨
          x.1 = s.host.log.events.highWater + 1 := by
        intro x hx
        obtain ⟨hx, hreal⟩ := EventLog.mem_real.mp hx
        rw [hr, List.mem_append, List.mem_singleton] at hx
        rcases hx with hx | rfl
        · exact Or.inl (EventLog.mem_real.mpr ⟨hx, hreal⟩)
        · exact Or.inr rfl
      have hissued : (s.host.write (appendEvent s.host.log event env).1).issued =
          s.host.issued ++ [s.host.log.events.highWater + 1] := by
        simp [Firehose.write, ho, (changes_of_append hr).2.2]
      have hlog := s.host.write_log (appendEvent s.host.log event env).1
      rw [if_pos ho] at hlog
      constructor
      · exact hacc
      · rw [hlog, hmark]
        exact h.le_mark
      · rw [hlog, hmark]
        exact h.mark_lost
      · intro d hd
        rw [hissued]
        exact List.mem_append_left _ (h.lost_issued d hd)
      · rw [hlog, hissued]
        intro x hx
        rcases hnew x hx with hx | hx
        · exact List.mem_append_left _ (h.recorded x hx)
        · exact List.mem_append_right _ (List.mem_singleton.mpr hx)
      · rw [hlog]
        intro x hx d hd
        rcases hnew x hx with hx | hx
        · exact h.later x hx d hd
        · have := h.accounted.le_mark d (List.mem_append_left _ (h.lost_issued d hd))
          omega

/-- Retention keeps the mark at the newest deleted event, under the condition on the call. -/
theorem Kept.retain {s : Retention} (h : Kept s) {minEvents : Int} {cutoffTs : String}
    {env : RetainEnv} (hcond : KeepsHonestMark s (.call (.retain minEvents cutoffTs env))) :
    Kept (s.step (.call (.retain minEvents cutoffTs env))) := by
  have hacc := h.accounted.step (.retain minEvents cutoffTs env)
  by_cases hruns : s.host.isOpen = true ∧ env.prepared = true ∧
      0 < currentLocked s.host.log env.queried - minEvents
  · obtain ⟨hopen, hprep, hcutoff⟩ := hruns
    have hmarks := hcond hopen hprep hcutoff
    have hlog : (s.host.step (.retain minEvents cutoffTs env)).log =
        (sequencerRetain s.host.log minEvents cutoffTs env).1 := by
      rw [Firehose.step, Firehose.write_log, if_pos hopen]
    have hmark := sequencerRetain_mark s.host.log minEvents cutoffTs env hprep hcutoff
    have hlost := mem_lostBy s.host minEvents cutoffTs env
    simp only [hopen, hprep, hcutoff, true_and, and_true] at hlost
    have hevents := sequencerRetain_events s.host.log minEvents cutoffTs env
    have hissued : s.host.issued ⊆ (s.host.step (.retain minEvents cutoffTs env)).issued := by
      simp only [Firehose.step, Firehose.write, if_pos hopen]
      exact List.subset_append_left _ _
    generalize hc : currentLocked s.host.log env.queried - minEvents = cutoff at *
    -- An event that is still there was there before, and is no deleted one.
    have hreal : ∀ row ∈ (s.host.step (.retain minEvents cutoffTs env)).log.real,
        row ∈ s.host.log.real ∧ (env.deleted = true → outdated cutoff cutoffTs row = false) := by
      intro row hrow
      obtain ⟨hrow, hr⟩ := EventLog.mem_real.mp hrow
      rw [hlog, hevents] at hrow
      split at hrow
      · obtain ⟨hmem, hkept⟩ := List.mem_filter.mp hrow
        exact ⟨EventLog.mem_real.mpr ⟨hmem, hr⟩, fun _ => by simpa using hkept⟩
      · next hnot =>
        exact ⟨EventLog.mem_real.mpr ⟨hrow, hr⟩, fun hd => absurd ⟨hcutoff, hprep, hd⟩ hnot⟩
    have hle : ∀ d ∈ s.host.lostBy (.retain minEvents cutoffTs env), d ≤ cutoff := by
      intro d hd
      obtain ⟨-, row, -, rfl, hout⟩ := (hlost d).mp hd
      simp only [outdated, Bool.and_eq_true, decide_eq_true_eq] at hout
      exact hout.1
    simp only [Retention.step]
    constructor
    · exact hacc
    · intro d hd
      simp only [hlog, hmark]
      rcases List.mem_append.mp hd with hd | hd
      · have := h.le_mark d hd
        split <;> omega
      · have := hle d hd
        split
        · omega
        · next hstays =>
          obtain ⟨hdel, row, hrow, rfl, hout⟩ := (hlost d).mp hd
          exact hmarks.unmoved (by simpa using hstays) hdel row hrow hout
    · simp only [hlog, hmark]
      split
      · next hmoves =>
        rcases hmarks.moved hmoves with hback | ⟨hdel, row, hrow, hout, hat⟩
        · rw [max_eq_left hback]
          exact h.mark_lost.imp_right (List.mem_append_left _)
        · rcases le_total s.host.log.mark cutoff with hle' | hle'
          · rw [max_eq_right hle']
            exact Or.inr (List.mem_append_right _ ((hlost cutoff).mpr ⟨hdel, row, hrow, hat, hout⟩))
          · rw [max_eq_left hle']
            exact h.mark_lost.imp_right (List.mem_append_left _)
      · exact h.mark_lost.imp_right (List.mem_append_left _)
    · intro d hd
      refine hissued ?_
      rcases List.mem_append.mp hd with hd | hd
      · exact h.lost_issued d hd
      · obtain ⟨-, row, hrow, rfl, -⟩ := (hlost d).mp hd
        exact h.recorded row hrow
    · intro row hrow
      exact hissued (h.recorded row (hreal row hrow).1)
    · intro row hrow d hd
      obtain ⟨hold, hkept⟩ := hreal row hrow
      rcases List.mem_append.mp hd with hd | hd
      · exact h.later row hold d hd
      · obtain ⟨hdel, gone, hgone, rfl, hout⟩ := (hlost d).mp hd
        exact hmarks.oldestFirst hdel gone hgone hout row hold (hkept hdel)
  · -- The call comes to an end before its DELETE.
    have hnone : s.host.lostBy (.retain minEvents cutoffTs env) = [] := by
      refine List.eq_nil_iff_forall_not_mem.mpr fun seq hseq => ?_
      obtain ⟨⟨ho, hp, -, hc⟩, -⟩ := (mem_lostBy ..).mp hseq
      exact hruns ⟨ho, hp, hc⟩
    have hhost : s.host.step (.retain minEvents cutoffTs env) = s.host ∨
        (sequencerRetain s.host.log minEvents cutoffTs env).1 = s.host.log := by
      by_cases ho : s.host.isOpen = true
      · right
        simp only [sequencerRetain]
        by_cases hc : currentLocked s.host.log env.queried - minEvents ≤ 0
        · simp only [if_pos hc]
        · have hp : env.prepared = false := by
            by_contra hp
            exact hruns ⟨ho, by simpa using hp, by omega⟩
          simp only [if_neg hc, hp, Bool.not_false, if_true]
      · left
        simp [Firehose.step, Firehose.write, ho]
    simp only [Retention.step, hnone, List.append_nil]
    rcases hhost with hsame | hsame
    · rw [hsame]
      exact h
    · exact h.write_subset hacc (by rw [hsame]) (by rw [hsame]; exact List.Subset.refl _)

theorem Kept.purge {s : Retention} (h : Kept s) (did : String) (deleted : Bool) :
    Kept ⟨s.host.step (.purge did deleted), s.lost⟩ := by
  have hacc := h.accounted.step (.purge did deleted)
  rcases sequencerPurgeAccount_cases s.host.log did deleted with hd | hd
  · exact h.write_subset hacc (by rw [hd]) (by rw [hd]; exact List.Subset.refl _)
  · refine h.write_subset hacc (by rw [hd]; rfl) fun row hrow => ?_
    rw [hd] at hrow
    obtain ⟨hrow, hreal⟩ := EventLog.mem_real.mp hrow
    exact EventLog.mem_real.mpr ⟨List.mem_of_mem_filter hrow, hreal⟩

theorem Kept.reopen {s : Retention} (h : Kept s) (prepared : Bool) (seed : SeedEnv) :
    Kept ⟨s.host.step (.reopen prepared seed), s.lost⟩ := by
  refine h.of_subset (h.accounted.step (.reopen prepared seed)) ?_ ?_ ?_
  all_goals
    cases ho : sequencerOpen s.host.log prepared seed with
    | none => simp [Firehose.step, ho]
    | some log =>
      obtain ⟨hmark, hreal⟩ := sequencerOpen_keeps ho
      simp [Firehose.step, ho, EventLog.mark, hmark, hreal]

/-- A subscriber's own moves leave the log alone. -/
theorem Kept.attach {s : Retention} (h : Kept s) (cursor : Int) :
    Kept ⟨s.host.step (.attach cursor), s.lost⟩ := by
  refine h.of_subset (h.accounted.step (.attach cursor)) ?_ ?_ ?_
  all_goals
    simp only [Firehose.step]
    split <;> simp

/-- Every step that meets the condition keeps the mark honest. -/
theorem Kept.step {s : Retention} (h : Kept s) {call : RetentionCall}
    (hcond : KeepsHonestMark s call) : Kept (s.step call) := by
  cases call with
  | subscribe item queried pruneQueried =>
    simp only [Retention.step]
    split
    · exact h.attach _
    · exact h
  | call call =>
    have hsame : ∀ host, s.host.lostBy call = [] → Kept ⟨host, s.lost⟩ →
        Kept ⟨host, s.lost ++ s.host.lostBy call⟩ := by
      intro host hnone hkept
      rwa [hnone, List.append_nil]
    cases call with
    | reopen prepared seed => exact hsame _ rfl (h.reopen prepared seed)
    | append event env => exact hsame _ rfl (h.append event env)
    | retain minEvents cutoffTs env => exact h.retain hcond
    | purge did deleted => exact hsame _ rfl (h.purge did deleted)
    | attach cursor => exact hsame _ rfl (h.attach cursor)
    | read outcome => exact hsame _ rfl (h.of_subset (h.accounted.step (.read outcome)) rfl
        (List.Subset.refl _) (List.Subset.refl _))
    | send status => exact hsame _ rfl (h.of_subset (h.accounted.step (.send status)) rfl
        (List.Subset.refl _) (List.Subset.refl _))
    | leave => exact hsame _ rfl (h.of_subset (h.accounted.step .leave) rfl
        (List.Subset.refl _) (List.Subset.refl _))

/-! ## The verdict at an arrival -/

/-- The flag of a subscriber that is let in. -/
theorem subscribeRepos_outdated {l : EventLog} {item : CursorParam} {queried pruneQueried : Bool}
    {cursor : Int} (hparse : parseCursor item = some cursor)
    (haccepted : (subscribeRepos l item queried pruneQueried).error = none) :
    (subscribeRepos l item queried pruneQueried).outdated = true ↔
      pruneQueried = true ∧ cursor < l.mark := by
  have hnonneg := parseCursor_nonneg hparse
  have hcurrent : ¬ currentLocked l queried < cursor := by
    intro hlt
    rw [(subscribeRepos_future_iff hparse l queried pruneQueried).mpr hlt] at haccepted
    cases haccepted
  have hpositive : 0 < l.mark ∧ cursor < l.mark ↔ cursor < l.mark :=
    ⟨And.right, fun hlt => ⟨by omega, hlt⟩⟩
  cases pruneQueried with
  | false => simp [subscribeRepos, hparse, hcurrent, prunedThrough]
  | true =>
    rw [EventLog.mark] at hpositive
    simp [subscribeRepos, hparse, hcurrent, prunedThrough, EventLog.mark, hpositive]

theorem Kept.told {s : Retention} (h : Kept s) {call : RetentionCall}
    (hcond : KeepsHonestMark s call) : ToldExactly s call := by
  cases call with
  | call call => trivial
  | subscribe item queried pruneQueried =>
    intro cursor hparse haccepted
    have hnonneg := parseCursor_nonneg hparse
    have hflag : (subscribeRepos s.host.log item queried pruneQueried).outdated = true ↔
        cursor < s.host.log.mark := by
      rw [subscribeRepos_outdated hparse haccepted]
      refine ⟨And.right, fun hlt => ⟨?_, hlt⟩⟩
      by_contra hfails
      have := hcond (by simpa using hfails) cursor hparse
      omega
    have hlost : cursor < s.host.log.mark ↔ ∃ seq ∈ s.lost, cursor < seq := by
      constructor
      · intro hlt
        rcases h.mark_lost with hzero | hmem
        · omega
        · exact ⟨_, hmem, hlt⟩
      · rintro ⟨seq, hmem, hlt⟩
        exact hlt.trans_le (h.le_mark seq hmem)
    refine ⟨hflag.trans hlost, fun row hrow hnext => ?_⟩
    rw [← Bool.not_eq_true, hflag, hlost]
    rintro ⟨seq, hmem, hlt⟩
    have hle := hnext.2 seq (h.lost_issued seq hmem) hlt
    have := h.later row hrow seq hmem
    omega

/-- Over every run of the log and its subscribers: if every retention moves the mark just to
the newest event it deletes and deletes the oldest events first, and the mark can be read
whenever it matters, every subscriber with an accepted cursor is told of a loss exactly when
there was one. -/
theorem outdated_exactly_when_lost (calls : List RetentionCall)
    (h : Steps Retention.step KeepsHonestMark Retention.fresh calls) :
    Steps Retention.step ToldExactly Retention.fresh calls :=
  Steps.imp kept_fresh (fun _ _ hkept hcond => hkept.told hcond)
    (fun _ _ hkept hcond => hkept.step hcond) h

/-! ## A run on which the mark overtakes the deleted events -/

/-- An append that gets through. -/
def appendAt (now : String) : FirehoseCall :=
  .append ⟨.commit, "did:plc:a"⟩ ⟨false, true, true, now, fun _ => (.ok, [1]), true, true⟩

/-- A retention whose statements all get through. -/
def retainBefore (minEvents : Int) (cutoffTs : String) : FirehoseCall :=
  .retain minEvents cutoffTs ⟨true, true, true, false, true⟩

/-- A log with an old event and two newer ones, of which one is to stay by number. -/
def agedLog : List RetentionCall :=
  [.call (.reopen true ⟨true, 0, true, true⟩), .call (appendAt "2024-01-01T00:00:00.000Z"),
    .call (appendAt "2025-01-01T00:00:00.000Z"), .call (appendAt "2025-01-02T00:00:00.000Z")]

/-- Retention deletes the first event and sets the mark to the second, which is too young to
go: a subscriber that has read the first one is told that events are missing. -/
theorem told_of_a_loss_that_was_none :
    ¬ Steps Retention.step ToldExactly Retention.fresh
      (agedLog ++ [.call (retainBefore 1 "2024-07-01T00:00:00.000Z"),
        .subscribe (.string "1") true true]) := by
  rw [steps_append]
  rintro ⟨-, -, htold, -⟩
  have hflag := (htold 1 (by decide) (by decide)).1.mp (by decide)
  revert hflag
  decide

/-- The same log, when the number of events to keep leaves only the old one behind. -/
theorem told_of_the_loss_there_was : Steps Retention.step ToldExactly Retention.fresh
    (agedLog ++ [.call (retainBefore 2 "2024-07-01T00:00:00.000Z"),
      .subscribe (.string "0") true true]) := by
  refine outdated_exactly_when_lost _ ?_
  rw [steps_append]
  refine ⟨by simp [agedLog, KeepsHonestMark, appendAt], ?_, ?_, trivial⟩
  · intro _ _ _
    constructor <;> decide
  · intro h
    cases h

end MetalBear.Sequencer
