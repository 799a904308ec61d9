import MetalBear.Library.CString
import MetalBear.Sequencer.Firehose

/-!
# Future cursors

The host's high-water mark lives in two places: the AUTOINCREMENT counter, which never
goes back, and the largest sequence number among the surviving rows, which is what
`subscribe_repos` compares a cursor with. This file says which calls pull the two apart,
which bring them together again, and that exactly while they are apart some cursor the
host has issued is turned away as a cursor from the future.
-/

namespace MetalBear.Sequencer

open Machine

/-! ## Admission -/

/-- The `cursor` member of the request's parameters, as cJSON holds it. -/
inductive CursorParam where
  | absent
  | string (s : String)
  | other
  deriving DecidableEq, Repr

/-- What a `subscriber_worker` starts with. -/
structure Admission where
  cursor : Int
  /-- `worker->error` and `worker->message`. -/
  error : Option (String × String)
  outdated : Bool
  deriving DecidableEq, Repr

/-- The cursor a request carries, if it is a non-negative integer. -/
def parseCursor : CursorParam → Option Int
  | .string s =>
    let parsed := CString.strtoll (CString.chars s)
    if !parsed.range && parsed.rest.isEmpty && decide (0 ≤ parsed.value) then some parsed.value
    else none
  | _ => none

/-- `pruned_through`; `queried` tells whether the statement could be run. -/
def prunedThrough (l : EventLog) (queried : Bool) : Int :=
  if queried then l.prunedThrough.getD 0 else 0

/-- `worker->error` and `worker->message` for a cursor that is no integer. -/
def invalidRequest : String × String :=
  ("InvalidRequest", "Cursor must be a non-negative integer.")

/-- `worker->error` and `worker->message` for a cursor beyond the log. -/
def futureCursor : String × String := ("FutureCursor", "Cursor in the future.")

/-- The decision of `subscribe_repos`; `queried` and `pruneQueried` tell whether the two
SELECTs it makes could be run. -/
def subscribeRepos (l : EventLog) (item : CursorParam) (queried pruneQueried : Bool) :
    Admission :=
  let current := currentLocked l queried
  let hasCursor := (parseCursor item).isSome
  let cursor := (parseCursor item).getD 0
  let start := if hasCursor then cursor else current
  if item ≠ .absent ∧ !hasCursor then ⟨start, some invalidRequest, false⟩
  else if current < cursor then ⟨start, some futureCursor, false⟩
  else if hasCursor then
    let pruned := prunedThrough l pruneQueried
    ⟨start, none, decide (0 < pruned) && decide (cursor < pruned)⟩
  else ⟨start, none, false⟩

/-- A cursor is turned away as a future cursor exactly when it is beyond the newest
surviving event. -/
theorem subscribeRepos_future_iff {item : CursorParam} {cursor : Int}
    (h : parseCursor item = some cursor) (l : EventLog) (q p : Bool) :
    (subscribeRepos l item q p).error = some futureCursor ↔ currentLocked l q < cursor := by
  by_cases hc : currentLocked l q < cursor <;> simp [subscribeRepos, h, hc]

/-! ## Issued cursors -/

/-- A cursor the host has issued: the number of an event of this log, or one at most as
large as a floor the log was seeded with. -/
def HostIssued (s : Firehose) (cursor : Int) : Prop :=
  cursor ∈ s.issued ∨ ∃ floor ∈ s.floors, cursor ≤ floor

/-- No cursor the host has issued is turned away as a future cursor. -/
def NeverFuture (s : Firehose) (queried : Bool) : Prop :=
  ∀ item cursor, parseCursor item = some cursor → HostIssued s cursor → ∀ pruneQueried,
    (subscribeRepos s.log item queried pruneQueried).error ≠ some futureCursor

/-- The newest surviving event stands at the high-water mark. -/
def AtMark (s : Firehose) : Prop := s.log.events.highWater ≤ currentLocked s.log true

/-- The mark is a number that was issued, or nothing was; and it fits 64 bits. -/
structure Marked (s : Firehose) : Prop where
  accounted : Accounted s
  attained : s.log.events.highWater = 0 ∨ s.log.events.highWater ∈ s.used
  bounded : s.log.events.highWater ≤ maxRowid
  used_pos : ∀ k ∈ s.used, 0 < k

/-- Some issued cursor is as large as the mark, and can be written in a request. -/
theorem Marked.cursor {s : Firehose} (h : Marked s) (hpos : 0 < s.log.events.highWater) :
    ∃ item, parseCursor item = some s.log.events.highWater ∧
      HostIssued s s.log.events.highWater := by
  obtain ⟨n, hn⟩ := Int.eq_ofNat_of_zero_le hpos.le
  have hb : (n : Int) ≤ 2 ^ 63 - 1 := by
    have := h.bounded
    rw [hn] at this
    exact this
  refine ⟨.string n.repr, ?_, ?_⟩
  · simp [parseCursor, CString.strtoll_repr hb, hn]
  · rcases h.attained with hz | hu
    · omega
    · rcases List.mem_append.mp hu with hu | hu
      · exact Or.inl hu
      · exact Or.inr ⟨_, hu, le_refl _⟩

/-- Every issued cursor is at most the mark. -/
theorem Marked.issued_le {s : Firehose} (h : Marked s) {cursor : Int} (hc : HostIssued s cursor) :
    cursor ≤ s.log.events.highWater := by
  rcases hc with hc | ⟨floor, hf, hle⟩
  · exact h.accounted.le_mark cursor (List.mem_append_left _ hc)
  · exact hle.trans (h.accounted.le_mark floor (List.mem_append_right _ hf))

/-- The newest surviving event, or zero, is never negative. -/
theorem Marked.current_nonneg {s : Firehose} (h : Marked s) (queried : Bool) :
    0 ≤ currentLocked s.log queried := by
  cases queried with
  | false => exact le_refl _
  | true =>
    simp only [currentLocked, if_true]
    cases hm : s.log.events.maxKey with
    | none => exact le_refl _
    | some k =>
      obtain ⟨r, hr⟩ := AutoTable.exists_of_maxKey hm
      have hk := h.accounted.rows (k, r.frame)
        (List.mem_map_of_mem (f := fun row : Int × EventRow => (row.1, row.2.frame)) hr)
      exact (h.used_pos k hk).le

/-- Issued cursors are safe exactly while the surviving rows reach the mark. -/
theorem Marked.served_iff {s : Firehose} (h : Marked s) (queried : Bool) :
    NeverFuture s queried ↔ s.log.events.highWater ≤ currentLocked s.log queried := by
  constructor
  · intro hn
    by_contra hlt
    have hcur := h.current_nonneg queried
    obtain ⟨item, hp, hi⟩ := h.cursor (by omega)
    exact hn item _ hp hi true ((subscribeRepos_future_iff hp ..).mpr (not_le.mp hlt))
  · intro hle item cursor hp hi pruneQueried hf
    have hlt := (subscribeRepos_future_iff hp ..).mp hf
    have := h.issued_le hi
    omega

/-! ## What each call does to the two marks -/

/-- A call that leaves the newest surviving row below the mark: retention deletes the
newest row, or a floor is placed and deleted again with no other row as high. -/
def LowersCurrent (s : Firehose) : FirehoseCall → Prop
  | .retain minEvents cutoffTs env =>
    s.isOpen = true ∧ env.prepared = true ∧ env.deleted = true ∧
      0 < currentLocked s.log env.queried - minEvents ∧
      ∃ row ∈ s.log.events.rows, (∀ other ∈ s.log.events.rows, other.1 ≤ row.1) ∧
        outdated (currentLocked s.log env.queried - minEvents) cutoffTs row = true
  | .reopen prepared seed =>
    prepared = true ∧ (placeFloor s.log seed).isSome = true ∧ seed.deleted = true ∧
      ∀ row ∈ s.log.events.rows, row.2.isPlaceholder = false →
        row.1 < max s.log.events.highWater seed.time.toInt
  | _ => False

/-- A call that puts a row at the mark: an event is committed, or a floor as high as the
mark is placed and its deletion fails. -/
def RestoresCurrent (s : Firehose) : FirehoseCall → Prop
  | .append event env => s.isOpen = true ∧ (appendEvent s.log event env).2 = .ok
  | .reopen prepared seed =>
    prepared = true ∧ (placeFloor s.log seed).isSome = true ∧ seed.deleted = false ∧
      s.log.events.highWater ≤ seed.time.toInt
  | _ => False

/-- What a write does to the log and to the record of used numbers. -/
theorem write_cases (s : Firehose) {log : EventLog} {used : List Int}
    (hadd : (added s.log log).map Prod.fst = used) :
    (s.isOpen = true ∧ (s.write log).log = log ∧ (s.write log).issued = s.issued ++ used ∧
      (s.write log).floors = s.floors) ∨ (s.isOpen = false ∧ s.write log = s) := by
  unfold Firehose.write
  split
  · next h => exact Or.inl ⟨h, rfl, by rw [hadd], rfl⟩
  · next h => exact Or.inr ⟨by simpa using h, rfl⟩

theorem marked_fresh : Marked Firehose.fresh where
  accounted := accounted_fresh
  attained := Or.inl rfl
  bounded := by decide
  used_pos := by simp [Firehose.fresh, Firehose.used]

/-- Deleting rows moves neither the mark nor the record. -/
theorem Marked.delete {s : Firehose} (h : Marked s) {log : EventLog}
    {p : Int × EventRow → Bool}
    (hd : log.events = s.log.events ∨ log.events = s.log.events.delete p) :
    Marked (s.write log) := by
  obtain ⟨-, hnone, hw⟩ := changes_of_delete hd
  have hadd : (added s.log log).map Prod.fst = [] := by simp [hnone]
  have hacc : Accounted (s.write log) := h.accounted.write hw.ge
  rcases write_cases s hadd with ⟨-, hlog, hi, hf⟩ | ⟨-, hsame⟩
  · have hused : (s.write log).used = s.used := by simp [Firehose.used, hi, hf]
    exact ⟨hacc, by rw [hlog, hw, hused]; exact h.attained, by rw [hlog, hw]; exact h.bounded,
      by rw [hused]; exact h.used_pos⟩
  · rwa [hsame]

/-- An appended row is the new mark. -/
theorem Marked.append {s : Firehose} (h : Marked s) {log : EventLog} {row : EventRow}
    (hr : log.events.rows = s.log.events.rows ++ [(s.log.events.highWater + 1, row)])
    (hw : log.events.highWater = s.log.events.highWater + 1)
    (hroom : s.log.events.highWater < maxRowid) : Marked (s.write log) := by
  have hadd : (added s.log log).map Prod.fst = [s.log.events.highWater + 1] := by
    simp [(changes_of_append hr).2.2]
  have hacc : Accounted (s.write log) := h.accounted.write (by omega)
  rcases write_cases s hadd with ⟨-, hlog, hi, hf⟩ | ⟨-, hsame⟩
  · refine ⟨hacc, Or.inr ?_, ?_, fun k hk => ?_⟩
    · simp [hlog, hw, Firehose.used, hi]
    · rw [hlog, hw]
      omega
    · have hk' : k ∈ s.used ∨ k = s.log.events.highWater + 1 := by
        simp only [Firehose.used, hi, hf, List.mem_append, List.mem_singleton] at hk ⊢
        tauto
      rcases hk' with hk' | rfl
      · exact h.used_pos k hk'
      · have := s.log.events.nonneg
        omega
  · rwa [hsame]

/-- The table after a log was opened: as before, or with the floor placed, or with the
floor placed and every placeholder deleted. -/
theorem sequencerOpen_cases {l l' : EventLog} {prepared : Bool} {seed : SeedEnv}
    (h : sequencerOpen l prepared seed = some l') :
    ((placeFloor l seed).isSome = false ∧ l'.events = l.events) ∨
      ((placeFloor l seed).isSome = true ∧ 0 < seed.time.toInt ∧
        l'.events.highWater = max l.events.highWater seed.time.toInt ∧
        l'.events.rows = if seed.deleted then l.events.rows.filter (fun row => !row.2.isPlaceholder)
          else l.events.rows ++ [(seed.time.toInt, EventRow.placeholder)]) := by
  simp only [sequencerOpen] at h
  split at h
  · obtain rfl : seedSequenceFloor l seed = l' := by simpa using h
    unfold seedSequenceFloor
    cases hp : placeFloor l seed with
    | none => exact Or.inl ⟨rfl, rfl⟩
    | some events =>
      obtain ⟨hr, hw, hpos⟩ := placeFloor_eq_some hp
      have hplaceholder : EventRow.placeholder.isPlaceholder = true := by decide
      cases hd : seed.deleted <;>
        simp [hpos, hw, hr, List.filter_append, hplaceholder]
  · cases h

theorem Marked.reopen {s : Firehose} (h : Marked s) (prepared : Bool) (seed : SeedEnv) :
    Marked (s.step (.reopen prepared seed)) := by
  have hacc := h.accounted.step (.reopen prepared seed)
  cases ho : sequencerOpen s.log prepared seed with
  | none =>
    simp only [Firehose.step, ho] at hacc ⊢
    exact ⟨hacc, h.attained, h.bounded, h.used_pos⟩
  | some log =>
    simp only [Firehose.step, ho] at hacc ⊢
    rcases sequencerOpen_cases ho with ⟨hp, he⟩ | ⟨hp, hpos, hw, -⟩
    · refine ⟨hacc, ?_, ?_, ?_⟩ <;>
        simp only [hp, he, Firehose.used, Bool.false_eq_true, if_false, List.append_nil]
      exacts [h.attained, h.bounded, h.used_pos]
    · have hlt := seed.time.toInt_lt
      refine ⟨hacc, Or.inr ?_, ?_, fun k hk => ?_⟩
      · rw [hw]
        rcases le_total s.log.events.highWater seed.time.toInt with hle | hle
        · simp [Firehose.used, hp, max_eq_right hle]
        · have hne : s.log.events.highWater ≠ 0 := by omega
          have hu := h.attained.resolve_left hne
          rw [max_eq_left hle]
          simp only [Firehose.used, List.mem_append] at hu ⊢
          tauto
      · have := h.bounded
        simp only [hw, maxRowid] at this ⊢
        omega
      · have hk' : k ∈ s.used ∨ k = seed.time.toInt := by
          simpa [Firehose.used, hp, or_assoc] using hk
        rcases hk' with hk' | rfl
        · exact h.used_pos k hk'
        · exact hpos

/-- Every call keeps the bookkeeping of the mark. -/
theorem Marked.step {s : Firehose} (h : Marked s) (call : FirehoseCall) :
    Marked (s.step call) := by
  cases call with
  | reopen prepared seed => exact h.reopen prepared seed
  | append event env =>
    rcases appendEvent_cases s.log event env with ⟨ha, -⟩ | ⟨row, -, hroom, -, hr, hw⟩
    · exact h.delete (p := fun _ => false) (Or.inl (by rw [ha]))
    · exact h.append hr hw hroom
  | retain minEvents cutoffTs env => exact h.delete (sequencerRetain_cases ..)
  | purge did deleted =>
    refine h.delete (p := purged s.log did) ?_
    rcases sequencerPurgeAccount_cases s.log did deleted with hd | hd
    · exact Or.inl (by rw [hd])
    · exact Or.inr (by rw [hd])
  | attach cursor =>
    simp only [Firehose.step]
    split
    · exact ⟨⟨h.1.1, h.1.2⟩, h.2, h.3, h.4⟩
    · exact h
  | read outcome => exact ⟨⟨h.1.1, h.1.2⟩, h.2, h.3, h.4⟩
  | send status => exact ⟨⟨h.1.1, h.1.2⟩, h.2, h.3, h.4⟩
  | leave => exact ⟨⟨h.1.1, h.1.2⟩, h.2, h.3, h.4⟩

/-- A row stands at the mark, or nothing was ever stored. -/
def Reaches (t : AutoTable EventRow) : Prop :=
  t.highWater = 0 ∨ ∃ row ∈ t.rows, t.highWater ≤ row.1

theorem Marked.row_pos {s : Firehose} (h : Marked s) {row : Int × EventRow}
    (hr : row ∈ s.log.events.rows) : 0 < row.1 :=
  h.used_pos row.1 (h.accounted.rows (row.1, row.2.frame)
    (List.mem_map_of_mem (f := fun row : Int × EventRow => (row.1, row.2.frame)) hr))

/-- The surviving rows are at the mark when one of them stands there. -/
theorem Marked.atMark_iff {s : Firehose} (h : Marked s) : AtMark s ↔ Reaches s.log.events := by
  have hcur := h.current_nonneg true
  simp only [AtMark, Reaches, currentLocked, if_true] at hcur ⊢
  constructor
  · intro hle
    cases hm : s.log.events.maxKey with
    | none =>
      have := s.log.events.nonneg
      simp only [hm, Option.getD_none] at hle
      omega
    | some k =>
      obtain ⟨r, hr⟩ := AutoTable.exists_of_maxKey hm
      exact Or.inr ⟨(k, r), hr, by simpa [hm] using hle⟩
  · rintro (hz | ⟨row, hrow, hle⟩)
    · omega
    · obtain ⟨k, hk, hmax⟩ := AutoTable.le_maxKey hrow
      simp only [hk, Option.getD_some]
      omega

/-- Without its newest row a table no longer reaches its mark. -/
theorem not_reaches_delete {t : AutoTable EventRow} {p : Int × EventRow → Bool}
    {row : Int × EventRow} (hr : row ∈ t.rows) (hmax : ∀ other ∈ t.rows, other.1 ≤ row.1)
    (hp : p row = true) (hpos : 0 < row.1) : ¬ Reaches (t.delete p) := by
  have hle := t.le_highWater row hr
  rintro (hz | ⟨other, hother, hle'⟩)
  · simp only [AutoTable.highWater_delete] at hz
    omega
  · obtain ⟨hmem, hnot⟩ := List.mem_filter.mp hother
    have hother_le := hmax other hmem
    simp only [AutoTable.highWater_delete] at hle'
    obtain rfl : other = row :=
      List.inj_on_of_nodup_map t.nodup hmem hr (by omega)
    simp [hp] at hnot

/-- With its newest row spared, a table reaches its mark as before. -/
theorem reaches_delete_iff {t : AutoTable EventRow} {p : Int × EventRow → Bool}
    (hp : ∀ row ∈ t.rows, (∀ other ∈ t.rows, other.1 ≤ row.1) → p row = false) :
    Reaches (t.delete p) ↔ Reaches t := by
  refine or_congr Iff.rfl ⟨?_, ?_⟩
  · rintro ⟨row, hrow, hle⟩
    exact ⟨row, List.mem_of_mem_filter hrow, hle⟩
  · rintro ⟨row, hrow, hle⟩
    have hmax : ∀ other ∈ t.rows, other.1 ≤ row.1 := fun other ho =>
      (t.le_highWater other ho).trans hle
    exact ⟨row, List.mem_filter.mpr ⟨hrow, by simp [hp row hrow hmax]⟩, hle⟩

/-- What a write means for the mark. -/
theorem Marked.atMark_write {s : Firehose} {log : EventLog} (h' : Marked (s.write log)) :
    (s.isOpen = true ∧ (AtMark (s.write log) ↔ Reaches log.events)) ∨
      (s.isOpen = false ∧ (AtMark (s.write log) ↔ AtMark s)) := by
  obtain ⟨ho, hlog, -, -⟩ | ⟨ho, hsame⟩ := write_cases s (Eq.refl ((added s.log log).map Prod.fst))
  · exact Or.inl ⟨ho, by rw [h'.atMark_iff, hlog]⟩
  · exact Or.inr ⟨ho, by rw [hsame]⟩

/-- A committed event stands at the mark. -/
theorem atMark_append {s : Firehose} (h : Marked s) (event : SubscribeEvent) (env : AppendEnv) :
    (RestoresCurrent s (.append event env) → AtMark (s.step (.append event env))) ∧
      (¬ RestoresCurrent s (.append event env) →
        (AtMark (s.step (.append event env)) ↔ AtMark s)) := by
  have hw := Marked.atMark_write (h.step (.append event env))
  simp only [RestoresCurrent, Firehose.step] at hw ⊢
  rcases hw with ⟨ho, hw⟩ | ⟨ho, hw⟩
  · rw [hw]
    rcases appendEvent_cases s.log event env with ⟨ha, hs⟩ | ⟨row, hs, -, -, hr, hwater⟩
    · simp [ho, hs, ha, h.atMark_iff]
    · have hreach : Reaches (appendEvent s.log event env).1.events := by
        refine Or.inr ⟨(s.log.events.highWater + 1, row), ?_, hwater.le⟩
        rw [hr]
        exact List.mem_append_right _ (List.mem_singleton.mpr rfl)
      simp [ho, hs, hreach]
  · simp [ho, hw]

/-- Retention lowers the newest surviving number exactly when it deletes the newest row. -/
theorem atMark_retain {s : Firehose} (h : Marked s) (minEvents : Int) (cutoffTs : String)
    (env : RetainEnv) : (LowersCurrent s (.retain minEvents cutoffTs env) →
        ¬ AtMark (s.step (.retain minEvents cutoffTs env))) ∧
      (¬ LowersCurrent s (.retain minEvents cutoffTs env) →
        (AtMark (s.step (.retain minEvents cutoffTs env)) ↔ AtMark s)) := by
  have hw := Marked.atMark_write (h.step (.retain minEvents cutoffTs env))
  simp only [LowersCurrent, Firehose.step] at hw ⊢
  rcases hw with ⟨ho, hw⟩ | ⟨ho, hw⟩
  · rw [hw, h.atMark_iff, sequencerRetain_events]
    by_cases hdel : 0 < currentLocked s.log env.queried - minEvents ∧ env.prepared = true ∧
        env.deleted = true
    · rw [if_pos hdel]
      constructor
      · rintro ⟨-, -, -, -, row, hrow, hmax, hout⟩
        exact not_reaches_delete hrow hmax hout (h.row_pos hrow)
      · intro hspared
        refine reaches_delete_iff fun row hrow hmax => ?_
        by_contra hout
        exact hspared ⟨ho, hdel.2.1, hdel.2.2, hdel.1, row, hrow, hmax, by simpa using hout⟩
    · rw [if_neg hdel]
      exact ⟨fun hlow => absurd ⟨hlow.2.2.2.1, hlow.2.1, hlow.2.2.1⟩ hdel, fun _ => Iff.rfl⟩
  · simp [ho, hw]

/-- Purging never touches the newest row. -/
theorem atMark_purge {s : Firehose} (h : Marked s) (did : String) (deleted : Bool) :
    AtMark (s.step (.purge did deleted)) ↔ AtMark s := by
  have hw := Marked.atMark_write (h.step (.purge did deleted))
  simp only [Firehose.step] at hw ⊢
  rcases hw with ⟨-, hw⟩ | ⟨-, hw⟩
  · rw [hw, h.atMark_iff]
    rcases sequencerPurgeAccount_cases s.log did deleted with hd | hd <;> rw [hd]
    exact reaches_delete_iff fun row _ hmax => not_purged_newest hmax
  · exact hw

/-- Opening a log moves the two marks apart, together, or not at all. -/
theorem atMark_reopen {s : Firehose} (h : Marked s) (prepared : Bool) (seed : SeedEnv) :
    (LowersCurrent s (.reopen prepared seed) → ¬ AtMark (s.step (.reopen prepared seed))) ∧
      (RestoresCurrent s (.reopen prepared seed) → AtMark (s.step (.reopen prepared seed))) ∧
      (¬ LowersCurrent s (.reopen prepared seed) → ¬ RestoresCurrent s (.reopen prepared seed) →
        (AtMark (s.step (.reopen prepared seed)) ↔ AtMark s)) := by
  have h' := h.step (.reopen prepared seed)
  rw [h'.atMark_iff, h.atMark_iff]
  cases ho : sequencerOpen s.log prepared seed with
  | none =>
    have hprep : prepared = false := by
      cases prepared
      · rfl
      · cases ho
    have hlog : (s.step (.reopen prepared seed)).log = s.log := by simp [Firehose.step, ho]
    rw [hlog]
    simp [LowersCurrent, RestoresCurrent, hprep]
  | some log =>
    have hprep : prepared = true := by
      cases prepared
      · cases ho
      · rfl
    have hlog : (s.step (.reopen prepared seed)).log = log := by simp [Firehose.step, ho]
    rw [hlog]
    rcases sequencerOpen_cases ho with ⟨hp, he⟩ | ⟨hp, hpos, hwater, hrows⟩
    · simp [LowersCurrent, RestoresCurrent, hp, he]
    · have hnonneg := s.log.events.nonneg
      simp only [LowersCurrent, RestoresCurrent, hprep, hp, true_and, Reaches, hwater, hrows]
      have hne : ¬ max s.log.events.highWater seed.time.toInt = 0 := by omega
      cases hd : seed.deleted
      · -- The floor stays: it stands at the new mark, or the old mark stands.
        have hstay : (∃ row ∈ s.log.events.rows ++ [(seed.time.toInt, EventRow.placeholder)],
            max s.log.events.highWater seed.time.toInt ≤ row.1) ↔
            s.log.events.highWater ≤ seed.time.toInt ∨
              ∃ row ∈ s.log.events.rows, s.log.events.highWater ≤ row.1 := by
          constructor
          · rintro ⟨row, hrow, hle⟩
            rcases List.mem_append.mp hrow with hrow | hrow
            · exact Or.inr ⟨row, hrow, (le_max_left _ _).trans hle⟩
            · rw [List.mem_singleton.mp hrow] at hle
              exact Or.inl ((le_max_left _ _).trans hle)
          · rintro (hle | ⟨row, hrow, hle⟩)
            · exact ⟨_, List.mem_append_right _ (List.mem_singleton.mpr rfl), by simp [hle]⟩
            · rcases le_total s.log.events.highWater seed.time.toInt with hf | hf
              · exact ⟨_, List.mem_append_right _ (List.mem_singleton.mpr rfl), by simp [hf]⟩
              · exact ⟨row, List.mem_append_left _ hrow, by rw [max_eq_left hf]; exact hle⟩
        have hzero : s.log.events.highWater = 0 → s.log.events.highWater ≤ seed.time.toInt := by
          omega
        simp only [Bool.false_eq_true, if_false, hstay, hne, false_or]
        tauto
      · -- Every placeholder goes: what reaches the new mark is an older row, or nothing.
        have hgone : (∃ row ∈ s.log.events.rows.filter (fun row => !row.2.isPlaceholder),
            max s.log.events.highWater seed.time.toInt ≤ row.1) ↔
            ¬ ∀ row ∈ s.log.events.rows, row.2.isPlaceholder = false →
              row.1 < max s.log.events.highWater seed.time.toInt := by
          simp only [List.mem_filter, Bool.not_eq_eq_eq_not, Bool.not_true]
          push Not
          constructor
          · rintro ⟨row, ⟨hrow, hreal⟩, hle⟩
            exact ⟨row, hrow, hreal, hle⟩
          · rintro ⟨row, hrow, hreal, hle⟩
            exact ⟨row, ⟨hrow, hreal⟩, hle⟩
        have hold : (¬ ∀ row ∈ s.log.events.rows, row.2.isPlaceholder = false →
            row.1 < max s.log.events.highWater seed.time.toInt) →
            ∃ row ∈ s.log.events.rows, s.log.events.highWater ≤ row.1 := by
          push Not
          rintro ⟨row, hrow, -, hle⟩
          exact ⟨row, hrow, (le_max_left _ _).trans hle⟩
        simp only [if_true, hgone, hne, false_or]
        tauto

/-- After every run, and for every answer of the MAX query at the time of the request: no
issued cursor is called a future cursor if and only if the query runs and every call that
lowered the newest surviving number is followed by one that restores it; when the query
fails, only while nothing was ever stored. -/
theorem neverFuture_iff (calls : List FirehoseCall) (queried : Bool) :
    NeverFuture (exec Firehose.step Firehose.fresh calls) queried ↔
      if queried then Answered Firehose.step LowersCurrent RestoresCurrent Firehose.fresh calls
      else (exec Firehose.step Firehose.fresh calls).used = [] := by
  have hmarked : Marked (exec Firehose.step Firehose.fresh calls) :=
    exec_of_invariant marked_fresh fun s call h => h.step call
  rw [hmarked.served_iff]
  cases queried with
  | false =>
    have hnonneg := (exec Firehose.step Firehose.fresh calls).log.events.nonneg
    simp only [currentLocked, Bool.false_eq_true, if_false]
    constructor
    · intro hle
      rw [List.eq_nil_iff_forall_not_mem]
      intro k hk
      have h1 := hmarked.used_pos k hk
      have h2 := hmarked.accounted.le_mark k hk
      omega
    · intro hnil
      rcases hmarked.attained with hz | hu
      · omega
      · simp [hnil] at hu
  | true =>
    simp only [if_true]
    refine exec_iff_answered (P := AtMark) marked_fresh ?_ (fun s call h => h.step call) ?_ ?_ ?_
    · exact (marked_fresh.atMark_iff).mpr (Or.inl rfl)
    · intro s call h hl
      cases call with
      | retain minEvents cutoffTs env => exact (atMark_retain h minEvents cutoffTs env).1 hl
      | reopen prepared seed => exact (atMark_reopen h prepared seed).1 hl
      | _ => exact absurd hl (by simp [LowersCurrent])
    · intro s call h hr
      cases call with
      | append event env => exact (atMark_append h event env).1 hr
      | reopen prepared seed => exact (atMark_reopen h prepared seed).2.1 hr
      | _ => exact absurd hr (by simp [RestoresCurrent])
    · intro s call h hl hr
      cases call with
      | reopen prepared seed => exact (atMark_reopen h prepared seed).2.2 hl hr
      | append event env => exact (atMark_append h event env).2 hr
      | retain minEvents cutoffTs env => exact (atMark_retain h minEvents cutoffTs env).2 hl
      | purge did deleted => exact atMark_purge h did deleted
      | attach cursor =>
        simp only [Firehose.step]
        split <;> exact Iff.rfl
      | read outcome => exact Iff.rfl
      | send status => exact Iff.rfl
      | leave => exact Iff.rfl

/-- A log seeded from the clock and still without an event calls every positive cursor a
future one, among them the small ones the floor was to put into the past. -/
theorem seeded_log_turns_away : ¬ NeverFuture (exec Firehose.step Firehose.fresh
    [.reopen true ⟨true, 1700000000, true, true⟩]) true := by
  intro h
  have hissued : HostIssued (exec Firehose.step Firehose.fresh
      [.reopen true ⟨true, 1700000000, true, true⟩]) 390 :=
    Or.inr ⟨1700000000, by decide, by decide⟩
  exact h (.string "390") 390 (by decide) hissued true (by decide)

end MetalBear.Sequencer
