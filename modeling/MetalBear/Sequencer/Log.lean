import MetalBear.Library.AutoTable
import MetalBear.Wolfram.Status

/-!
# The event log

The host-wide log behind `com.atproto.sync.subscribeRepos`: one table of frames whose
AUTOINCREMENT key is the firehose sequence number, and one mark that remembers how far
retention has deleted. Every operation runs under one mutex, so a transaction that is
rolled back is an operation that leaves the log as it was.
-/

namespace MetalBear.Sequencer

open AutoTable

/-- The bytes of one firehose frame. -/
abbrev Frame := List UInt8

/-- `wf_subscribe_event.type`. -/
inductive EventType where
  | commit
  | sync
  | identity
  | account
  | other
  deriving DecidableEq, Repr

/-- What the log reads of a `wf_subscribe_event`. -/
structure SubscribeEvent where
  type : EventType
  did : String
  deriving DecidableEq, Repr

/-- One row of `events`, its `seq` apart. -/
structure EventRow where
  frame : Frame
  createdAt : String
  did : Option String
  deriving DecidableEq, Repr

/-- The database behind a `metalbear_sequencer`. -/
structure EventLog where
  events : AutoTable EventRow
  /-- `meta.pruned_through`. -/
  prunedThrough : Option Int

/-- A database file that does not exist yet. -/
def EventLog.empty : EventLog := ⟨AutoTable.empty, none⟩

/-- The largest rowid SQLite can assign. -/
def maxRowid : Int := 2 ^ 63 - 1

/-- `current_locked`; `queried` tells whether the statement could be prepared and stepped. -/
def currentLocked (l : EventLog) (queried : Bool) : Int :=
  if queried then l.events.maxKey.getD 0 else 0

/-- `event_did`. -/
def eventDid (event : SubscribeEvent) : Option String :=
  match event.type with
  | .other => none
  | _ => some event.did

/-! ## Appending -/

/-- What the database and the frame encoder answer to one append. -/
structure AppendEnv where
  closing : Bool
  begun : Bool
  inserted : Bool
  /-- `timestamp_now`. -/
  now : String
  /-- `wf_sync_publish_event`, for the event stamped with its sequence number and time. -/
  publish : Int → WfStatus × Frame
  updated : Bool
  committed : Bool

/-- The statements of `append_event` between BEGIN and COMMIT. -/
def appendTransaction (l : EventLog) (event : SubscribeEvent) (env : AppendEnv) :
    Except WfStatus EventLog :=
  if !env.inserted || decide (maxRowid ≤ l.events.highWater) then .error .internal
  else
    let did := (eventDid event).filter (· ≠ "")
    let events := l.events.insertNext ⟨[], env.now, did⟩
    let seq := l.events.highWater + 1
    if event.type = .other then .error .internal
    else
      let (status, frame) := env.publish seq
      if status ≠ .ok then .error status
      else if !env.updated then .error .internal
      else .ok { l with events := events.update seq fun row => { row with frame := frame } }

/-- `append_event`: on any failure after BEGIN the transaction is rolled back. -/
def appendEvent (l : EventLog) (event : SubscribeEvent) (env : AppendEnv) :
    EventLog × WfStatus :=
  if env.closing || !env.begun then (l, .internal)
  else
    match appendTransaction l event env with
    | .error status => (l, status)
    | .ok l' => if env.committed then (l', .ok) else (l, .internal)

/-! ## Opening -/

/-- What the database and the clock answer while a log is seeded. -/
structure SeedEnv where
  counted : Bool
  /-- `time(NULL)`, seconds since the epoch. -/
  time : Int64
  inserted : Bool
  deleted : Bool

/-- The row `seed_sequence_floor` inserts and deletes again. -/
def EventRow.placeholder : EventRow := ⟨[], "", none⟩

/-- The test of the DELETE: `frame = zeroblob(0) AND created_at = ''`. -/
def EventRow.isPlaceholder (row : EventRow) : Bool := row.frame == [] && row.createdAt == ""

/-- The INSERT of `seed_sequence_floor`, where the code gets as far as that: the log looks
empty and the clock is past the epoch. -/
def placeFloor (l : EventLog) (env : SeedEnv) : Option (AutoTable EventRow) :=
  let existing := if env.counted then l.events.rows.length else 0
  if 0 < existing then none
  else if env.time.toInt ≤ 0 then none
  else if env.inserted then l.events.insertAt env.time.toInt EventRow.placeholder
  else none

/-- `seed_sequence_floor`. -/
def seedSequenceFloor (l : EventLog) (env : SeedEnv) : EventLog :=
  match placeFloor l env with
  | none => l
  | some events =>
    if env.deleted then { l with events := events.delete fun row => row.2.isPlaceholder }
    else { l with events := events }

/-- `metalbear_sequencer_open`; `prepared` tells whether the file could be opened and its
tables created, which changes no row. -/
def sequencerOpen (l : EventLog) (prepared : Bool) (env : SeedEnv) : Option EventLog :=
  if prepared then some (seedSequenceFloor l env) else none

/-! ## Deleting -/

/-- What the database answers during `metalbear_sequencer_retain`. -/
structure RetainEnv where
  queried : Bool
  prepared : Bool
  deleted : Bool
  /-- What `sqlite3_changes` still says of an earlier statement when the DELETE failed. -/
  staleChanges : Bool
  marked : Bool

/-- The rows the DELETE of `metalbear_sequencer_retain` selects. -/
def outdated (cutoff : Int) (cutoffTs : String) (row : Int × EventRow) : Bool :=
  decide (row.1 ≤ cutoff) && decide (row.2.createdAt < cutoffTs)

/-- `metalbear_sequencer_retain`; `cutoffTs` is the formatted time `max_age_seconds` ago. -/
def sequencerRetain (l : EventLog) (minEvents : Int) (cutoffTs : String) (env : RetainEnv) :
    EventLog × WfStatus :=
  let cutoff := currentLocked l env.queried - minEvents
  if cutoff ≤ 0 then (l, .ok)
  else if !env.prepared then (l, .internal)
  else
    let events := if env.deleted then l.events.delete (outdated cutoff cutoffTs) else l.events
    let changes :=
      if env.deleted then decide (0 < l.events.rows.countP (outdated cutoff cutoffTs))
      else env.staleChanges
    let pruned :=
      if changes && env.marked then some (max (l.prunedThrough.getD cutoff) cutoff)
      else l.prunedThrough
    (⟨events, pruned⟩, .ok)

/-- The rows that belong to an account: by the recorded DID, or by the DID's bytes in the
frame of a row that records none. -/
def belongsTo (did : String) (row : Int × EventRow) : Bool :=
  decide (row.2.did = some did) ||
    (decide (row.2.did = none) && decide (did.toUTF8.toList <:+: row.2.frame))

/-- The rows the DELETE of `metalbear_sequencer_purge_account` selects: all of the
account's but its newest. -/
def purged (l : EventLog) (did : String) (row : Int × EventRow) : Bool :=
  belongsTo did row &&
    match ((l.events.rows.filter (belongsTo did)).map Prod.fst).max? with
    | none => false
    | some newest => decide (row.1 < newest)

/-- `metalbear_sequencer_purge_account`. -/
def sequencerPurgeAccount (l : EventLog) (did : String) (deleted : Bool) :
    EventLog × WfStatus :=
  if did = "" then (l, .invalidArg)
  else if deleted then ({ l with events := l.events.delete (purged l did) }, .ok)
  else (l, .internal)

/-! ## Reading -/

/-- The SELECT of `read_next_locked`: the first event after the cursor. -/
def readNext (l : EventLog) (cursor : Int) : Option (Int × Frame) :=
  ((l.events.rows.filter fun row => cursor < row.1).minOn? Prod.fst).map fun row =>
    (row.1, row.2.frame)

/-! ## What each operation does to the table -/

/-- A transaction that gets through adds one finished row above every earlier one; one
that does not reports no success. -/
theorem appendTransaction_cases (l : EventLog) (event : SubscribeEvent) (env : AppendEnv) :
    (∃ status, appendTransaction l event env = .error status ∧ status ≠ .ok) ∨
      ∃ l' row, appendTransaction l event env = .ok l' ∧ l.events.highWater < maxRowid ∧
        (env.publish (l.events.highWater + 1)).2 = row.frame ∧
        l'.events.rows = l.events.rows ++ [(l.events.highWater + 1, row)] ∧
        l'.events.highWater = l.events.highWater + 1 ∧ l'.prunedThrough = l.prunedThrough := by
  simp only [appendTransaction]
  by_cases hins : (!env.inserted || decide (maxRowid ≤ l.events.highWater)) = true
  · exact Or.inl ⟨.internal, by simp [hins], by decide⟩
  by_cases htype : event.type = .other
  · exact Or.inl ⟨.internal, by simp [hins, htype], by decide⟩
  by_cases hpub : (env.publish (l.events.highWater + 1)).1 = .ok
  swap
  · exact Or.inl ⟨_, by simp [hins, htype, hpub], hpub⟩
  by_cases hupd : env.updated = true
  swap
  · exact Or.inl ⟨.internal, by simp [hins, htype, hpub, hupd], by decide⟩
  let frame := (env.publish (l.events.highWater + 1)).2
  let did := (eventDid event).filter (· ≠ "")
  let events := (l.events.insertNext ⟨[], env.now, did⟩).update (l.events.highWater + 1)
    fun row => { row with frame := frame }
  have hroom : l.events.highWater < maxRowid := by simp_all
  refine Or.inr ⟨{ l with events := events }, ⟨frame, env.now, did⟩, ?_, hroom, rfl, ?_, rfl, rfl⟩
  · simp [hins, htype, hpub, hupd, events, did, frame]
  · exact rows_update_insertNext ..

/-- An append leaves the log alone, or adds one finished row above every earlier one. -/
theorem appendEvent_cases (l : EventLog) (event : SubscribeEvent) (env : AppendEnv) :
    ((appendEvent l event env).1 = l ∧ (appendEvent l event env).2 ≠ .ok) ∨
      ∃ row, (appendEvent l event env).2 = .ok ∧ l.events.highWater < maxRowid ∧
        (env.publish (l.events.highWater + 1)).2 = row.frame ∧
        (appendEvent l event env).1.events.rows =
          l.events.rows ++ [(l.events.highWater + 1, row)] ∧
        (appendEvent l event env).1.events.highWater = l.events.highWater + 1 := by
  unfold appendEvent
  by_cases hbegin : (env.closing || !env.begun) = true
  · exact Or.inl ⟨by simp [hbegin], by simp [hbegin]⟩
  rw [if_neg hbegin]
  rcases appendTransaction_cases l event env with ⟨status, ht, hs⟩ |
    ⟨l', row, ht, hroom, hf, hr, hw, -⟩
  · exact Or.inl ⟨by simp [ht], by simpa [ht] using hs⟩
  · by_cases hc : env.committed = true
    · exact Or.inr ⟨row, by simp [ht, hc], hroom, hf, by simpa [ht, hc] using hr,
        by simpa [ht, hc] using hw⟩
    · exact Or.inl ⟨by simp [ht, hc], by simp [ht, hc]⟩

/-- The floor is placed under its own key above nothing but the mark. -/
theorem placeFloor_eq_some {l : EventLog} {env : SeedEnv} {events : AutoTable EventRow}
    (h : placeFloor l env = some events) :
    events.rows = l.events.rows ++ [(env.time.toInt, EventRow.placeholder)] ∧
      events.highWater = max l.events.highWater env.time.toInt ∧ 0 < env.time.toInt := by
  simp only [placeFloor] at h
  generalize (if env.counted then l.events.rows.length else 0) = existing at h
  split at h
  · cases h
  · split at h
    · cases h
    · split at h
      · exact ⟨(AutoTable.insertAt_eq_some h).1, (AutoTable.insertAt_eq_some h).2, by omega⟩
      · cases h

/-- Retention deletes the outdated rows, or leaves the table alone. -/
theorem sequencerRetain_events (l : EventLog) (minEvents : Int) (cutoffTs : String)
    (env : RetainEnv) : (sequencerRetain l minEvents cutoffTs env).1.events =
      if 0 < currentLocked l env.queried - minEvents ∧ env.prepared = true ∧ env.deleted = true then
        l.events.delete (outdated (currentLocked l env.queried - minEvents) cutoffTs)
      else l.events := by
  simp only [sequencerRetain]
  generalize currentLocked l env.queried - minEvents = cutoff
  by_cases hc : cutoff ≤ 0
  · simp [hc, not_lt.mpr hc]
  · cases hp : env.prepared <;> cases hd : env.deleted <;> simp [hc, not_le.mp hc]

/-- Purging deletes rows, or leaves the log alone. -/
theorem sequencerPurgeAccount_cases (l : EventLog) (did : String) (deleted : Bool) :
    (sequencerPurgeAccount l did deleted).1 = l ∨
      (sequencerPurgeAccount l did deleted).1 =
        { l with events := l.events.delete (purged l did) } := by
  unfold sequencerPurgeAccount
  split
  · exact Or.inl rfl
  · cases deleted
    · exact Or.inl rfl
    · exact Or.inr rfl

/-- Purging spares the newest row of the log, whoever it belongs to. -/
theorem not_purged_newest {l : EventLog} {did : String} {row : Int × EventRow}
    (hmax : ∀ other ∈ l.events.rows, other.1 ≤ row.1) : purged l did row = false := by
  unfold purged
  cases hm : ((l.events.rows.filter (belongsTo did)).map Prod.fst).max? with
  | none => simp
  | some newest =>
    obtain ⟨hmem, -⟩ := List.max?_eq_some_iff.mp hm
    obtain ⟨other, hother, rfl⟩ := List.mem_map.mp hmem
    have := hmax other (List.mem_of_mem_filter hother)
    simp [this]

/-- The reader is given the event with the least sequence number above its cursor. -/
theorem readNext_eq_some {l : EventLog} {cursor : Int} {x : Int × Frame}
    (h : readNext l cursor = some x) :
    (∃ row, (x.1, row) ∈ l.events.rows ∧ row.frame = x.2) ∧ cursor < x.1 ∧
      ∀ row ∈ l.events.rows, cursor < row.1 → x.1 ≤ row.1 := by
  simp only [readNext, Option.map_eq_some_iff] at h
  obtain ⟨row, hmin, rfl⟩ := h
  have hmem := List.mem_filter.mp (List.minOn?_mem hmin)
  refine ⟨⟨row.2, hmem.1, rfl⟩, by simpa using hmem.2, fun other hother hlt => ?_⟩
  have hcand : other ∈ l.events.rows.filter fun row => cursor < row.1 :=
    List.mem_filter.mpr ⟨hother, by simpa using hlt⟩
  have hle := List.apply_get_minOn?_le_of_mem (f := Prod.fst) hcand
  simpa only [hmin, Option.get_some] using hle

/-- As long as an event lies above the cursor, there is a next one. -/
theorem readNext_ne_none {l : EventLog} {cursor : Int} {row : Int × EventRow}
    (h : row ∈ l.events.rows) (hlt : cursor < row.1) : readNext l cursor ≠ none := by
  intro hn
  rw [readNext, Option.map_eq_none_iff] at hn
  have hrow : row ∈ l.events.rows.filter fun row => cursor < row.1 :=
    List.mem_filter.mpr ⟨h, by simpa using hlt⟩
  have hsome := List.isSome_minOn?_of_mem (f := Prod.fst) hrow
  rw [hn] at hsome
  cases hsome

end MetalBear.Sequencer
