import MetalBear.Library.Machine
import MetalBear.Library.Stream
import MetalBear.Sequencer.Log

/-!
# Firehose delivery

One subscriber of the event log, among the writers that append, retain and purge. The
subscriber thread reads under the mutex and sends outside of it, so anything may happen
to the log between the two. Every call is an instance of a step of the generic log with a
reader, from whose invariant the guarantees of delivery are read off.
-/

namespace MetalBear.Sequencer

open Machine

/-- What a subscriber can be sent: every event under its sequence number. -/
def EventLog.records (l : EventLog) : List (Int × Frame) :=
  l.events.rows.map fun row => (row.1, row.2.frame)

/-- What `read_next_locked` comes back with, apart from the row itself. -/
inductive ReadOutcome where
  | copied
  | noMemory
  | unreadable
  deriving DecidableEq, Repr

/-- The sequencer process with one `subscriber_worker`. -/
structure Firehose where
  log : EventLog
  isOpen : Bool
  subscriber : Option (Stream.Reader Int Frame)
  /-- The sequence number of every event that was ever committed. -/
  issued : List Int
  /-- The sequence number of every floor that was ever placed. -/
  floors : List Int

/-- Before the log is opened for the first time. -/
def Firehose.fresh : Firehose := ⟨EventLog.empty, false, none, [], []⟩

/-- The calls and thread moves a run is made of. -/
inductive FirehoseCall where
  | reopen (prepared : Bool) (seed : SeedEnv)
  | append (event : SubscribeEvent) (env : AppendEnv)
  | retain (minEvents : Int) (cutoffTs : String) (env : RetainEnv)
  | purge (did : String) (deleted : Bool)
  | attach (cursor : Int)
  | read (outcome : ReadOutcome)
  | send (status : WfStatus)
  /-- The peer closed the stream, or a ping failed. -/
  | leave

/-- Records of `old` that `new` no longer has. -/
def removed (old new : EventLog) : List (Int × Frame) := Stream.removed old.records new.records

/-- Records of `new` that `old` did not have. -/
def added (old new : EventLog) : List (Int × Frame) := Stream.removed new.records old.records

/-- The log changes while it is open; what that means to the subscriber is noted. -/
def Firehose.write (s : Firehose) (log : EventLog) : Firehose :=
  if s.isOpen then
    { s with
      log := log
      subscriber := s.subscriber.map fun r => (r.lose (removed s.log log)).saw (added s.log log)
      issued := s.issued ++ (added s.log log).map Prod.fst }
  else s

/-- The read step of `subscriber_main`, which a frame still in hand excludes. -/
def Firehose.read (s : Firehose) (r : Stream.Reader Int Frame) (outcome : ReadOutcome) :
    Option (Stream.Reader Int Frame) :=
  match r.held, outcome with
  | some _, _ => some r
  | none, .copied =>
    match readNext s.log r.cursor with
    | none => some r
    | some x => some { r with held := some x }
  | none, .noMemory => some r
  | none, .unreadable => none

/-- The send step: only after a successful send does `worker->cursor` move. -/
def sendFrame (r : Stream.Reader Int Frame) (status : WfStatus) :
    Option (Stream.Reader Int Frame) :=
  match r.held with
  | none => some r
  | some _ => if status = .ok then some r.deliver else none

/-- One call or move. -/
def Firehose.step (s : Firehose) : FirehoseCall → Firehose
  | .reopen prepared seed =>
    -- `metalbear_sequencer_free` waits for the subscriber to leave before it closes.
    match sequencerOpen s.log prepared seed with
    | none => { s with isOpen := false, subscriber := none }
    | some log =>
      { s with
        log := log
        isOpen := true
        subscriber := none
        floors := s.floors ++
          if (placeFloor s.log seed).isSome then [seed.time.toInt] else [] }
  | .append event env => s.write (appendEvent s.log event env).1
  | .retain minEvents cutoffTs env => s.write (sequencerRetain s.log minEvents cutoffTs env).1
  | .purge did deleted => s.write (sequencerPurgeAccount s.log did deleted).1
  | .attach cursor =>
    if s.isOpen && s.subscriber.isNone then
      { s with subscriber := some (Stream.Reader.attach cursor s.log.records) }
    else s
  | .read outcome => { s with subscriber := s.subscriber.bind fun r => s.read r outcome }
  | .send status => { s with subscriber := s.subscriber.bind fun r => sendFrame r status }
  | .leave => { s with subscriber := none }

/-! ## Every call is a step of the generic log -/

/-- The generic view of the process. -/
def Firehose.stream (s : Firehose) : Stream.State Int Frame :=
  ⟨s.log.records, s.log.events.highWater, s.subscriber⟩

theorem EventLog.records_keys (l : EventLog) :
    l.records.map Prod.fst = l.events.rows.map Prod.fst := by
  simp [EventLog.records, Function.comp_def]

theorem EventLog.records_nodup (l : EventLog) : (l.records.map Prod.fst).Nodup := by
  rw [l.records_keys]
  exact l.events.nodup

theorem EventLog.records_le (l : EventLog) : ∀ x ∈ l.records, x.1 ≤ l.events.highWater := by
  intro x hx
  obtain ⟨row, hrow, rfl⟩ := List.mem_map.mp hx
  exact l.events.le_highWater row hrow

/-- A row above the mark is the only change. -/
theorem changes_of_append {l l' : EventLog} {row : EventRow}
    (h : l'.events.rows = l.events.rows ++ [(l.events.highWater + 1, row)]) :
    l'.records = l.records ++ [(l.events.highWater + 1, row.frame)] ∧ removed l l' = [] ∧
      added l l' = [(l.events.highWater + 1, row.frame)] := by
  have hrec : l'.records = l.records ++ [(l.events.highWater + 1, row.frame)] := by
    simp [EventLog.records, h]
  have hnew : (l.events.highWater + 1, row.frame) ∉ l.records := by
    intro hm
    have := l.records_le _ hm
    omega
  refine ⟨hrec, ?_, ?_⟩
  · rw [removed, hrec]
    exact Stream.removed_of_subset (List.subset_append_left _ _)
  · rw [added, hrec]
    exact Stream.removed_snoc hnew

/-- A deletion adds nothing and leaves the mark alone. -/
theorem changes_of_delete {l l' : EventLog} {p : Int × EventRow → Bool}
    (h : l'.events = l.events ∨ l'.events = l.events.delete p) :
    l'.records.Sublist l.records ∧ added l l' = [] ∧
      l'.events.highWater = l.events.highWater := by
  have hsub : l'.records.Sublist l.records := by
    rcases h with h | h
    · rw [EventLog.records, h]
      exact List.Sublist.refl _
    · simp only [EventLog.records, h, AutoTable.rows_delete]
      exact List.filter_sublist.map _
  refine ⟨hsub, Stream.removed_of_subset hsub.subset, ?_⟩
  rcases h with h | h <;> simp [h]

@[simp] theorem saw_nil (r : Stream.Reader Int Frame) : r.saw [] = r := by
  simp [Stream.Reader.saw]

@[simp] theorem lose_nil (r : Stream.Reader Int Frame) : r.lose [] = r := by
  simp [Stream.Reader.lose]

/-- An appended row is an added record. -/
theorem write_append (s : Firehose) {log : EventLog} {row : EventRow}
    (h : log.events.rows = s.log.events.rows ++ [(s.log.events.highWater + 1, row)])
    (hw : log.events.highWater = s.log.events.highWater + 1) :
    Stream.Move s.stream (s.write log).stream := by
  obtain ⟨hrec, hrem, hadd⟩ := changes_of_append h
  unfold Firehose.write
  split
  · have := Stream.Move.add s.stream (s.log.events.highWater + 1) row.frame
      (Int.lt_succ s.log.events.highWater)
    simpa [Firehose.stream, hrec, hrem, hadd, hw] using this
  · exact Stream.Move.stay _

/-- Deleted rows are removed records. -/
theorem write_delete (s : Firehose) {log : EventLog} {p : Int × EventRow → Bool}
    (h : log.events = s.log.events ∨ log.events = s.log.events.delete p) :
    Stream.Move s.stream (s.write log).stream := by
  obtain ⟨hsub, hadd, hw⟩ := changes_of_delete h
  unfold Firehose.write
  split
  · have := Stream.Move.remove s.stream log.records (removed s.log log)
      (Stream.perm_of_sublist s.log.records_nodup hsub)
    simpa [Firehose.stream, hadd, hw] using this
  · exact Stream.Move.stay _

/-- The mark never goes back, and reopening keeps every key below it. -/
theorem sequencerOpen_highWater {l l' : EventLog} {prepared : Bool} {seed : SeedEnv}
    (h : sequencerOpen l prepared seed = some l') :
    l.events.highWater ≤ l'.events.highWater ∧
      ((placeFloor l seed).isSome → seed.time.toInt ≤ l'.events.highWater) := by
  simp only [sequencerOpen] at h
  split at h
  · obtain rfl : seedSequenceFloor l seed = l' := by simpa using h
    unfold seedSequenceFloor
    cases hp : placeFloor l seed with
    | none => simp
    | some events =>
      obtain ⟨-, hw, -⟩ := placeFloor_eq_some hp
      have hmax : l.events.highWater ≤ events.highWater ∧ seed.time.toInt ≤ events.highWater := by
        rw [hw]
        exact ⟨le_max_left _ _, le_max_right _ _⟩
      cases seed.deleted <;> simpa using hmax
  · cases h

/-- A read takes the next record into the subscriber's hand, or none, or ends it. -/
theorem read_move (s : Firehose) (outcome : ReadOutcome) :
    Stream.Move s.stream (s.step (.read outcome)).stream := by
  cases hr : s.subscriber with
  | none => simpa [Firehose.step, Firehose.stream, hr] using Stream.Move.stay s.stream
  | some r =>
    have hstay : (s.read r outcome = some r) →
        Stream.Move s.stream (s.step (.read outcome)).stream := by
      intro h
      have hsame : (s.step (.read outcome)).stream = s.stream := by
        simp [Firehose.step, Firehose.stream, hr, h]
      rw [hsame]
      exact Stream.Move.stay _
    cases hh : r.held with
    | some x => exact hstay (by simp [Firehose.read, hh])
    | none =>
      cases outcome with
      | noMemory => exact hstay (by simp [Firehose.read, hh])
      | unreadable =>
        simpa [Firehose.step, Firehose.read, Firehose.stream, hr, hh] using
          Stream.Move.leave s.stream
      | copied =>
        cases hn : readNext s.log r.cursor with
        | none => exact hstay (by simp [Firehose.read, hh, hn])
        | some x =>
          obtain ⟨⟨row, hrow, hf⟩, hlt, hmin⟩ := readNext_eq_some hn
          have hnext : Stream.Next s.log.records r.cursor x := by
            refine ⟨List.mem_map.mpr ⟨(x.1, row), hrow, by simp [hf]⟩, hlt, fun y hy hy' => ?_⟩
            obtain ⟨other, hother, rfl⟩ := List.mem_map.mp hy
            exact hmin other hother hy'
          simpa [Firehose.step, Firehose.read, Firehose.stream, hr, hh, hn] using
            Stream.Move.take s.stream r x hr hnext

/-- A send delivers the held record, or ends the subscription. -/
theorem send_move (s : Firehose) (status : WfStatus) :
    Stream.Move s.stream (s.step (.send status)).stream := by
  cases hr : s.subscriber with
  | none => simpa [Firehose.step, Firehose.stream, hr] using Stream.Move.stay s.stream
  | some r =>
    cases hh : r.held with
    | none =>
      simpa [Firehose.step, Firehose.stream, hr, sendFrame, hh] using Stream.Move.stay s.stream
    | some x =>
      by_cases hs : status = .ok
      · simpa [Firehose.step, Firehose.stream, hr, sendFrame, hh, hs] using
          Stream.Move.deliver s.stream r hr
      · simpa [Firehose.step, Firehose.stream, hr, sendFrame, hh, hs] using
          Stream.Move.leave s.stream

/-- Whether a call lets a new subscriber in. -/
def FirehoseCall.attaches : FirehoseCall → Bool
  | .attach _ => true
  | _ => false

theorem sequencerRetain_cases (l : EventLog) (minEvents : Int) (cutoffTs : String)
    (env : RetainEnv) : (sequencerRetain l minEvents cutoffTs env).1.events = l.events ∨
      (sequencerRetain l minEvents cutoffTs env).1.events =
        l.events.delete (outdated (currentLocked l env.queried - minEvents) cutoffTs) := by
  rw [sequencerRetain_events]
  split
  · exact Or.inr rfl
  · exact Or.inl rfl

/-- Every call but an attachment is a move of the generic log. -/
theorem step_move (s : Firehose) {call : FirehoseCall} (hc : call.attaches = false) :
    Stream.Move s.stream (s.step call).stream := by
  cases call with
  | reopen prepared seed =>
    cases ho : sequencerOpen s.log prepared seed with
    | none =>
      simpa [Firehose.step, Firehose.stream, ho] using Stream.Move.leave s.stream
    | some log =>
      have := Stream.Move.rebuild s.stream log.records log.events.highWater log.records_nodup
        log.records_le (sequencerOpen_highWater ho).1
      simpa [Firehose.step, Firehose.stream, ho] using this
  | append event env =>
    rcases appendEvent_cases s.log event env with ⟨h, -⟩ | ⟨row, -, -, -, h, hw⟩
    · simp only [Firehose.step, h]
      exact write_delete s (p := fun _ => false) (Or.inl rfl)
    · exact write_append s h hw
  | retain minEvents cutoffTs env =>
    exact write_delete s (sequencerRetain_cases s.log minEvents cutoffTs env)
  | purge did deleted =>
    refine write_delete s (p := purged s.log did) ?_
    rcases sequencerPurgeAccount_cases s.log did deleted with h | h
    · exact Or.inl (by rw [h])
    · exact Or.inr (by rw [h])
  | attach cursor => cases hc
  | read outcome => exact read_move s outcome
  | send status => exact send_move s status
  | leave => exact Stream.Move.leave s.stream

/-- Every call is a step of the generic log. -/
theorem step_simulates (s : Firehose) (call : FirehoseCall) :
    Stream.Step s.stream (s.step call).stream := by
  cases hc : call.attaches with
  | false => exact .move (step_move s hc)
  | true =>
    cases call with
    | attach cursor =>
      by_cases hopen : (s.isOpen && s.subscriber.isNone) = true
      · simpa [Firehose.step, Firehose.stream, hopen] using Stream.Step.attach s.stream cursor
      · simpa [Firehose.step, Firehose.stream, hopen] using
          Stream.Step.move (Stream.Move.stay s.stream)
    | _ => cases hc

theorem stream_ok_fresh : Firehose.fresh.stream.Ok := by
  refine ⟨?_, ?_, ?_⟩ <;>
    simp [Firehose.fresh, Firehose.stream, EventLog.empty, EventLog.records, AutoTable.empty]

/-! ## Sequence numbers -/

/-- Every sequence number a row was ever stored under. -/
def Firehose.used (s : Firehose) : List Int := s.issued ++ s.floors

/-- Every row's number is on record, and none on record is above the mark. -/
structure Accounted (s : Firehose) : Prop where
  rows : ∀ x ∈ s.log.records, x.1 ∈ s.used
  le_mark : ∀ k ∈ s.used, k ≤ s.log.events.highWater

/-- A write that adds nothing but rows above the mark keeps the record. -/
theorem Accounted.write {s : Firehose} (h : Accounted s) {log : EventLog}
    (hw : s.log.events.highWater ≤ log.events.highWater) : Accounted (s.write log) := by
  unfold Firehose.write
  split
  · refine ⟨fun x hx => ?_, fun k hk => ?_⟩
    · by_cases hold : x ∈ s.log.records
      · have := h.rows x hold
        simp only [Firehose.used, List.mem_append] at this ⊢
        tauto
      · have hnew : x.1 ∈ (added s.log log).map Prod.fst :=
          List.mem_map_of_mem (List.mem_filter.mpr ⟨hx, by simpa using hold⟩)
        simp only [Firehose.used, List.mem_append]
        tauto
    · have hk' : k ∈ s.used ∨ k ∈ (added s.log log).map Prod.fst := by
        simp only [Firehose.used, List.mem_append] at hk ⊢
        tauto
      rcases hk' with hk' | hk'
      · exact (h.le_mark k hk').trans hw
      · obtain ⟨x, hx, rfl⟩ := List.mem_map.mp hk'
        exact log.records_le x (List.mem_of_mem_filter hx)
  · exact h

/-- What is in a log that was just opened was there before, or is the placed floor. -/
theorem sequencerOpen_records {l l' : EventLog} {prepared : Bool} {seed : SeedEnv}
    (h : sequencerOpen l prepared seed = some l') {x : Int × Frame} (hx : x ∈ l'.records) :
    x ∈ l.records ∨ ((placeFloor l seed).isSome ∧ x.1 = seed.time.toInt) := by
  simp only [sequencerOpen] at h
  split at h
  · obtain rfl : seedSequenceFloor l seed = l' := by simpa using h
    unfold seedSequenceFloor at hx
    cases hp : placeFloor l seed with
    | none => exact Or.inl (by simpa [hp] using hx)
    | some events =>
      obtain ⟨hrows, -, -⟩ := placeFloor_eq_some hp
      have hplaced : ∃ row ∈ events.rows, x = (row.1, row.2.frame) := by
        cases hd : seed.deleted <;> simp only [hp, hd] at hx <;>
          obtain ⟨row, hrow, rfl⟩ := List.mem_map.mp hx
        · exact ⟨row, hrow, rfl⟩
        · exact ⟨row, List.mem_of_mem_filter hrow, rfl⟩
      obtain ⟨row, hrow, rfl⟩ := hplaced
      rw [hrows] at hrow
      rcases List.mem_append.mp hrow with hrow | hrow
      · exact Or.inl (List.mem_map_of_mem (f := fun row : Int × EventRow => (row.1, row.2.frame)) hrow)
      · exact Or.inr ⟨rfl, by simp [List.mem_singleton.mp hrow]⟩
  · cases h

theorem Accounted.step {s : Firehose} (h : Accounted s) (call : FirehoseCall) :
    Accounted (s.step call) := by
  cases call with
  | reopen prepared seed =>
    cases ho : sequencerOpen s.log prepared seed with
    | none =>
      simp only [Firehose.step, ho]
      exact ⟨h.rows, h.le_mark⟩
    | some log =>
      obtain ⟨hw, hseed⟩ := sequencerOpen_highWater ho
      simp only [Firehose.step, ho]
      refine ⟨fun x hx => ?_, fun k hk => ?_⟩
      · rcases sequencerOpen_records ho hx with hx | ⟨hp, hx⟩
        · have := h.rows x hx
          simp only [Firehose.used, List.mem_append] at this ⊢
          tauto
        · simp [Firehose.used, hp, hx]
      · have hk' : k ∈ s.used ∨ ((placeFloor s.log seed).isSome ∧ k = seed.time.toInt) := by
          cases hp : (placeFloor s.log seed).isSome <;>
            simpa [Firehose.used, hp, or_assoc] using hk
        rcases hk' with hk' | ⟨hp, rfl⟩
        · exact (h.le_mark k hk').trans hw
        · exact hseed hp
  | append event env =>
    refine h.write ?_
    rcases appendEvent_cases s.log event env with ⟨ha, -⟩ | ⟨row, -, -, -, -, hw⟩
    · rw [ha]
    · omega
  | retain minEvents cutoffTs env =>
    refine h.write (le_of_eq ?_)
    rcases sequencerRetain_cases s.log minEvents cutoffTs env with hr | hr <;> simp [hr]
  | purge did deleted =>
    refine h.write (le_of_eq ?_)
    rcases sequencerPurgeAccount_cases s.log did deleted with hr | hr <;> simp [hr]
  | attach cursor =>
    simp only [Firehose.step]
    split
    · exact ⟨h.rows, h.le_mark⟩
    · exact h
  | read outcome => exact ⟨h.rows, h.le_mark⟩
  | send status => exact ⟨h.rows, h.le_mark⟩
  | leave => exact ⟨h.rows, h.le_mark⟩

theorem accounted_fresh : Accounted Firehose.fresh := by
  constructor <;>
    simp [Firehose.fresh, Firehose.used, EventLog.empty, EventLog.records, AutoTable.empty]

/-- A number given to a new event is above every number ever stored. -/
def FreshSeq (s : Firehose) : FirehoseCall → Prop
  | .append event env =>
    ∀ x ∈ added s.log (s.step (.append event env)).log, ∀ k ∈ s.used, k < x.1
  | _ => True

theorem Accounted.freshSeq {s : Firehose} (h : Accounted s) (call : FirehoseCall) :
    FreshSeq s call := by
  cases call with
  | append event env =>
    intro x hx k hk
    have hlog : (s.step (.append event env)).log = s.log ∨
        (s.step (.append event env)).log = (appendEvent s.log event env).1 := by
      simp only [Firehose.step, Firehose.write]
      split
      · exact Or.inr rfl
      · exact Or.inl rfl
    have hnone : added s.log s.log = [] := Stream.removed_of_subset (List.Subset.refl _)
    rcases hlog with hl | hl <;> rw [hl] at hx
    · simp [hnone] at hx
    · rcases appendEvent_cases s.log event env with ⟨ha, -⟩ | ⟨row, -, -, -, ha, -⟩
      · simp [ha, hnone] at hx
      · rw [(changes_of_append ha).2.2, List.mem_singleton] at hx
        have := h.le_mark k hk
        simp only [hx]
        omega
  | _ => trivial

/-! ## Delivery -/

/-- The guarantees of delivery in one state. -/
structure Delivered (s : Firehose) : Prop where
  increasing : ∀ r ∈ s.subscriber, (r.sent.map Prod.fst).Pairwise (· < ·)
  above : ∀ r ∈ s.subscriber, ∀ x ∈ r.sent, r.start < x.1
  /-- A frame that was sent is the one the log held under its number. -/
  stored : ∀ r ∈ s.subscriber, ∀ x ∈ r.sent, x ∈ r.seen ∧ ∀ y ∈ r.seen, y.1 = x.1 → y = x
  /-- Every event in the log is known to be there. -/
  follows : ∀ r ∈ s.subscriber, ∀ x ∈ s.log.records, x ∈ r.seen
  /-- Every event the cursor has passed was sent, unless it was deleted before. -/
  complete : ∀ r ∈ s.subscriber, ∀ x ∈ r.seen, r.start < x.1 → x.1 ≤ r.cursor →
    x ∈ r.sent ∨ x ∈ r.missed
  gone : ∀ r ∈ s.subscriber, ∀ x ∈ r.missed, x ∉ s.log.records
  used : ∀ x ∈ s.log.records, x.1 ∈ s.used

theorem delivered_of_ok {s : Firehose} (h : s.stream.Ok) (ha : Accounted s) : Delivered s where
  increasing r hr := (h.reader r hr).increasing
  above r hr := (h.reader r hr).above
  stored r hr x hx :=
    ⟨(h.reader r hr).sentSeen x hx, fun _ hy hk =>
      (h.reader r hr).eq_of_key hy ((h.reader r hr).sentSeen x hx) hk⟩
  follows r hr := (h.reader r hr).liveSeen
  complete r hr := (h.reader r hr).complete
  gone r hr x hx := ((h.reader r hr).missedSeen x hx).2
  used := ha.rows

/-- An event that lies ahead is reached: a read and a send that succeed deliver one more
frame, and once as many were delivered as were waiting up to that event, it was sent or
had been deleted, whatever others did in between. -/
def Progress (s : Firehose) : Prop :=
  ∀ r ∈ s.subscriber, ∀ x ∈ s.log.records, r.cursor < x.1 →
    (∃ r', (exec Firehose.step s [.read .copied, .send .ok]).subscriber = some r' ∧
      r'.sent.length = r.sent.length + 1) ∧
    ∀ more : List FirehoseCall, (∀ call ∈ more, call.attaches = false) →
      ∀ r' ∈ (exec Firehose.step s more).subscriber,
        r.sent.length + (r.waiting x.1).length ≤ r'.sent.length → x ∈ r'.sent ∨ x ∈ r'.missed

/-- One successful round delivers one frame. -/
theorem round_sends {s : Firehose} {r : Stream.Reader Int Frame} {x : Int × Frame}
    (hr : s.subscriber = some r) (hx : x ∈ s.log.records) (hlt : r.cursor < x.1) :
    ∃ r', (exec Firehose.step s [.read .copied, .send .ok]).subscriber = some r' ∧
      r'.sent.length = r.sent.length + 1 := by
  cases hh : r.held with
  | some y =>
    refine ⟨r.deliver, ?_, by simp [Stream.Reader.deliver, hh]⟩
    simp [Firehose.step, hr, Firehose.read, hh, sendFrame]
  | none =>
    obtain ⟨row, hrow, rfl⟩ := List.mem_map.mp hx
    cases hn : readNext s.log r.cursor with
    | none => exact absurd hn (readNext_ne_none hrow hlt)
    | some y =>
      refine ⟨({ r with held := some y } : Stream.Reader Int Frame).deliver, ?_,
        by simp [Stream.Reader.deliver]⟩
      simp [Firehose.step, hr, Firehose.read, hh, hn, sendFrame]

/-- The bound on what comes first is kept until the event is passed. -/
theorem progress_of_ok {s : Firehose} (h : s.stream.Ok) : Progress s := by
  intro r hr x hx hlt
  refine ⟨round_sends hr hx hlt, fun more hmore r' hr' hsent => ?_⟩
  let n := r.sent.length + (r.waiting x.1).length
  have hr0 := h.reader r hr
  have hfirst : ∀ q ∈ s.subscriber, q.Awaits n x := by
    intro q hq
    obtain rfl : r = q := Option.some_inj.mp (hr.symm.trans hq)
    exact ⟨Or.inr le_rfl, hr0.liveSeen x hx, hr0.start_le.trans_lt hlt⟩
  have hend := exec_of_steps
    (P := fun s => s.stream.Ok ∧ x.1 ≤ s.stream.mark ∧ ∀ q ∈ s.stream.reader, q.Awaits n x)
    ⟨h, s.log.records_le x hx, hfirst⟩
    (fun s call hs hc => ⟨(step_move s hc).ok hs.1, (step_move s hc).awaits hs.1 hs.2.1 hs.2.2⟩)
    (steps_of_forall (p := fun call => FirehoseCall.attaches call = false) hmore)
  obtain ⟨hok, -, hawaits⟩ := hend
  have hq := hawaits r' hr'
  exact (hok.reader r' hr').complete x hq.seen hq.start_lt (hq.passed hsent)

/-- Along every run of appends, retention, purges, reopenings and moves of a subscriber:
the frames sent carry increasing numbers above the cursor it came with, each is the frame
stored under its number, none that was not deleted first is passed over, every waiting
event is reached, and every new event's number is above all numbers ever stored. -/
theorem firehose_delivery (calls : List FirehoseCall) :
    States Firehose.step Delivered Firehose.fresh calls ∧
      States Firehose.step Progress Firehose.fresh calls ∧
      Steps Firehose.step FreshSeq Firehose.fresh calls := by
  have hok : States Firehose.step (fun s => s.stream.Ok ∧ Accounted s) Firehose.fresh calls :=
    states_of_invariant ⟨stream_ok_fresh, accounted_fresh⟩
      fun s call h => ⟨(step_simulates s call).ok h.1, h.2.step call⟩
  refine ⟨hok.imp fun s h => delivered_of_ok h.1 h.2, hok.imp fun s h => progress_of_ok h.1, ?_⟩
  exact steps_of_invariant accounted_fresh (fun s call h => h.step call)
    fun s call h => h.freshSeq call

end MetalBear.Sequencer
