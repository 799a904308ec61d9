import MetalBear.Sequencer.Log

/-!
# What purging an account takes away

`metalbear_sequencer_purge_account` drops the events of one account but its newest. Rows
written since the `did` column exists are found by it; a row that was there before has none,
and is found when the DID's bytes stand anywhere in its frame.
-/

namespace MetalBear.Sequencer

open AutoTable

/-- A row of a log that `add_did_column` gave the column. -/
def EventRow.legacy (frame : Frame) (createdAt : String) : EventRow := ⟨frame, createdAt, none⟩

/-- `*out_removed`: what `sqlite3_changes` says of the DELETE. -/
def sequencerPurgeRemoved (l : EventLog) (did : String) (deleted : Bool) : Nat :=
  if did = "" then 0 else if deleted then l.events.rows.countP (purged l did) else 0

section Owners

-- the DID that Wolfram's decoder finds in a frame
variable (decodeDid : Frame → Option String)

/-- A frame carries the DID it is decoded to as text. -/
def CarriesDid : Prop :=
  ∀ frame did, decodeDid frame = some did → did.toUTF8.toList <:+: frame

/-- The account of an event: the recorded one, or else the one in the frame. -/
def owner (row : EventRow) : Option String := row.did.or (decodeDid row.frame)

/-- A row without a DID whose frame contains the bytes of one that is not its own. -/
def Stray (did : String) (row : EventRow) : Prop :=
  row.did = none ∧ did.toUTF8.toList <:+: row.frame ∧ owner decodeDid row ≠ some did

/-- What a purge is to do: of the account only the newest event is left, the other accounts
keep theirs, and the number is the one of the rows that are gone. -/
structure PurgesOnly (l l' : EventLog) (removed : Nat) (did : String) : Prop where
  own : ∀ row ∈ l.events.rows, owner decodeDid row.2 = some did →
    (row ∈ l'.events.rows ↔
      ∀ other ∈ l.events.rows, owner decodeDid other.2 = some did → other.1 ≤ row.1)
  others : ∀ row ∈ l.events.rows, owner decodeDid row.2 ≠ some did → row ∈ l'.events.rows
  kept : l'.events.rows.Sublist l.events.rows
  count : removed + l'.events.rows.length = l.events.rows.length

variable {decodeDid}

/-- The rows selected by the DID are the account's and the strays. -/
theorem belongsTo_iff (hcarries : CarriesDid decodeDid) (did : String) (row : Int × EventRow) :
    belongsTo did row = true ↔
      owner decodeDid row.2 = some did ∨ Stray decodeDid did row.2 := by
  simp only [belongsTo, owner, Stray, Bool.or_eq_true, Bool.and_eq_true, decide_eq_true_eq]
  cases hdid : row.2.did with
  | some recorded => simp
  | none =>
    have hown := hcarries row.2.frame did
    simp only [Option.none_or]
    tauto

omit decodeDid in
/-- A row is purged when it and a later row are selected. -/
theorem purged_iff (l : EventLog) (did : String) (row : Int × EventRow) :
    purged l did row = true ↔ belongsTo did row = true ∧
      ∃ other ∈ l.events.rows, belongsTo did other = true ∧ row.1 < other.1 := by
  unfold purged
  rw [Bool.and_eq_true]
  refine and_congr_right fun _ => ?_
  cases hm : ((l.events.rows.filter (belongsTo did)).map Prod.fst).max? with
  | none =>
    have hnil : l.events.rows.filter (belongsTo did) = [] := by
      simpa using List.max?_eq_none_iff.mp hm
    simp only [Bool.false_eq_true, false_iff]
    rintro ⟨other, hother, hbel, -⟩
    have : other ∈ l.events.rows.filter (belongsTo did) := List.mem_filter.mpr ⟨hother, hbel⟩
    rw [hnil] at this
    cases this
  | some newest =>
    obtain ⟨hmem, hle⟩ := List.max?_eq_some_iff.mp hm
    rw [decide_eq_true_eq]
    constructor
    · intro hlt
      obtain ⟨other, hother, rfl⟩ := List.mem_map.mp hmem
      exact ⟨other, (List.mem_filter.mp hother).1, (List.mem_filter.mp hother).2, hlt⟩
    · rintro ⟨other, hother, hbel, hlt⟩
      exact lt_of_lt_of_le hlt (hle _ (List.mem_map_of_mem (List.mem_filter.mpr ⟨hother, hbel⟩)))

omit decodeDid in
/-- A row that is left is a row that was not purged. -/
theorem mem_purge (l : EventLog) {did : String} (hdid : did ≠ "") (row : Int × EventRow) :
    row ∈ (sequencerPurgeAccount l did true).1.events.rows ↔
      row ∈ l.events.rows ∧ ¬ purged l did row = true := by
  simp [sequencerPurgeAccount, hdid, List.mem_filter]

omit decodeDid in
/-- Two rows of a log are one, or one of them is the later. -/
theorem eq_or_seq_lt {l : EventLog} {a b : Int × EventRow} (ha : a ∈ l.events.rows)
    (hb : b ∈ l.events.rows) : a = b ∨ a.1 < b.1 ∨ b.1 < a.1 := by
  rcases lt_trichotomy a.1 b.1 with hlt | heq | hgt
  · exact Or.inr (Or.inl hlt)
  · exact Or.inl (List.inj_on_of_nodup_map l.events.nodup ha hb heq)
  · exact Or.inr (Or.inr hgt)

omit decodeDid in
/-- Whatever a purge deletes, it counts. -/
theorem purge_count (l : EventLog) {did : String} (hdid : did ≠ "") :
    (sequencerPurgeAccount l did true).1.events.rows.Sublist l.events.rows ∧
      sequencerPurgeRemoved l did true +
        (sequencerPurgeAccount l did true).1.events.rows.length = l.events.rows.length := by
  simp only [sequencerPurgeRemoved, sequencerPurgeAccount, hdid, if_false, if_true, rows_delete]
  refine ⟨List.filter_sublist, ?_⟩
  rw [← List.countP_eq_length_filter, List.length_eq_countP_add_countP (purged l did)
    (l := l.events.rows)]
  simp

/-- Without strays a purge does what it is to do. -/
theorem purgesOnly_of_no_stray (hcarries : CarriesDid decodeDid) {l : EventLog} {did : String}
    (hdid : did ≠ "") (hnone : ∀ row ∈ l.events.rows, ¬ Stray decodeDid did row.2) :
    PurgesOnly decodeDid l (sequencerPurgeAccount l did true).1
      (sequencerPurgeRemoved l did true) did := by
  have hsel : ∀ row ∈ l.events.rows,
      belongsTo did row = true ↔ owner decodeDid row.2 = some did := fun row hrow =>
    (belongsTo_iff hcarries did row).trans (or_iff_left (hnone row hrow))
  obtain ⟨hkept, hcount⟩ := purge_count l hdid
  refine ⟨fun row hrow hown => ?_, fun row hrow hother => ?_, hkept, hcount⟩
  · rw [mem_purge l hdid, purged_iff]
    constructor
    · rintro ⟨-, hnot⟩ other hother hoth
      by_contra hlt
      exact hnot ⟨(hsel row hrow).mpr hown, other, hother, (hsel other hother).mpr hoth,
        not_le.mp hlt⟩
    · intro hmax
      refine ⟨hrow, ?_⟩
      rintro ⟨-, other, hother, hbel, hlt⟩
      exact absurd hlt (not_lt.mpr (hmax other hother ((hsel other hother).mp hbel)))
  · rw [mem_purge l hdid, purged_iff]
    exact ⟨hrow, fun hp => hother ((hsel row hrow).mp hp.1)⟩

/-- For an account without events a single stray is the newest event selected, and is left. -/
theorem purgesOnly_of_one_stray (hcarries : CarriesDid decodeDid) {l : EventLog} {did : String}
    (hdid : did ≠ "") (hempty : ∀ row ∈ l.events.rows, owner decodeDid row.2 ≠ some did)
    (hone : ∀ row ∈ l.events.rows, ∀ other ∈ l.events.rows,
      Stray decodeDid did row.2 → Stray decodeDid did other.2 → row = other) :
    PurgesOnly decodeDid l (sequencerPurgeAccount l did true).1
      (sequencerPurgeRemoved l did true) did := by
  have hsel : ∀ row ∈ l.events.rows,
      belongsTo did row = true ↔ Stray decodeDid did row.2 := fun row hrow =>
    (belongsTo_iff hcarries did row).trans (or_iff_right (hempty row hrow))
  obtain ⟨hkept, hcount⟩ := purge_count l hdid
  refine ⟨fun row hrow hown => absurd hown (hempty row hrow), fun row hrow _ => ?_, hkept, hcount⟩
  rw [mem_purge l hdid, purged_iff]
  refine ⟨hrow, ?_⟩
  rintro ⟨hbel, other, hother, hbel', hlt⟩
  rw [hone row hrow other hother ((hsel row hrow).mp hbel) ((hsel other hother).mp hbel')] at hlt
  exact lt_irrefl _ hlt

/-- A purge that does what it is to do leaves strays, so it selects nothing above one. -/
theorem PurgesOnly.le_stray (hcarries : CarriesDid decodeDid) {l : EventLog} {did : String}
    (hdid : did ≠ "") (h : PurgesOnly decodeDid l (sequencerPurgeAccount l did true).1
      (sequencerPurgeRemoved l did true) did) {row : Int × EventRow} (hrow : row ∈ l.events.rows)
    (hstray : Stray decodeDid did row.2) {other : Int × EventRow} (hother : other ∈ l.events.rows)
    (hbel : belongsTo did other = true) : ¬ row.1 < other.1 := by
  intro hlt
  have hleft := h.others row hrow hstray.2.2
  exact ((mem_purge l hdid row).mp hleft).2 ((purged_iff l did row).mpr
    ⟨(belongsTo_iff hcarries did row).mpr (Or.inr hstray), other, hother, hbel, hlt⟩)

/-- Beside a stray, an account with events loses its newest one. -/
theorem PurgesOnly.no_events (hcarries : CarriesDid decodeDid) {l : EventLog} {did : String}
    (hdid : did ≠ "") (h : PurgesOnly decodeDid l (sequencerPurgeAccount l did true).1
      (sequencerPurgeRemoved l did true) did) {stray : Int × EventRow}
    (hstray : stray ∈ l.events.rows) (hbad : Stray decodeDid did stray.2) :
    ∀ row ∈ l.events.rows, owner decodeDid row.2 ≠ some did := by
  intro row hrow hown
  obtain ⟨newest, hmem, hmax⟩ :=
    (l.events.rows.toFinset.filter fun r => owner decodeDid r.2 = some did).exists_max_image
      Prod.fst ⟨row, by simpa using ⟨hrow, hown⟩⟩
  obtain ⟨hin, hnew⟩ : newest ∈ l.events.rows ∧ owner decodeDid newest.2 = some did := by
    simpa using hmem
  have hsel := (belongsTo_iff hcarries did newest).mpr (Or.inl hnew)
  have hbadSel := (belongsTo_iff hcarries did stray).mpr (Or.inr hbad)
  have hleft := (h.own newest hin hnew).mpr fun other hother hoth =>
    hmax other (by simpa using ⟨hother, hoth⟩)
  rcases eq_or_seq_lt hin hstray with rfl | hlt | hgt
  · exact hbad.2.2 hnew
  · exact ((mem_purge l hdid newest).mp hleft).2 ((purged_iff l did newest).mpr
      ⟨hsel, stray, hstray, hbadSel, hlt⟩)
  · exact h.le_stray hcarries hdid hstray hbad hin hsel hgt

/-- A purge that succeeds takes away the account's events but the newest, and nothing else,
exactly if no row without a DID holds a frame of another account that contains this one; an
account without events apart, which one such row does not harm. A purge that fails takes
nothing away and counts nothing. -/
theorem purgesOnly_iff (hcarries : CarriesDid decodeDid) (l : EventLog) (did : String)
    (deleted : Bool) :
    ((sequencerPurgeAccount l did deleted).2 = .ok →
      (PurgesOnly decodeDid l (sequencerPurgeAccount l did deleted).1
          (sequencerPurgeRemoved l did deleted) did ↔
        (∀ row ∈ l.events.rows, ¬ Stray decodeDid did row.2) ∨
          (∀ row ∈ l.events.rows, owner decodeDid row.2 ≠ some did) ∧
            ∀ row ∈ l.events.rows, ∀ other ∈ l.events.rows,
              Stray decodeDid did row.2 → Stray decodeDid did other.2 → row = other)) ∧
      ((sequencerPurgeAccount l did deleted).2 ≠ .ok →
        (sequencerPurgeAccount l did deleted).1 = l ∧
          sequencerPurgeRemoved l did deleted = 0) := by
  by_cases hdid : did = ""
  · simp [sequencerPurgeAccount, sequencerPurgeRemoved, hdid]
  cases deleted with
  | false => simp [sequencerPurgeAccount, sequencerPurgeRemoved, hdid]
  | true =>
    refine ⟨fun _ => ⟨fun h => ?_, ?_⟩, fun hfail => ?_⟩
    · by_cases hnone : ∀ row ∈ l.events.rows, ¬ Stray decodeDid did row.2
      · exact Or.inl hnone
      · push Not at hnone
        obtain ⟨stray, hstray, hbad⟩ := hnone
        refine Or.inr ⟨h.no_events hcarries hdid hstray hbad, fun row hrow other hother hr ho => ?_⟩
        have hrSel := (belongsTo_iff hcarries did row).mpr (Or.inr hr)
        have hoSel := (belongsTo_iff hcarries did other).mpr (Or.inr ho)
        rcases eq_or_seq_lt hrow hother with heq | hlt | hgt
        · exact heq
        · exact absurd hlt (h.le_stray hcarries hdid hrow hr hother hoSel)
        · exact absurd hgt (h.le_stray hcarries hdid hother ho hrow hrSel)
    · rintro (hnone | ⟨hempty, hone⟩)
      · exact purgesOnly_of_no_stray hcarries hdid hnone
      · exact purgesOnly_of_one_stray hcarries hdid hempty hone
    · exact absurd (by simp [sequencerPurgeAccount, hdid]) hfail

end Owners

/-! ## A DID that another one starts with -/

/-- The `#account` frame of an active account: the CBOR header, then `did`, `seq`, `time` and
`active`. Lengths up to 23 stand in the first byte, those up to 255 in one of their own. -/
def accountFrame (did : String) (seq : UInt8) : Frame :=
  let text (s : String) : List UInt8 :=
    (if s.utf8ByteSize < 24 then [0x60 + s.utf8ByteSize.toUInt8]
      else [0x78, s.utf8ByteSize.toUInt8]) ++ s.toUTF8.toList
  [0xa2] ++ text "t" ++ text "#account" ++ text "op" ++ [0x01] ++
    [0xa4] ++ text "did" ++ text did ++ text "seq" ++ [seq] ++
      text "time" ++ text "2026-01-01T00:00:00.000Z" ++ text "active" ++ [0xf5]

/-- The decoder on the frames of the two accounts below. -/
def decodeTwo (frame : Frame) : Option String :=
  if frame = accountFrame "did:web:a.co" 1 ∨ frame = accountFrame "did:web:a.co" 3 then
    some "did:web:a.co"
  else if frame = accountFrame "did:web:a.com" 2 then some "did:web:a.com"
  else none

/-- These frames carry the DIDs they are decoded to. -/
theorem carriesDid_decodeTwo : CarriesDid decodeTwo := by
  intro frame did h
  unfold decodeTwo at h
  split at h
  · rename_i hframe
    cases h
    rcases hframe with rfl | rfl <;> decide +kernel
  · split at h
    · rename_i hframe
      cases h
      subst hframe
      decide +kernel
    · cases h

/-- A log from before the column: an event of each account, then one of the first. -/
def legacyLog : EventLog where
  events :=
    { rows :=
        [(1, .legacy (accountFrame "did:web:a.co" 1) "2026-01-01T00:00:00.000Z"),
          (2, .legacy (accountFrame "did:web:a.com" 2) "2026-01-01T00:00:01.000Z"),
          (3, .legacy (accountFrame "did:web:a.co" 3) "2026-01-01T00:00:02.000Z")]
      highWater := 3
      nodup := by decide
      le_highWater := by simp
      nonneg := by decide }
  prunedThrough := none

/-- Purging `did:web:a.co` deletes the event of `did:web:a.com` too. -/
theorem purge_takes_a_stranger :
    ¬ PurgesOnly decodeTwo legacyLog (sequencerPurgeAccount legacyLog "did:web:a.co" true).1
      (sequencerPurgeRemoved legacyLog "did:web:a.co" true) "did:web:a.co" := by
  intro h
  have hkept := h.others (2, .legacy (accountFrame "did:web:a.com" 2) "2026-01-01T00:00:01.000Z")
    (by simp [legacyLog]) (by decide +kernel)
  revert hkept
  decide +kernel

/-- Purging `did:web:a.com` from the same log is no such case. -/
theorem purgesOnly_iff_legacyLog :
    PurgesOnly decodeTwo legacyLog (sequencerPurgeAccount legacyLog "did:web:a.com" true).1
      (sequencerPurgeRemoved legacyLog "did:web:a.com" true) "did:web:a.com" := by
  refine ((purgesOnly_iff carriesDid_decodeTwo legacyLog "did:web:a.com" true).1 rfl).mpr
    (Or.inl fun row hrow => ?_)
  have hrows : ∀ row ∈ legacyLog.events.rows, "did:web:a.com".toUTF8.toList <:+: row.2.frame →
      owner decodeTwo row.2 = some "did:web:a.com" := by
    decide +kernel
  exact fun hstray => hstray.2.2 (hrows row hrow hstray.2.1)

end MetalBear.Sequencer
