import MetalBear.Library.Calendar
import MetalBear.Sequencer.Log

/-!
# What retention keeps

`metalbear_sequencer_retain` promises to keep at least `min_events` events and every event
younger than `max_age_seconds`. It finds the events it may delete by subtracting
`min_events` from the largest sequence number, and their age by comparing texts.
-/

namespace MetalBear.Sequencer

open AutoTable

/-! ## The clock and its texts -/

/-- `timestamp_now` at a reading of the clock, in nanoseconds; `unset` is what the buffer
shows when `gmtime_r` fills nothing in. -/
def timestampNow (now : Int) (unset : String) : String :=
  match Calendar.gmtimeR (now / 10 ^ 9) with
  | some utc => Calendar.text utc (now % 10 ^ 9 / 10 ^ 6)
  | none => unset

/-- `cutoff_ts`: the second `max_age_seconds` before the clock's. -/
def cutoffText (now maxAgeSeconds : Int) (unset : String) : String :=
  match Calendar.gmtimeR (now / 10 ^ 9 - maxAgeSeconds) with
  | some utc => Calendar.text utc 0
  | none => unset

/-- `metalbear_sequencer_retain` with its age in seconds. -/
def sequencerRetainAged (l : EventLog) (maxAgeSeconds minEvents now : Int) (unset : String)
    (env : RetainEnv) : EventLog × WfStatus :=
  sequencerRetain l minEvents (cutoffText now maxAgeSeconds unset) env

/-- The row records this reading of the clock. -/
def EventRow.WrittenAt (row : EventRow) (written : Int) : Prop :=
  ∃ utc, Calendar.gmtimeR (written / 10 ^ 9) = some utc ∧
    row.createdAt = Calendar.text utc (written % 10 ^ 9 / 10 ^ 6)

/-- The events that follow one in the log. -/
def followers (l : EventLog) (seq : Int) : List (Int × EventRow) :=
  l.events.rows.filter fun row => seq < row.1

/-! ## The promise -/

/-- What retention promises of the log before and after. -/
structure KeepsPromise (l l' : EventLog) (maxAgeSeconds minEvents now : Int) : Prop where
  count : min (l.events.rows.length : Int) minEvents ≤ l'.events.rows.length
  newest : ∀ row ∈ l.events.rows, ((followers l row.1).length : Int) < minEvents →
    row ∈ l'.events.rows
  young : ∀ row ∈ l.events.rows, row ∉ l'.events.rows → ∀ written, row.2.WrittenAt written →
    written ≤ now - maxAgeSeconds * 10 ^ 9

/-- The rows at or below `MAX(seq) - min_events`. -/
def Numbered (l : EventLog) (minEvents : Int) (row : Int × EventRow) : Prop :=
  row.1 ≤ l.events.maxKey.getD 0 - minEvents

/-- No gap in the numbers puts a row that fewer than `min_events` rows follow, and that is
old enough, at or below `MAX(seq) - min_events`. -/
def GapsHarmless (l : EventLog) (minEvents : Int) (cutoffTs : String) : Prop :=
  ∀ row ∈ l.events.rows, ((followers l row.1).length : Int) < minEvents →
    Numbered l minEvents row → ¬ row.2.createdAt < cutoffTs

/-- The texts of the rows that retention compares with its cutoff compare as times. -/
def TextsCompare (l : EventLog) (maxAgeSeconds minEvents now : Int) (unset : String) : Prop :=
  ∀ row ∈ l.events.rows, Numbered l minEvents row →
    row.2.createdAt < cutoffText now maxAgeSeconds unset →
    ∀ written, row.2.WrittenAt written → written ≤ now - maxAgeSeconds * 10 ^ 9

/-- Retention gets as far as its DELETE, and the DELETE is done. -/
def Retains (l : EventLog) (minEvents : Int) (env : RetainEnv) : Prop :=
  env.queried = true ∧ env.prepared = true ∧ env.deleted = true ∧
    0 < l.events.maxKey.getD 0 - minEvents

/-- Where retention does not get as far as its DELETE it keeps every row. -/
theorem retainAged_of_not {l : EventLog} {minEvents : Int} {env : RetainEnv}
    (hmin : 0 ≤ minEvents) (h : ¬ Retains l minEvents env) (maxAgeSeconds now : Int)
    (unset : String) :
    (sequencerRetainAged l maxAgeSeconds minEvents now unset env).1.events = l.events := by
  unfold sequencerRetainAged
  rw [sequencerRetain_events, if_neg]
  rintro ⟨hcut, hprep, hdel⟩
  refine h ⟨?_, hprep, hdel, ?_⟩
  · cases hq : env.queried with
    | true => rfl
    | false =>
      simp only [currentLocked, hq] at hcut
      simp at hcut
      omega
  · cases hq : env.queried with
    | true => simpa [currentLocked, hq] using hcut
    | false =>
      simp only [currentLocked, hq] at hcut
      simp at hcut
      omega

/-- What is left once the DELETE is done. -/
theorem mem_retainAged {l : EventLog} {minEvents : Int} {env : RetainEnv}
    (h : Retains l minEvents env) {maxAgeSeconds now : Int} {unset : String}
    {row : Int × EventRow} :
    row ∈ (sequencerRetainAged l maxAgeSeconds minEvents now unset env).1.events.rows ↔
      row ∈ l.events.rows ∧ ¬ (Numbered l minEvents row ∧
        row.2.createdAt < cutoffText now maxAgeSeconds unset) := by
  obtain ⟨hq, hprep, hdel, hcut⟩ := h
  have hcur : currentLocked l env.queried = l.events.maxKey.getD 0 := by
    rw [currentLocked, if_pos hq]
  unfold sequencerRetainAged
  rw [sequencerRetain_events, hcur, if_pos ⟨hcut, hprep, hdel⟩, rows_delete, List.mem_filter]
  simp only [outdated, Numbered, Bool.not_eq_true', Bool.and_eq_false_iff, decide_eq_false_iff_not]
  tauto

/-- A log that keeps its newest `min_events` rows keeps as many. -/
theorem count_of_newest {l l' : EventLog} {minEvents : Int}
    (hnew : ∀ row ∈ l.events.rows, ((followers l row.1).length : Int) < minEvents →
      row ∈ l'.events.rows) :
    min (l.events.rows.length : Int) minEvents ≤ l'.events.rows.length := by
  by_contra hlt
  have hnodup (t : EventLog) : t.events.rows.Nodup := List.Nodup.of_map _ t.events.nodup
  -- the last row that is gone has only surviving rows above it
  have hgone : ∃ row ∈ l.events.rows, row ∉ l'.events.rows := by
    by_contra hall
    push Not at hall
    have := ((hnodup l).subperm hall).length_le
    omega
  obtain ⟨row, hrow, hmax⟩ := (l.events.rows.toFinset.filter (· ∉ l'.events.rows)).exists_max_image
    Prod.fst (by simpa [Finset.Nonempty] using hgone)
  obtain ⟨hin, hout⟩ : row ∈ l.events.rows ∧ row ∉ l'.events.rows := by simpa using hrow
  have hsub : followers l row.1 ⊆ l'.events.rows := by
    intro other hother
    obtain ⟨hmem, habove⟩ := List.mem_filter.mp hother
    by_contra hnot
    have := hmax other (by simpa using ⟨hmem, hnot⟩)
    simp only [decide_eq_true_eq] at habove
    omega
  have hle := (((hnodup l).filter _).subperm hsub).length_le
  have hle' : (followers l row.1).length ≤ l'.events.rows.length := hle
  exact hout (hnew row hin (by omega))

/-- The promise is kept exactly where gaps in the numbers do no harm and the texts of the times
compare as the times. -/
theorem keepsPromise_iff (l : EventLog) (maxAgeSeconds minEvents now : Int)
    (unset : String) (env : RetainEnv) (hmin : 0 ≤ minEvents) :
    KeepsPromise l (sequencerRetainAged l maxAgeSeconds minEvents now unset env).1
        maxAgeSeconds minEvents now ↔
      (Retains l minEvents env →
        GapsHarmless l minEvents (cutoffText now maxAgeSeconds unset) ∧
          TextsCompare l maxAgeSeconds minEvents now unset) := by
  by_cases hret : Retains l minEvents env
  · simp only [hret, true_implies]
    constructor
    · intro hkeep
      refine ⟨fun row hrow hfew hnum hlt => ?_, fun row hrow hnum hlt => ?_⟩
      · exact ((mem_retainAged hret).mp (hkeep.newest row hrow hfew)).2 ⟨hnum, hlt⟩
      · exact hkeep.young row hrow fun hmem => ((mem_retainAged hret).mp hmem).2 ⟨hnum, hlt⟩
    · rintro ⟨hgaps, htexts⟩
      have hnew : ∀ row ∈ l.events.rows, ((followers l row.1).length : Int) < minEvents →
          row ∈ (sequencerRetainAged l maxAgeSeconds minEvents now unset env).1.events.rows :=
        fun row hrow hfew => (mem_retainAged hret).mpr
          ⟨hrow, fun hold => hgaps row hrow hfew hold.1 hold.2⟩
      refine ⟨count_of_newest hnew, hnew, fun row hrow hgone => ?_⟩
      rw [mem_retainAged hret] at hgone
      have hold : Numbered l minEvents row ∧
          row.2.createdAt < cutoffText now maxAgeSeconds unset := by
        by_contra hnot
        exact hgone ⟨hrow, hnot⟩
      exact htexts row hrow hold.1 hold.2
  · simp only [hret, false_implies, iff_true]
    have hsame := retainAged_of_not hmin hret maxAgeSeconds now unset
    refine ⟨?_, fun row hrow _ => ?_, fun row hrow hgone => ?_⟩
    · rw [hsame]
      exact min_le_left _ _
    · rwa [hsame]
    · rw [hsame] at hgone
      exact absurd hrow hgone

/-- The rows show years of four digits, and the cutoff is a time `gmtime_r` can represent, not
after those years. -/
def FourDigitYears (l : EventLog) (maxAgeSeconds now : Int) : Prop :=
  (∃ utc, Calendar.gmtimeR (now / 10 ^ 9 - maxAgeSeconds) = some utc ∧ utc.year < 10 ^ 4) ∧
    ∀ row ∈ l.events.rows, ∀ written, row.2.WrittenAt written →
      0 ≤ (Calendar.fields (written / 10 ^ 9)).year ∧
        (Calendar.fields (written / 10 ^ 9)).year < 10 ^ 4

/-- Years of four digits compare as their texts. -/
theorem textsCompare_of_years {l : EventLog} {maxAgeSeconds now : Int}
    (h : FourDigitYears l maxAgeSeconds now) (minEvents : Int) (unset : String) :
    TextsCompare l maxAgeSeconds minEvents now unset := by
  obtain ⟨⟨utc, hcut, hlate⟩, hrows⟩ := h
  intro row hrow _ hlt written hwritten
  have hyear := hrows row hrow written hwritten
  obtain ⟨tm, htm, hat⟩ := hwritten
  have htm' : Calendar.fields (written / 10 ^ 9) = tm := Calendar.gmtimeR_eq_some htm
  have hcut' : Calendar.fields (now / 10 ^ 9 - maxAgeSeconds) = utc :=
    Calendar.gmtimeR_eq_some hcut
  have hfits := Calendar.fits_fields hyear
  rw [hat, cutoffText, hcut, ← htm', ← hcut'] at hlt
  rw [← hcut'] at hlate
  dsimp only at hlt
  by_cases hneg : (Calendar.fields (now / 10 ^ 9 - maxAgeSeconds)).year < 0
  · exact absurd (lt_trans hlt (Calendar.text_lt_of_neg hneg hfits _ _)) (lt_irrefl _)
  · rcases Calendar.lt_or_of_text_lt hyear ⟨by omega, hlate⟩ (by omega) (by decide) hlt
      with hbefore | ⟨-, hmillis⟩
    · omega
    · omega

/-- What retention keeps of a log, whatever the log: its promise, exactly where gaps in the
numbers do no harm and the texts compare as the times, which they do for years of four
digits. -/
theorem retainAged_keepsPromise (l : EventLog) (maxAgeSeconds minEvents now : Int)
    (unset : String) (env : RetainEnv) (hmin : 0 ≤ minEvents) :
    (KeepsPromise l (sequencerRetainAged l maxAgeSeconds minEvents now unset env).1
        maxAgeSeconds minEvents now ↔
      (Retains l minEvents env →
        GapsHarmless l minEvents (cutoffText now maxAgeSeconds unset) ∧
          TextsCompare l maxAgeSeconds minEvents now unset)) ∧
      (FourDigitYears l maxAgeSeconds now → TextsCompare l maxAgeSeconds minEvents now unset) :=
  ⟨keepsPromise_iff l maxAgeSeconds minEvents now unset env hmin,
    fun hyears => textsCompare_of_years hyears minEvents unset⟩

/-! ## A gap that costs an event -/

/-- An append that succeeds in the first second of the epoch. -/
def firstSecond : AppendEnv where
  closing := false
  begun := true
  inserted := true
  now := timestampNow 0 ""
  publish := fun _ => (.ok, [1])
  updated := true
  committed := true

/-- A retention whose statements all succeed. -/
def RetainEnv.working : RetainEnv := ⟨true, true, true, false, true⟩

/-- One event of an account, then three of another one, which is purged. -/
def gapLog : EventLog :=
  let append (l : EventLog) (did : String) := (appendEvent l ⟨.account, did⟩ firstSecond).1
  (sequencerPurgeAccount (append (append (append (append .empty "did:plc:a") "did:plc:b")
    "did:plc:b") "did:plc:b") "did:plc:b" true).1

/-- The purge leaves events 1 and 4. -/
theorem rows_gapLog : gapLog.events.rows =
    [(1, ⟨[1], timestampNow 0 "", some "did:plc:a"⟩),
      (4, ⟨[1], timestampNow 0 "", some "did:plc:b"⟩)] := by
  decide

/-- A retention told to keep two events deletes one of the two there are. -/
theorem gapLog_loses : ¬ KeepsPromise gapLog
    (sequencerRetainAged gapLog 1 2 (10 * 10 ^ 9) "" .working).1 1 2 (10 * 10 ^ 9) := by
  intro h
  have hcount := h.count
  have hleft : (sequencerRetainAged gapLog 1 2 (10 * 10 ^ 9) "" .working).1.events.rows.length =
      1 := by
    decide
  rw [hleft, rows_gapLog] at hcount
  revert hcount
  decide

/-- With one event to keep, the same log loses none it should not. -/
theorem retainAged_keepsPromise_gapLog : 0 ≤ (1 : Int) ∧
    (KeepsPromise gapLog (sequencerRetainAged gapLog 1 1 (10 * 10 ^ 9) "" .working).1 1 1
        (10 * 10 ^ 9) ↔
      (Retains gapLog 1 .working →
        GapsHarmless gapLog 1 (cutoffText (10 * 10 ^ 9) 1 "") ∧
          TextsCompare gapLog 1 1 (10 * 10 ^ 9) "")) :=
  ⟨by decide, (retainAged_keepsPromise gapLog 1 1 (10 * 10 ^ 9) "" .working (by decide)).1⟩

end MetalBear.Sequencer
