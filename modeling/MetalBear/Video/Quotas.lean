import MetalBear.Video.Completion

/-!
# The quotas of the upload store

A session is admitted against what one `SELECT` counts: the sizes and the number of the uploads of
the last 24 hours, and how many of these are open. No other step makes an upload count that did not
count before, so the quotas hold from one admission to the next. They rest on two things that the
admission does not look at: that the `SELECT` is carried out, for where it fails nothing counts,
and that no session is still open when its 24 hours are over, for such a session does not count.
-/

namespace MetalBear.Video

open Machine

/-- The session of an upload is open, or being finished. -/
def Upload.isOpen (u : Upload) : Bool := u.state = .created ∨ u.state = .finishing

/-- The upload counts towards the daily limits while it is in the window. -/
def Upload.counts (u : Upload) : Bool := u.isOpen || u.state = .completed

/-- An upload that was created within the last 24 hours. -/
def Upload.inWindow (now : ℕ) (u : Upload) : Bool := now < u.createdAt + 86400

/-- What a step may make of an upload that it does not admit. -/
structure Upload.Fades (u v : Upload) : Prop where
  size : v.sizeBytes = u.sizeBytes
  created : v.createdAt = u.createdAt
  counts : v.counts = true → u.counts = true
  isOpen : v.isOpen = true → u.isOpen = true

theorem Upload.Fades.rfl {u : Upload} : u.Fades u := ⟨Eq.refl _, Eq.refl _, id, id⟩

/-- An upload that is over counts no more. -/
theorem Upload.fades_of_over {u v : Upload} (hsize : v.sizeBytes = u.sizeBytes)
    (hcreated : v.createdAt = u.createdAt) (hcounts : v.counts = false) : u.Fades v := by
  refine ⟨hsize, hcreated, fun h => ?_, fun h => ?_⟩
  · rw [hcounts] at h
    cases h
  · rw [counts, h, Bool.true_or] at hcounts
    cases hcounts

/-- An upload that has faded counts at no time at which it did not before. -/
theorem Upload.Fades.window {u v : Upload} {now now' : ℕ} (h : u.Fades v) (hnow : now ≤ now')
    (hv : (v.counts && v.inWindow now') = true) : (u.counts && u.inWindow now) = true := by
  simp only [inWindow, Bool.and_eq_true, decide_eq_true_eq, h.created] at hv ⊢
  exact ⟨h.counts hv.1, by omega⟩

namespace Job

variable {cidOf : Bytes → String} {j : Job} {c : Call}

/-- A row fades, or there is none before and after. -/
abbrev RowFades : Option Upload → Option Upload → Prop := Option.Rel Upload.Fades

theorem rowFades_rfl {row : Option Upload} : RowFades row row := by
  cases row with
  | none => exact .none
  | some u => exact .some .rfl

theorem RowFades.trans {r s t : Option Upload} (h : RowFades r s) (h' : RowFades s t) :
    RowFades r t := by
  cases h with
  | none => exact h'
  | some h =>
    cases h' with
    | some h' =>
      exact .some ⟨h'.size.trans h.size, h'.created.trans h.created,
        fun hc => h.counts (h'.counts hc), fun ho => h.isOpen (h'.isOpen ho)⟩

/-- An `UPDATE` under which the rows that it meets fade. -/
theorem rowFades_updateRow {p : Upload → Bool} {f : Upload → Upload}
    (h : ∀ u, j.row = some u → p u = true → u.Fades (f u)) :
    RowFades j.row (j.updateRow p f).row := by
  simp only [updateRow]
  cases hrow : j.row with
  | none => exact .none
  | some u =>
    refine .some ?_
    dsimp only
    split
    · next hp => exact h u hrow hp
    · exact .rfl

theorem rowFades_expire (e : Expiry) : RowFades j.row (j.expire e).row := by
  have hupdate : RowFades j.row
      (j.updateRow (overdue e.updated) ({ · with state := .expired })).row :=
    rowFades_updateRow fun u _ _ => Upload.fades_of_over rfl rfl rfl
  rw [Job.expire]
  split
  · exact hupdate
  · exact hupdate

/-- A session that is reset or reopened was being finished. -/
theorem rowFades_reset : RowFades j.row j.reset.row := by
  refine rowFades_updateRow fun u _ hp => ⟨rfl, rfl, fun _ => ?_, fun _ => ?_⟩
  · simp [Upload.counts, Upload.isOpen, of_decide_eq_true hp]
  · simp [Upload.isOpen, of_decide_eq_true hp]

/-- A session that a finish call completes still counts. -/
def Call.CompletesCounted (j : Job) : Call → Prop
  | .finishSettle call _ => ∀ store v cid, j.finishes call = some ⟨store, v, .settled .ok cid⟩ →
      ∀ u, j.row = some u → u.counts = true
  | _ => True

/-- No call about a session makes its upload count that did not. -/
theorem rowFades_serve (hc : c.CompletesCounted j) : RowFades j.row (j.serve cidOf c).row := by
  cases c with
  | partBegin store w n contentLength e =>
    simp only [serve, partBegin]
    split
    · exact rowFades_rfl
    · cases j.loadStatus e.loads with
      | none => exact rowFades_rfl
      | some u =>
        dsimp only
        repeat' split
        all_goals exact rowFades_rfl
  | partWrite w data taken =>
    simp only [serve, partWrite]
    cases j.writers w with
    | none => exact rowFades_rfl
    | some x =>
      dsimp only
      repeat' split
      all_goals exact rowFades_rfl
  | partFinish w e =>
    simp only [serve, partFinish, partCommit, loadStatus]
    cases j.writers w with
    | none => exact rowFades_rfl
    | some x =>
      dsimp only
      repeat' split
      all_goals exact rowFades_rfl
  | partFree w erases =>
    simp only [serve, partFree]
    cases j.writers w with
    | none => exact rowFades_rfl
    | some x => exact rowFades_rfl
  | finish store call e =>
    simp only [serve]
    split
    · exact rowFades_rfl
    · obtain heq | ⟨u, hrow, hcreated, -, heq⟩ := finishMark_cases store call e j
      · rw [heq]
        exact rowFades_rfl
      · rw [heq]
        refine rowFades_updateRow fun v _ hp => ⟨rfl, rfl, fun _ => ?_, fun _ => ?_⟩
        · simp [Upload.counts, Upload.isOpen, of_decide_eq_true hp]
        · simp [Upload.isOpen, of_decide_eq_true hp]
  | finishOpen call opens =>
    simp only [serve, finishOpen]
    split
    · repeat' split
      all_goals exact rowFades_rfl
    · exact rowFades_rfl
  | finishRead call reading closes encodes =>
    simp only [serve, finishRead, finishClose]
    split
    · repeat' split
      all_goals exact rowFades_rfl
    · exact rowFades_rfl
  | finishPut call p =>
    simp only [serve, finishPut]
    split
    · repeat' split
      all_goals exact rowFades_rfl
    · exact rowFades_rfl
  | finishSettle call e =>
    simp only [serve, finishSettle]
    split
    · next store v result cid hf =>
      split
      · exact rowFades_rfl
      split
      · refine rowFades_updateRow fun u hu _ =>
          ⟨rfl, rfl, fun _ => hc store v cid hf u hu, fun h => ?_⟩
        cases h
      · exact rowFades_updateRow fun u _ _ => Upload.fades_of_over rfl rfl rfl
      · exact rowFades_reset
    · exact rowFades_rfl
  | finishThrow call resets =>
    simp only [serve, finishThrow]
    cases j.finishes call with
    | none => exact rowFades_rfl
    | some f =>
      dsimp only
      split
      · exact rowFades_reset
      · exact rowFades_rfl
  | abort store e =>
    simp only [serve, abort]
    cases j.loadStatus e.loads with
    | none => exact rowFades_rfl
    | some u =>
      dsimp only
      split
      · exact rowFades_rfl
      split
      · split
        · exact rowFades_rfl
        · exact rowFades_updateRow fun v _ _ => Upload.fades_of_over rfl rfl rfl
      · exact rowFades_rfl

end Job

namespace Uploads

open Job

variable {cidOf : Bytes → String} {s t : Uploads} {ev : Event} {w w' : Upload → ℕ}

/-! ## Weighing the uploads -/

/-- The weight of a row, if there is one. -/
def rowWeight (w : Upload → ℕ) (row : Option Upload) : ℕ := (row.map w).getD 0

/-- The weights of all uploads together. -/
def weight (w : Upload → ℕ) (s : Uploads) : ℕ :=
  (s.ids.map fun id => rowWeight w (s.jobs id).row).sum

/-- An upload weighs its size while it counts. -/
def sizeWeight (now : ℕ) (u : Upload) : ℕ :=
  if u.counts && u.inWindow now then u.sizeBytes else 0

/-- An upload weighs one while it counts. -/
def oneWeight (now : ℕ) (u : Upload) : ℕ := if u.counts && u.inWindow now then 1 else 0

/-- An upload weighs one while its session is open. -/
def openWeight (u : Upload) : ℕ := if u.isOpen then 1 else 0

theorem sum_filterMap_rows (ids : List String) (rows : String → Option Upload) :
    ((ids.filterMap rows).map w).sum = (ids.map fun id => rowWeight w (rows id)).sum := by
  induction ids with
  | nil => rfl
  | cons id ids ih =>
    cases hrow : rows id with
    | none => simp [hrow, rowWeight, ih]
    | some u => simp [hrow, rowWeight, ih]

theorem sum_filter (p : Upload → Bool) (rows : List Upload) :
    ((rows.filter p).map w).sum = (rows.map fun u => if p u then w u else 0).sum := by
  induction rows with
  | nil => rfl
  | cons u rows ih => cases hp : p u <;> simp [hp, ih]

theorem length_eq_sum (rows : List Upload) : rows.length = (rows.map fun _ => 1).sum := by simp

theorem counted_eq (now : ℕ) :
    s.counted now = (s.ids.filterMap fun id => (s.jobs id).row).filter fun u =>
      u.counts && u.inWindow now := by
  refine List.filter_congr fun u _ => ?_
  simp [Upload.counts, Upload.isOpen, Upload.inWindow, Bool.or_assoc]

/-- What the `SELECT` of `limits_locked` counts are weights. -/
theorem sum_counted (now : ℕ) :
    ((s.counted now).map Upload.sizeBytes).sum = s.weight (sizeWeight now) := by
  rw [counted_eq, sum_filter, sum_filterMap_rows]
  rfl

theorem length_counted (now : ℕ) : (s.counted now).length = s.weight (oneWeight now) := by
  rw [counted_eq, length_eq_sum, sum_filter, sum_filterMap_rows]
  rfl

/-- The sessions that are open, or being finished. -/
def openSessions (s : Uploads) : ℕ :=
  (s.ids.filterMap fun id => (s.jobs id).row).countP Upload.isOpen

theorem openSessions_eq : s.openSessions = s.weight openWeight := by
  rw [openSessions, List.countP_eq_length_filter, length_eq_sum, sum_filter, sum_filterMap_rows]
  rfl

/-! ## Weights that steps do not raise -/

/-- A weight that no upload gains by fading. -/
def Wanes (w w' : Upload → ℕ) : Prop := ∀ u v : Upload, u.Fades v → w' v ≤ w u

theorem wanes_size {now now' : ℕ} (h : now ≤ now') : Wanes (sizeWeight now) (sizeWeight now') := by
  intro u v hfades
  unfold sizeWeight
  split
  · next hv => rw [if_pos (hfades.window h hv), hfades.size]
  · exact Nat.zero_le _

theorem wanes_one {now now' : ℕ} (h : now ≤ now') : Wanes (oneWeight now) (oneWeight now') := by
  intro u v hfades
  unfold oneWeight
  split
  · next hv => rw [if_pos (hfades.window h hv)]
  · exact Nat.zero_le _

theorem wanes_open : Wanes openWeight openWeight := by
  intro u v hfades
  unfold openWeight
  split
  · next hv => rw [if_pos (hfades.isOpen hv)]
  · exact Nat.zero_le _

/-- The uploads have faded: the same sessions, and no row counts that did not. -/
structure Faded (s t : Uploads) : Prop where
  ids : t.ids = s.ids
  rows : ∀ id, RowFades (s.jobs id).row (t.jobs id).row

theorem faded_rfl : Faded s s := ⟨rfl, fun _ => rowFades_rfl⟩

theorem Wanes.rowWeight_le (h : Wanes w w') {row row' : Option Upload} (hrow : RowFades row row') :
    rowWeight w' row' ≤ rowWeight w row := by
  cases hrow with
  | none => exact le_rfl
  | some hfades => exact h _ _ hfades

theorem Wanes.weight_le (h : Wanes w w') (hfaded : Faded s t) : t.weight w' ≤ s.weight w := by
  rw [weight, weight, hfaded.ids]
  exact List.sum_le_sum fun id _ => h.rowWeight_le (hfaded.rows id)

theorem faded_expire (e : String → Expiry) : Faded s (s.expire e) :=
  ⟨rfl, fun _ => rowFades_expire _⟩

theorem Faded.set {id : String} {j : Job} (h : Faded s t) (hj : RowFades (s.jobs id).row j.row) :
    Faded s (t.set id j) := by
  refine ⟨h.ids, fun id' => ?_⟩
  by_cases hid : id' = id
  · subst hid
    simpa only [Uploads.set, Function.update_self] using hj
  · simpa only [Uploads.set, Function.update_of_ne hid] using h.rows id'

/-! ## Admission -/

/-- Every session of the list has its row. -/
def Listed (s : Uploads) : Prop := ∀ id ∈ s.ids, (s.jobs id).row ≠ none

theorem Listed.of_faded (h : s.Listed) (hfaded : Faded s t) : t.Listed := by
  intro id hid hnone
  rw [hfaded.ids] at hid
  have hrow := hfaded.rows id
  rw [hnone] at hrow
  cases hs : (s.jobs id).row with
  | none => exact h id hid hs
  | some u =>
    rw [hs] at hrow
    cases hrow

/-- A new row weighs what it weighs. -/
theorem weight_insert {id : String} {u : Upload} {d : Bool} (h : s.Listed)
    (hrow : (s.jobs id).row = none) :
    weight w { s.set id { s.jobs id with row := some u, directory := d } with
      ids := s.ids ++ [id] } = s.weight w + w u := by
  have hold : ∀ id' ∈ s.ids, id' ≠ id := by
    rintro id' hid rfl
    exact h id' hid hrow
  have hmap : (s.ids.map fun id' => rowWeight w ((s.set id { s.jobs id with
      row := some u, directory := d }).jobs id').row) =
      s.ids.map fun id' => rowWeight w (s.jobs id').row := by
    refine List.map_congr_left fun id' hid => ?_
    simp only [Uploads.set, Function.update_of_ne (hold id' hid)]
  simp only [weight, List.map_append, List.sum_append, hmap, List.map_singleton,
    List.sum_singleton]
  simp [Uploads.set, rowWeight]

theorem Listed.insert {id : String} {u : Upload} {d : Bool} (h : s.Listed) :
    Listed { s.set id { s.jobs id with row := some u, directory := d } with
      ids := s.ids ++ [id] } := by
  intro id' hid
  by_cases heq : id' = id
  · subst heq
    simp [Uploads.set]
  · simp only [Uploads.set, Function.update_of_ne heq]
    simp only [List.mem_append, List.mem_singleton, heq, or_false] at hid
    exact h id' hid

/-- What `metalbear_video_upload_start` can do: let sessions expire, or admit an upload that the
limits allow. -/
theorem start_cases (sizeBytes : ℕ) (mimeType : String) (name : Option ℕ) (e : Starting)
    (s : Uploads) :
    Faded s (s.start sizeBytes mimeType name e).1 ∨
    ∃ id d, ((s.expire e.expiry).jobs id).row = none ∧ sizeBytes ≤ maxBytes ∧
      ((s.expire e.expiry).limits e.counts).2.2 < maxOpenUploads ∧
      0 < ((s.expire e.expiry).limits e.counts).2.1 ∧ 0 < sizeBytes ∧
      sizeBytes ≤ ((s.expire e.expiry).limits e.counts).1 ∧
      (s.start sizeBytes mimeType name e).1 =
        { (s.expire e.expiry).set id { (s.expire e.expiry).jobs id with
          row := some (startRow sizeBytes e.now mimeType), directory := d } with
          ids := (s.expire e.expiry).ids ++ [id] } := by
  rw [Uploads.start]
  split
  · exact .inl faded_rfl
  next hpos =>
  split
  · exact .inl faded_rfl
  next hmax =>
  split
  · exact .inl faded_rfl
  split
  · exact .inl faded_rfl
  dsimp only
  split
  · exact .inl (faded_expire _)
  next hopen =>
  split
  · exact .inl (faded_expire _)
  next hdaily =>
  rw [not_or] at hdaily
  split
  · exact .inl (faded_expire _)
  · next id _ =>
    rw [insertSession]
    split
    · exact .inl (faded_expire _)
    next hrow =>
    simp only [Bool.or_eq_true, not_or, Option.isSome_iff_ne_none, not_not] at hrow
    have hadmitted : sizeBytes ≤ maxBytes ∧
        ((s.expire e.expiry).limits e.counts).2.2 < maxOpenUploads ∧
        0 < ((s.expire e.expiry).limits e.counts).2.1 ∧ 0 < sizeBytes ∧
        sizeBytes ≤ ((s.expire e.expiry).limits e.counts).1 :=
      ⟨Nat.le_of_not_lt hmax, Nat.lt_of_not_le hopen, Nat.pos_of_ne_zero hdaily.1,
        Nat.pos_of_ne_zero hpos, Nat.le_of_not_lt hdaily.2⟩
    obtain ⟨h1, h2, h3, h4, h5⟩ := hadmitted
    split
    · exact .inr ⟨id, true, hrow.2, h1, h2, h3, h4, h5, rfl⟩
    split
    · exact .inl (faded_expire _)
    · exact .inr ⟨id, _, hrow.2, h1, h2, h3, h4, h5, rfl⟩

/-- Where no session is open past its time, the open uploads in the window are all open ones. -/
theorem openSessions_le_counted {now : ℕ}
    (h : ∀ id u, (s.jobs id).row = some u → u.isOpen = true → u.inWindow now = true) :
    s.openSessions ≤ (s.limits (some now)).2.2 := by
  have hcount : (s.limits (some now)).2.2 = (s.counted now).countP Upload.isOpen := by
    rw [limits]
    refine List.countP_congr fun u _ => ?_
    simp [Upload.isOpen]
  rw [hcount, counted_eq, openSessions, List.countP_filter]
  refine List.countP_mono_left fun u hu hopen => ?_
  obtain ⟨id, -, hrow⟩ := List.mem_filterMap.mp hu
  simp [Upload.counts, hopen, h id u hrow hopen]

/-! ## Runs with a clock -/

/-- The store, and the last reading of the clock. -/
structure Timed where
  uploads : Uploads
  clock : ℕ

/-- An event, over at a time. -/
def Timed.step (cidOf : Bytes → String) (t : Timed) (ev : Event × ℕ) : Timed :=
  ⟨t.uploads.step cidOf ev.1, ev.2⟩

/-- A new account. -/
def Timed.initial : Timed := ⟨Uploads.initial, 0⟩

/-- The clock does not go back. -/
def Timed.OnTime (t : Timed) : Event × ℕ → Prop
  | (.start _ _ _ _ e, ended) =>
    (∀ c, e.counts = some c → t.clock ≤ c ∧ c ≤ e.now) ∧ t.clock ≤ e.now ∧ e.now ≤ ended
  | (_, ended) => t.clock ≤ ended

/-- The store object is open and what is asked for may be uploaded, so that
`metalbear_video_upload_start` gets as far as `limits_locked`. -/
def ReachesLimits (s : Uploads) (store sizeBytes : ℕ) (mimeType : String) (name : Option ℕ) :
    Prop :=
  s.stores store = true ∧ sizeBytes ≠ 0 ∧ sizeBytes ≤ maxBytes ∧ mimeType = "video/mp4" ∧
    name.any (256 < ·) = false

/-- Where a start gets that far, the `SELECT` of `limits_locked` is carried out and no session is
open then whose 24 hours are over; and a session that a finish call completes still counts. -/
def Timed.Admits (t : Timed) : Event × ℕ → Prop
  | (.start store sizeBytes mimeType name e, _) =>
    t.uploads.ReachesLimits store sizeBytes mimeType name → ∃ c, e.counts = some c ∧
      ∀ id u, ((t.uploads.expire e.expiry).jobs id).row = some u → u.isOpen = true →
        u.inWindow c = true
  | (.call id _ c, _) => c.CompletesCounted (t.uploads.jobs id)
  | _ => True

/-- From now on the uploads that were created within the last 24 hours keep the daily limits, the
sum of their sizes has room for any upload in 64 bits, and no more sessions are open than may be. -/
structure Timed.WithinQuotas (t : Timed) : Prop where
  videos : ∀ now, t.clock ≤ now → (t.uploads.counted now).length ≤ dailyCount
  bytes : ∀ now, t.clock ≤ now → ((t.uploads.counted now).map Upload.sizeBytes).sum ≤ dailyBytes
  fits : ∀ now, t.clock ≤ now → ∀ size ≤ maxBytes,
    ((t.uploads.counted now).map Upload.sizeBytes).sum + size + partBytes < 2 ^ 63
  isOpen : t.uploads.openSessions ≤ maxOpenUploads

/-- The quotas, and the rows of the sessions. -/
structure Timed.Inv (t : Timed) : Prop where
  listed : t.uploads.Listed
  videos : ∀ now, t.clock ≤ now → t.uploads.weight (oneWeight now) ≤ dailyCount
  bytes : ∀ now, t.clock ≤ now → t.uploads.weight (sizeWeight now) ≤ dailyBytes
  isOpen : t.uploads.weight openWeight ≤ maxOpenUploads

namespace Timed

variable {t : Timed} {ev : Event × ℕ}

theorem Inv.withinQuotas (h : t.Inv) : t.WithinQuotas where
  videos now hnow := by
    rw [length_counted]
    exact h.videos now hnow
  bytes now hnow := by
    rw [sum_counted]
    exact h.bytes now hnow
  fits now hnow size hsize := by
    have hbytes := h.bytes now hnow
    rw [sum_counted]
    simp only [dailyBytes, maxBytes, partBytes] at *
    omega
  isOpen := by
    rw [openSessions_eq]
    exact h.isOpen

/-- Uploads that fade keep the quotas. -/
theorem Inv.of_faded {uploads : Uploads} {clock : ℕ} (h : t.Inv) (hfaded : Faded t.uploads uploads)
    (hclock : t.clock ≤ clock) : Inv ⟨uploads, clock⟩ where
  listed := h.listed.of_faded hfaded
  videos now hnow :=
    ((wanes_one le_rfl).weight_le hfaded).trans (h.videos now (hclock.trans hnow))
  bytes now hnow :=
    ((wanes_size le_rfl).weight_le hfaded).trans (h.bytes now (hclock.trans hnow))
  isOpen := (wanes_open.weight_le hfaded).trans h.isOpen

/-- An upload that is admitted keeps the quotas. -/
theorem Inv.start {sizeBytes ended c : ℕ} {mimeType : String} {name : Option ℕ} {e : Starting}
    (h : t.Inv) (hcounts : e.counts = some c) (hclock : t.clock ≤ c) (hc : c ≤ e.now)
    (hat : e.now ≤ ended)
    (hopen : ∀ id u, ((t.uploads.expire e.expiry).jobs id).row = some u → u.isOpen = true →
      u.inWindow c = true) :
    Inv ⟨(t.uploads.start sizeBytes mimeType name e).1, ended⟩ := by
  obtain hfaded | ⟨id, d, hrow, hmax, hroom, hvideos, hpos, hbytes, heq⟩ :=
    start_cases sizeBytes mimeType name e t.uploads
  · exact h.of_faded hfaded ((hclock.trans hc).trans hat)
  have hlisted := h.listed.of_faded (faded_expire e.expiry)
  have hone : ∀ now u, oneWeight now u ≤ 1 := by
    intro now u
    unfold oneWeight
    split <;> omega
  have hsize : ∀ now, sizeWeight now (startRow sizeBytes e.now mimeType) ≤ sizeBytes := by
    intro now
    unfold sizeWeight
    split
    · exact le_rfl
    · exact Nat.zero_le _
  rw [hcounts] at hroom hvideos hbytes
  rw [heq]
  refine ⟨hlisted.insert, fun now hnow => ?_, fun now hnow => ?_, ?_⟩
  · have hwane := (wanes_one (hc.trans (hat.trans hnow))).weight_le
      (faded_rfl (s := t.uploads.expire e.expiry))
    have hcounted : (t.uploads.expire e.expiry).weight (oneWeight c) < dailyCount := by
      rw [← length_counted]
      exact Nat.lt_of_sub_pos hvideos
    rw [weight_insert hlisted hrow]
    have := hone now (startRow sizeBytes e.now mimeType)
    omega
  · have hwane := (wanes_size (hc.trans (hat.trans hnow))).weight_le
      (faded_rfl (s := t.uploads.expire e.expiry))
    have hcounted : (t.uploads.expire e.expiry).weight (sizeWeight c) + sizeBytes ≤ dailyBytes := by
      rw [← sum_counted]
      have hroom' : sizeBytes ≤ dailyBytes -
        (((t.uploads.expire e.expiry).counted c).map Upload.sizeBytes).sum := hbytes
      omega
    rw [weight_insert hlisted hrow]
    have := hsize now
    omega
  · rw [weight_insert hlisted hrow, ← openSessions_eq]
    have hle := openSessions_le_counted hopen
    have hnew : openWeight (startRow sizeBytes e.now mimeType) = 1 := rfl
    omega

/-- A start that does not get as far changes nothing. -/
theorem step_of_not_reachesLimits {cidOf : Bytes → String} {s : Uploads} {store sizeBytes : ℕ}
    {mimeType : String} {name : Option ℕ} {e : Starting}
    (h : ¬ s.ReachesLimits store sizeBytes mimeType name) :
    s.step cidOf (.start store sizeBytes mimeType name e) = s := by
  rw [Uploads.step]
  split
  · next hstore =>
    rw [Uploads.start]
    split
    · rfl
    next hpos =>
    split
    · rfl
    next hmax =>
    split
    · rfl
    next hmime =>
    split
    · rfl
    next hname =>
    exact absurd ⟨hstore, hpos, Nat.le_of_not_lt hmax, not_not.mp hmime,
      Bool.eq_false_of_not_eq_true hname⟩ h
  · rfl

theorem inv_initial : Timed.initial.Inv where
  listed := by
    intro id hid
    cases hid
  videos _ _ := Nat.zero_le _
  bytes _ _ := Nat.zero_le _
  isOpen := Nat.zero_le _

theorem Inv.step (h : t.Inv) (hev : t.OnTime ev ∧ t.Admits ev) : (t.step cidOf ev).Inv := by
  obtain ⟨ev, ended⟩ := ev
  obtain ⟨htime, hadmits⟩ := hev
  cases ev with
  | call id expiry c =>
    refine h.of_faded ?_ htime
    rw [Uploads.step]
    split
    · exact faded_rfl.set (rowFades_serve hadmits)
    · split
      · have hcounted : c.CompletesCounted ((t.uploads.expire expiry).jobs id) := by
          cases c <;> trivial
        exact (faded_expire expiry).set
          ((rowFades_expire (expiry id)).trans (rowFades_serve hcounted))
      · exact faded_rfl
  | start store sizeBytes mimeType name e =>
    obtain ⟨hreadings, hnow, hat⟩ := htime
    by_cases hreach : t.uploads.ReachesLimits store sizeBytes mimeType name
    · obtain ⟨c, hcounts, hopen⟩ := hadmits hreach
      rw [Timed.step, Uploads.step, if_pos hreach.1]
      exact h.start hcounts (hreadings c hcounts).1 (hreadings c hcounts).2 hat hopen
    · rw [Timed.step, step_of_not_reachesLimits hreach]
      exact h.of_faded faded_rfl (hnow.trans hat)
  | getStatus store expiry =>
    refine h.of_faded ?_ htime
    rw [Uploads.step]
    split
    · exact faded_expire expiry
    · exact faded_rfl
  | storeOpen store expiry =>
    refine h.of_faded ?_ htime
    rw [Uploads.step, Uploads.storeOpen]
    split
    · exact faded_rfl
    · exact ⟨rfl, fun id => rowFades_reset.trans (rowFades_expire _)⟩
  | storeFree store => exact h.of_faded ⟨rfl, fun _ => rowFades_rfl⟩ htime
  | restart => exact h.of_faded ⟨rfl, fun _ => rowFades_rfl⟩ htime

/-- The quotas hold in every state of every run with a clock that does not go back, in which every
admission is made on counts, no session is open past its time when they are taken, and what a
finish call completes still counts. -/
theorem quotas_kept (cidOf : Bytes → String) (run : List (Event × ℕ))
    (h : Steps (Timed.step cidOf) (fun t ev => t.OnTime ev ∧ t.Admits ev) Timed.initial run) :
    States (Timed.step cidOf) WithinQuotas Timed.initial run :=
  (states_of_steps inv_initial (fun _ _ ht hev => ht.step hev) h).imp fun _ ht => ht.withinQuotas

/-! ## Admissions that are not made on counts -/

/-- A session of 12 bytes is started, with the time that the `SELECT` sees if it is carried out. -/
def startAt (id : String) (counts : Option ℕ) (now : ℕ) : Event × ℕ :=
  (.start 0 12 "video/mp4" none ⟨unexpired, counts, now, some id, true, true, true⟩, now)

/-- The store is opened and the sessions are started. -/
def startsAt (ids : List String) (now : ℕ) : List (Event × ℕ) :=
  (.storeOpen 0 unexpired, now) :: ids.map (startAt · (some now) now)

/-- Four sessions are open, and where the `SELECT` fails a fifth is started. -/
def uncounted : List (Event × ℕ) := startsAt ["a", "b", "c", "d"] 1000 ++ [startAt "e" none 1000]

/-- A session is being finished when its 24 hours are over and four others are started; then its
finish fails and it is open again. -/
def reopened : List (Event × ℕ) :=
  let call (c : Call) : Event × ℕ := (.call "a" unexpired c, 1001)
  let late (c : Call) : Event × ℕ := (.call "a" unexpired c, 87401)
  startsAt ["a"] 1000 ++
    [call (.partBegin 0 0 1 12 ⟨true, true, true, true, true⟩),
      call (.partWrite 0 tinyVideo 12),
      call (.partFinish 0 ⟨true, true, true, true⟩),
      call (.partFree 0 true),
      call (.finish 0 0 ⟨true, true, true⟩)] ++
    ["b", "c", "d", "e"].map (startAt · (some 87400) 87400) ++
    [late (.finishOpen 0 false),
      late (.finishSettle 0 ⟨87401, true, (unexpired "a").removal⟩)]

theorem onTime_uncounted :
    Steps (Timed.step fun _ => "bafkvideo") OnTime Timed.initial uncounted := by
  refine ⟨?_, ?_, ?_, ?_, ?_, ?_, trivial⟩
  all_goals simp [OnTime, startAt, Timed.step, Timed.initial]

theorem onTime_reopened :
    Steps (Timed.step fun _ => "bafkvideo") OnTime Timed.initial reopened := by
  refine ⟨?_, ?_, ?_, ?_, ?_, ?_, ?_, ?_, ?_, ?_, ?_, ?_, ?_, trivial⟩
  all_goals simp [OnTime, startAt, Timed.step, Timed.initial]

/-- With a clock that does not go back, five sessions may be open: where the `SELECT` fails, and
where every `SELECT` is carried out but a session is reopened after its 24 hours. -/
theorem five_sessions_open :
    (Steps (Timed.step fun _ => "bafkvideo") OnTime Timed.initial uncounted ∧
      (exec (Timed.step fun _ => "bafkvideo") Timed.initial uncounted).uploads.openSessions = 5 ∧
      ¬ States (Timed.step fun _ => "bafkvideo") WithinQuotas Timed.initial uncounted) ∧
    Steps (Timed.step fun _ => "bafkvideo") OnTime Timed.initial reopened ∧
      (exec (Timed.step fun _ => "bafkvideo") Timed.initial reopened).uploads.openSessions = 5 ∧
      ¬ States (Timed.step fun _ => "bafkvideo") WithinQuotas Timed.initial reopened := by
  have huncounted : (exec (Timed.step fun _ => "bafkvideo") Timed.initial
      uncounted).uploads.openSessions = 5 := by decide +kernel
  have hreopened : (exec (Timed.step fun _ => "bafkvideo") Timed.initial
      reopened).uploads.openSessions = 5 := by decide +kernel
  refine ⟨⟨onTime_uncounted, huncounted, fun h => ?_⟩, onTime_reopened, hreopened, fun h => ?_⟩
  · have hopen := h.exec.isOpen
    rw [huncounted] at hopen
    exact absurd hopen (by decide)
  · have hopen := h.exec.isOpen
    rw [hreopened] at hopen
    exact absurd hopen (by decide)

/-- Four sessions are started and a fifth is refused; one of them is uploaded and finished, and
the fifth is started. An upload of no bytes is refused before the `SELECT`, which would fail. -/
def severalSessions : List (Event × ℕ) :=
  let call (c : Call) : Event × ℕ := (.call "a" unexpired c, 1001)
  startsAt ["a", "b", "c", "d", "e"] 1000 ++
    [call (.partBegin 0 0 1 12 ⟨true, true, true, true, true⟩),
      call (.partWrite 0 tinyVideo 12),
      call (.partFinish 0 ⟨true, true, true, true⟩),
      call (.partFree 0 true),
      call (.finish 0 0 ⟨true, true, true⟩),
      call (.finishOpen 0 true),
      call (.finishRead 0 .whole true true),
      call (.finishRead 0 .whole true true),
      call (.finishPut 0 .put),
      call (.finishSettle 0 ⟨1001, true, (unexpired "a").removal⟩),
      (.start 0 0 "video/mp4" none ⟨unexpired, none, 1001, some "f", true, true, true⟩, 1001),
      startAt "e" (some 1001) 1001]

theorem onTime_severalSessions :
    Steps (Timed.step fun _ => "bafkvideo") OnTime Timed.initial severalSessions := by
  refine ⟨?_, ?_, ?_, ?_, ?_, ?_, ?_, ?_, ?_, ?_, ?_, ?_, ?_, ?_, ?_, ?_, ?_, ?_, trivial⟩
  all_goals simp [OnTime, startAt, Timed.step, Timed.initial]

/-- On the first day of the clock every upload is within its 24 hours. -/
theorem inWindow_firstDay {now : ℕ} (h : now < 86400) (u : Upload) : u.inWindow now = true :=
  decide_eq_true (h.trans_le (Nat.le_add_left _ _))

theorem admits_severalSessions :
    Steps (Timed.step fun _ => "bafkvideo") Admits Timed.initial severalSessions := by
  have hstart : ∀ (t : Timed) id now, now < 86400 → t.Admits (startAt id (some now) now) :=
    fun t id now hnow _ => ⟨now, rfl, fun _ u _ _ => inWindow_firstDay hnow u⟩
  refine ⟨trivial, hstart _ _ _ (by decide), hstart _ _ _ (by decide), hstart _ _ _ (by decide),
    hstart _ _ _ (by decide), hstart _ _ _ (by decide), trivial, trivial, trivial, trivial, trivial,
    trivial, trivial, trivial, trivial, ?_, ?_, hstart _ _ _ (by decide), trivial⟩
  · intro store v cid hfinish u hrow
    have hcounts : ((exec (Timed.step fun _ => "bafkvideo") Timed.initial
        (severalSessions.take 15)).uploads.jobs "a").row.all Upload.counts = true := by
      decide +kernel
    have hrow' : ((exec (Timed.step fun _ => "bafkvideo") Timed.initial
        (severalSessions.take 15)).uploads.jobs "a").row = some u := hrow
    rwa [hrow', Option.all_some] at hcounts
  · exact fun hreach => absurd rfl hreach.2.1

/-- Several sessions of an account, within its quotas. -/
theorem quotas_kept_several :
    States (Timed.step fun _ => "bafkvideo") WithinQuotas Timed.initial severalSessions ∧
      (exec (Timed.step fun _ => "bafkvideo") Timed.initial
        severalSessions).uploads.openSessions = 4 ∧
      ((exec (Timed.step fun _ => "bafkvideo") Timed.initial
        severalSessions).uploads.jobs "a").row.map Upload.state = some .completed :=
  ⟨quotas_kept _ _ (onTime_severalSessions.and admits_severalSessions), by decide +kernel,
    by decide +kernel⟩

end Timed

end Uploads

end MetalBear.Video
