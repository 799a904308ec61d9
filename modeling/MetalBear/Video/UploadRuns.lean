import MetalBear.Video.Upload

/-!
# Runs of the upload store

Any number of threads call the upload store, one critical section at a time. The calls about one
session are served by its `Job`; the others open and free store objects, start sessions and end
the process. `Job.Sound` is what a session keeps through every run that does not reopen the
database under a store object in use, and in which no rename and no put is left without its row.
-/

namespace MetalBear.Video

namespace Job

/-! ## What the history says -/

/-- The body of a part that was last finished. -/
def lastBody : List Report → ℕ → Option Bytes
  | [], _ => none
  | .partFinished m body :: history, n => if m = n then some body else lastBody history n
  | .published _ _ :: history, n => lastBody history n

/-- The blobs that were published, newest first. -/
def blobs : List Report → List (String × Bytes)
  | [] => []
  | .partFinished _ _ :: history => blobs history
  | .published cid bytes :: history => (cid, bytes) :: blobs history

@[simp] theorem lastBody_published (cid : String) (bytes : Bytes) (h : List Report) (n : ℕ) :
    lastBody (.published cid bytes :: h) n = lastBody h n := rfl

@[simp] theorem blobs_published (cid : String) (bytes : Bytes) (h : List Report) :
    blobs (.published cid bytes :: h) = (cid, bytes) :: blobs h := rfl

@[simp] theorem blobs_partFinished (n : ℕ) (body : Bytes) (h : List Report) :
    blobs (.partFinished n body :: h) = blobs h := rfl

/-- The bytes are those of the first parts, each with the body that was last finished. -/
def Concatenates (history : List Report) (count : ℕ) (bytes : Bytes) : Prop :=
  ∃ bodies : List Bytes,
    (List.range' 1 count).map (lastBody history) = bodies.map some ∧ bytes = bodies.flatten

theorem concatenates_zero (history : List Report) : Concatenates history 0 [] := ⟨[], rfl, rfl⟩

/-- One more part. -/
theorem Concatenates.snoc {history : List Report} {count : ℕ} {bytes body : Bytes}
    (h : Concatenates history count bytes) (hbody : lastBody history (count + 1) = some body) :
    Concatenates history (count + 1) (bytes ++ body) := by
  obtain ⟨bodies, hbodies, rfl⟩ := h
  refine ⟨bodies ++ [body], ?_, by simp⟩
  rw [List.range'_1_concat, List.map_append, hbodies, List.map_append, List.map_singleton,
    List.map_singleton, Nat.add_comm 1 count, hbody]

/-! ## Calls about one session -/

/-- A call about a session, or a step of a call of `metalbear_video_upload_finish` under way. -/
inductive Call where
  | partBegin (store w n contentLength : ℕ) (e : Beginning)
  | partWrite (w : ℕ) (data : Bytes) (taken : ℕ)
  | partFinish (w : ℕ) (e : PartFinishing)
  | partFree (w : ℕ) (erases : Bool)
  | finish (store call : ℕ) (e : Marking)
  | finishOpen (call : ℕ) (opens : Bool)
  | finishRead (call : ℕ) (reading : PartReading) (closes encodes : Bool)
  | finishPut (call : ℕ) (p : Putting)
  | finishSettle (call : ℕ) (e : Settling)
  | finishThrow (call : ℕ) (resets : Bool)
  | abort (store : ℕ) (e : Aborting)

/-- The store object that a call is given. -/
def Call.store : Call → Option ℕ
  | .partBegin store .. => some store
  | .finish store .. => some store
  | .abort store _ => some store
  | _ => none

/-- A call is served. New writers and new calls have their own names. -/
def serve (cidOf : Bytes → String) (j : Job) : Call → Job
  | .partBegin store w n contentLength e =>
    if (j.writers w).isSome then j else (j.partBegin store w n contentLength e).1
  | .partWrite w data taken => (j.partWrite w data taken).1
  | .partFinish w e => (j.partFinish w e).1
  | .partFree w erases => j.partFree w erases
  | .finish store call e => if (j.finishes call).isSome then j else (j.finishMark store call e).1
  | .finishOpen call opens => j.finishOpen call opens
  | .finishRead call reading closes encodes => j.finishRead cidOf call reading closes encodes
  | .finishPut call p => j.finishPut call p
  | .finishSettle call e => j.finishSettle call e
  | .finishThrow call resets => j.finishThrow call resets
  | .abort store e => (j.abort store e).1

/-- The finish call has put its blob and not yet completed its session. -/
def Owes (j : Job) (call : ℕ) : Prop :=
  ∃ f cid, j.finishes call = some f ∧ f.stage = .settled .ok cid

/-- No rename of a part goes without its row, and no put of a blob without the completion. -/
def Call.Recorded (j : Job) : Call → Prop
  | .partFinish _ e => e.renames = true → e.inserts = true
  | .finishPut _ p => p ≠ .stranded
  | .finishSettle call e => j.Owes call → e.updates = true
  | .finishThrow call _ => ¬ j.Owes call
  | _ => True

/-! ## The invariant -/

/-- The blob of a session is published once: the parts in order, of the declared size. -/
def Published (cidOf : Bytes → String) (history : List Report) (u : Upload) (cid : String) : Prop :=
  ∃ bytes, blobs history = [(cid, bytes)] ∧ Concatenates history u.partCount bytes ∧
    bytes.length = u.sizeBytes ∧ cid = cidOf bytes

/-- Writers hold their parts active at a store object that is open, and so do finish calls the
store object; a session that is being finished has no writer. -/
structure Guarded (stores : ℕ → Bool) (j : Job) : Prop where
  held : ∀ call f, j.finishes call = some f → stores f.store = true
  active : ∀ w x, j.writers w = some x → stores x.store = true ∧ x.partNumber ∈ j.active x.store
  unique : ∀ w w' x x', j.writers w = some x → j.writers w' = some x' → x.store = x'.store →
    x.partNumber = x'.partNumber → w = w'
  finishing : ∀ u, j.row = some u → u.state = .finishing → ∀ w, j.writers w = none

/-- What a finish call has reached. -/
def Reached (cidOf : Bytes → String) (j : Job) (u : Upload) : Stage → Prop
  | .marked => True
  | .assembling o part bytes _ => ∃ done, part = done + 1 ∧ done ≤ u.partCount ∧
      Concatenates j.history done bytes ∧ j.assembled = some o ∧ j.outputs[o]? = some bytes
  | .assembled cid => ∃ o bytes, j.assembled = some o ∧ j.outputs[o]? = some bytes ∧
      Concatenates j.history u.partCount bytes ∧ bytes.length = u.sizeBytes ∧ cid = cidOf bytes
  | .settled .ok cid => Published cidOf j.history u cid
  | .settled _ _ => True

/-- Part files hold what was last finished. A finish call is the only one of its session, which is
marked, and it is where it says it is. A blob is published by the call that completes the
session. -/
structure Traced (cidOf : Bytes → String) (j : Job) : Prop where
  final : ∀ n body, j.finals n = some body → lastBody j.history n = some body
  output : ∀ o, j.assembled = some o → o < j.outputs.length
  only : ∀ call call', j.finishes call ≠ none → j.finishes call' ≠ none → call = call'
  marked : ∀ call f, j.finishes call = some f → ∃ u, j.row = some u ∧ u.state = .finishing ∧
    u.sizeBytes = f.status.sizeBytes ∧ u.partCount = f.status.partCount
  reached : ∀ call f, j.finishes call = some f → Reached cidOf j f.status f.stage
  unpublished : (∀ u, j.row = some u → u.state ≠ .completed) → (∀ call, ¬ j.Owes call) →
    blobs j.history = []
  completed : ∀ u, j.row = some u → u.state = .completed →
    ∃ cid, u.cid = some cid ∧ Published cidOf j.history u cid

/-- What every session keeps. -/
structure Sound (cidOf : Bytes → String) (stores : ℕ → Bool) (j : Job) : Prop where
  guarded : Guarded stores j
  traced : Traced cidOf j

/-- The states that a session never leaves. -/
def Terminal : UploadState → Prop
  | .completed | .aborted | .expired => True
  | _ => False

/-- What a step leaves of a session: the state that it never leaves, and its parts while it is
being finished. -/
structure Keeps (before after : Job) : Prop where
  terminal : ∀ u, before.row = some u → Terminal u.state →
    ∃ u', after.row = some u' ∧ u'.state = u.state
  parts : ∀ u, before.row = some u → u.state = .finishing →
    (∀ w, before.writers w = none) ∧ (∀ w, after.writers w = none) ∧
    (∀ n, after.finals n = before.finals n ∨ after.finals n = none) ∧
    ∀ n, lastBody after.history n = lastBody before.history n

variable {cidOf : Bytes → String} {stores : ℕ → Bool} {j : Job} {u : Upload}

/-- A session that is not being finished has no finish call. -/
theorem Traced.no_finish (h : Traced cidOf j) (hrow : j.row = some u)
    (hne : u.state ≠ .finishing) (call : ℕ) : j.finishes call = none := by
  cases hf : j.finishes call with
  | none => rfl
  | some f =>
    obtain ⟨v, hv, hstate, -⟩ := h.marked call f hf
    rw [hrow, Option.some.injEq] at hv
    exact absurd (hv ▸ hstate) hne

/-- A session that is open keeps everything. -/
theorem keeps_of_created {after : Job} (hrow : j.row = some u) (hcreated : u.state = .created) :
    j.Keeps after where
  terminal v hv hterminal := by
    rw [hrow, Option.some.injEq] at hv
    rw [← hv, hcreated] at hterminal
    exact hterminal.elim
  parts v hv hfinishing := by
    rw [hrow, Option.some.injEq] at hv
    rw [← hv, hcreated] at hfinishing
    cases hfinishing

/-- A session that is left as it is keeps everything. -/
theorem Guarded.keeps_rfl (h : Guarded stores j) : j.Keeps j where
  terminal u hu _ := ⟨u, hu, rfl⟩
  parts u hu hfinishing :=
    ⟨h.finishing u hu hfinishing, h.finishing u hu hfinishing, fun _ => .inl rfl, fun _ => rfl⟩

/-! ## Expiry -/

/-- An `UPDATE` whose condition the row does not meet. -/
theorem updateRow_eq_self {p : Upload → Bool} {f : Upload → Upload}
    (h : ∀ u, j.row = some u → p u = false) : j.updateRow p f = j := by
  have hrow : (j.row.map fun u => if p u then f u else u) = j.row := by
    cases hu : j.row with
    | none => rfl
    | some u => rw [Option.map_some, h u hu, if_neg Bool.false_ne_true]
  rw [updateRow, hrow]

/-- Only an open session expires. -/
theorem expire_of_ne_created (e : Expiry) (h : ∀ u, j.row = some u → u.state ≠ .created) :
    j.expire e = j := by
  have hoverdue (now : Option ℕ) (u : Upload) (hu : j.row = some u) : overdue now u = false := by
    simp [overdue, h u hu]
  have hany : j.row.any (overdue e.selected) = false := by
    cases hu : j.row with
    | none => rfl
    | some u => rw [Option.any_some, hoverdue _ u hu]
  simp only [expire, updateRow_eq_self (hoverdue e.updated), hany, Bool.false_eq_true, if_false]

/-- Removing files keeps writers with their store objects and parts. -/
theorem Guarded.removeAll (r : Removal) (h : Guarded stores j) : Guarded stores (j.removeAll r) := by
  have hwriters : ∀ w x, (j.removeAll r).writers w = some x → ∃ y, j.writers w = some y ∧
      y.store = x.store ∧ y.partNumber = x.partNumber := by
    intro w x hx
    obtain ⟨y, hy, rfl⟩ := Option.map_eq_some_iff.mp hx
    refine ⟨y, hy, ?_⟩
    split <;> exact ⟨rfl, rfl⟩
  refine ⟨h.held, fun w x hx => ?_, fun w w' x x' hx hx' hstore hpart => ?_,
    fun u hu hstate w => ?_⟩
  · obtain ⟨y, hy, hstore, hpart⟩ := hwriters w x hx
    rw [← hstore, ← hpart]
    exact h.active w y hy
  · obtain ⟨y, hy, hys, hyp⟩ := hwriters w x hx
    obtain ⟨y', hy', hys', hyp'⟩ := hwriters w' x' hx'
    exact h.unique w w' y y' hy hy' (by rw [hys, hys', hstore]) (by rw [hyp, hyp', hpart])
  · exact Option.map_eq_none_iff.mpr (h.finishing u hu hstate w)

/-- Removing the files of a session that nobody finishes. -/
theorem Traced.removeAll (r : Removal) (h : Traced cidOf j) (hnone : ∀ call, j.finishes call = none) :
    Traced cidOf (j.removeAll r) where
  final n body hbody := by
    simp only [Job.removeAll] at hbody
    split at hbody
    · cases hbody
    · exact h.final n body hbody
  output o ho := by
    simp only [Job.removeAll] at ho
    split at ho
    · cases ho
    · exact h.output o ho
  only := h.only
  marked := h.marked
  reached call f hf := absurd ((hnone call).symm.trans hf) (by simp)
  unpublished := h.unpublished
  completed := h.completed

/-- Nobody finishes, so nobody owes. -/
theorem not_owes (hnone : ∀ call, j.finishes call = none) (call : ℕ) : ¬ j.Owes call := by
  rintro ⟨f, cid, hf, -⟩
  exact absurd ((hnone call).symm.trans hf) (by simp)

/-- Another row for a session that nobody finishes, not to be finished and not completed. -/
theorem Sound.updateRow {p : Upload → Bool} {f : Upload → Upload} (h : Sound cidOf stores j)
    (hnone : ∀ call, j.finishes call = none) (hrow : j.row = some u)
    (hne : u.state ≠ .completed) (hfinishing : (f u).state ≠ .finishing)
    (hcompleted : (f u).state ≠ .completed) : Sound cidOf stores (j.updateRow p f) := by
  have hrow' : (j.updateRow p f).row = some u ∨ (j.updateRow p f).row = some (f u) := by
    simp only [Job.updateRow, hrow, Option.map_some, Option.some.injEq]
    split
    · exact .inr rfl
    · exact .inl rfl
  have hstate : ∀ v, (j.updateRow p f).row = some v → v.state ≠ .completed := by
    intro v hv
    obtain hr | hr := hrow'
    · rw [hr, Option.some.injEq] at hv
      exact hv ▸ hne
    · rw [hr, Option.some.injEq] at hv
      exact hv ▸ hcompleted
  refine ⟨⟨h.guarded.held, h.guarded.active, h.guarded.unique, fun v hv hv' => ?_⟩,
    ⟨h.traced.final, h.traced.output, h.traced.only, fun call g hg => ?_, fun call g hg => ?_,
      fun _ _ => ?_, fun v hv hv' => absurd hv' (hstate v hv)⟩⟩
  · obtain hr | hr := hrow'
    · rw [hr, Option.some.injEq] at hv
      exact h.guarded.finishing u hrow (hv ▸ hv')
    · rw [hr, Option.some.injEq] at hv
      exact absurd (hv ▸ hv') hfinishing
  · exact absurd ((hnone call).symm.trans hg) (by simp)
  · exact absurd ((hnone call).symm.trans hg) (by simp)
  · refine h.traced.unpublished (fun v hv => ?_) (not_owes hnone)
    rw [hrow, Option.some.injEq] at hv
    exact hv ▸ hne

/-- The expiry of a session. -/
theorem Sound.expire (e : Expiry) (h : Sound cidOf stores j) : Sound cidOf stores (j.expire e) := by
  by_cases hcreated : ∃ u, j.row = some u ∧ u.state = .created
  · obtain ⟨u, hrow, hstate⟩ := hcreated
    have hnone := h.traced.no_finish hrow (by rw [hstate]; decide)
    have hupdate := h.updateRow (p := overdue e.updated) (f := ({ · with state := .expired }))
      hnone hrow (by rw [hstate]; decide) nofun nofun
    rw [Job.expire]
    split
    · exact ⟨hupdate.guarded.removeAll _, hupdate.traced.removeAll _ hnone⟩
    · exact hupdate
  · rw [expire_of_ne_created e fun u hu hstate => hcreated ⟨u, hu, hstate⟩]
    exact h

/-- Expiry before a call takes nothing from what the call keeps. -/
theorem Keeps.of_expire {e : Expiry} {after : Job} (h : (j.expire e).Keeps after) :
    j.Keeps after := by
  by_cases hcreated : ∃ u, j.row = some u ∧ u.state = .created
  · obtain ⟨u, hrow, hstate⟩ := hcreated
    exact keeps_of_created hrow hstate
  · rwa [expire_of_ne_created e fun u hu hstate => hcreated ⟨u, hu, hstate⟩] at h

/-- Expiry takes files and gives none, and reports nothing. -/
theorem expire_leaves (e : Expiry) (j : Job) :
    (∀ w, j.writers w = none → (j.expire e).writers w = none) ∧
    (∀ n, (j.expire e).finals n = j.finals n ∨ (j.expire e).finals n = none) ∧
    (j.expire e).history = j.history := by
  rw [Job.expire]
  split
  · refine ⟨fun w hw => Option.map_eq_none_iff.mpr hw, fun n => ?_, rfl⟩
    simp only [Job.removeAll]
    split
    · exact .inr rfl
    · exact .inl rfl
  · exact ⟨fun _ hw => hw, fun _ => .inl rfl, rfl⟩

/-- Expiry after a step takes nothing from what the step kept. -/
theorem Keeps.then_expire {after : Job} (e : Expiry) (h : j.Keeps after) :
    j.Keeps (after.expire e) where
  terminal u hu hterminal := by
    obtain ⟨v, hv, hstate⟩ := h.terminal u hu hterminal
    rw [expire_of_ne_created]
    · exact ⟨v, hv, hstate⟩
    · intro v' hv' hcreated
      rw [hv, Option.some.injEq] at hv'
      rw [← hstate, hv', hcreated] at hterminal
      exact hterminal
  parts u hu hstate := by
    obtain ⟨hbefore, hwriters, hfinals, hbodies⟩ := h.parts u hu hstate
    obtain ⟨hw, hf, hh⟩ := expire_leaves e after
    refine ⟨hbefore, fun w => hw w (hwriters w), fun n => ?_, fun n => by rw [hh, hbodies]⟩
    obtain hn | hn := hf n
    · rw [hn]
      exact hfinals n
    · exact .inr hn

/-! ## Parts -/

theorem loadStatus_eq_some {loads : Bool} (h : j.loadStatus loads = some u) : j.row = some u := by
  rw [loadStatus] at h
  split at h
  · exact h
  · cases h

theorem state_eq_created (h : stateResult u = .ok) : u.state = .created := by
  rw [stateResult] at h
  split at h <;> first | assumption | cases h

/-- What `metalbear_video_upload_part_begin` can do: nothing, or hold a part of an open session
active, with a new writer or without. -/
theorem partBegin_cases (store w n contentLength : ℕ) (e : Beginning) (j : Job) :
    (j.partBegin store w n contentLength e).1 = j ∨
    ∃ u, j.row = some u ∧ u.state = .created ∧ n ∉ j.active store ∧
      ((j.partBegin store w n contentLength e).1 =
        { j with active := Function.update j.active store (n :: j.active store) } ∨
      ∃ x : Writer, x.store = store ∧ x.partNumber = n ∧
        (j.partBegin store w n contentLength e).1 =
          { j with
            active := Function.update j.active store (n :: j.active store)
            writers := Function.update j.writers w (some x) }) := by
  rw [partBegin]
  cases hload : j.loadStatus e.loads with
  | none => exact .inl rfl
  | some u =>
    simp only
    by_cases hok : stateResult u = .ok
    swap
    · rw [if_pos hok]
      exact .inl rfl
    rw [if_neg (not_not.mpr hok)]
    by_cases hrange : n = 0 ∨ u.partCount < n
    · rw [if_pos hrange]
      exact .inl rfl
    rw [if_neg hrange]
    by_cases hlength : contentLength ≠ expectedSize u n
    · rw [if_pos hlength]
      exact .inl rfl
    rw [if_neg hlength]
    by_cases hactive : n ∈ j.active store
    · rw [if_pos hactive]
      exact .inl rfl
    rw [if_neg hactive]
    split
    · exact .inr ⟨u, loadStatus_eq_some hload, state_eq_created hok, hactive, .inl rfl⟩
    split
    · exact .inl rfl
    split
    · exact .inl rfl
    · exact .inr ⟨u, loadStatus_eq_some hload, state_eq_created hok, hactive, .inr ⟨_, rfl, rfl, rfl⟩⟩

/-- The trace does not follow writers. -/
theorem Traced.of_writers (active : ℕ → List ℕ) (writers : ℕ → Option Writer)
    (h : Traced cidOf j) : Traced cidOf { j with active := active, writers := writers } :=
  ⟨h.final, h.output, h.only, h.marked, h.reached, h.unpublished, h.completed⟩

/-- More parts held active. -/
theorem Guarded.activate {store n : ℕ} (h : Guarded stores j) :
    Guarded stores { j with active := Function.update j.active store (n :: j.active store) } where
  held := h.held
  active w x hx := by
    obtain ⟨hopen, hmem⟩ := h.active w x hx
    refine ⟨hopen, ?_⟩
    by_cases hstore : x.store = store
    · subst hstore
      simp only [Function.update_self]
      exact List.mem_cons_of_mem _ hmem
    · simpa only [Function.update_of_ne hstore] using hmem
  unique := h.unique
  finishing := h.finishing

/-- A new writer on an open session, with its part held active. -/
theorem Guarded.begin {store w n : ℕ} {x : Writer} (h : Guarded stores j) (hrow : j.row = some u)
    (hcreated : u.state = .created) (hopen : stores store = true) (hn : n ∉ j.active store)
    (hstore : x.store = store) (hpart : x.partNumber = n) :
    Guarded stores { j with
      active := Function.update j.active store (n :: j.active store)
      writers := Function.update j.writers w (some x) } where
  held := h.held
  active v y hy := by
    by_cases hv : v = w
    · subst hv
      simp only [Function.update_self, Option.some.injEq] at hy
      subst hy
      rw [hstore, hpart]
      refine ⟨hopen, ?_⟩
      simp only [Function.update_self]
      exact List.mem_cons_self
    · simp only [Function.update_of_ne hv] at hy
      exact h.activate.active v y hy
  unique v v' y y' hy hy' hs hp := by
    have hother : ∀ {v y}, v ≠ w → Function.update j.writers w (some x) v = some y →
        y.store = store → y.partNumber ≠ n := by
      intro v y hv hy hys hyp
      rw [Function.update_of_ne hv] at hy
      have := (h.active v y hy).2
      rw [hys, hyp] at this
      exact hn this
    have hself : ∀ {y}, Function.update j.writers w (some x) w = some y →
        y.store = store ∧ y.partNumber = n := by
      intro y hy
      rw [Function.update_self, Option.some.injEq] at hy
      exact hy ▸ ⟨hstore, hpart⟩
    by_cases hv : v = w <;> by_cases hv' : v' = w
    · rw [hv, hv']
    · subst hv
      obtain ⟨hys, hyp⟩ := hself hy
      exact absurd (hp.symm.trans hyp) (hother hv' hy' (hs.symm.trans hys))
    · subst hv'
      obtain ⟨hys, hyp⟩ := hself hy'
      exact absurd (hp.trans hyp) (hother hv hy (hs.trans hys))
    · simp only [Function.update_of_ne hv] at hy
      simp only [Function.update_of_ne hv'] at hy'
      exact h.unique v v' y y' hy hy' hs hp
  finishing v hv hstate := by
    rw [hrow, Option.some.injEq] at hv
    rw [← hv, hcreated] at hstate
    cases hstate

theorem Sound.partBegin {store w n contentLength : ℕ} {e : Beginning}
    (h : Sound cidOf stores j) (hopen : stores store = true) :
    Sound cidOf stores (j.partBegin store w n contentLength e).1 ∧
      j.Keeps (j.partBegin store w n contentLength e).1 := by
  obtain heq | ⟨u, hrow, hstate, hn, heq | ⟨x, hstore, hpart, heq⟩⟩ :=
    partBegin_cases store w n contentLength e j
  · rw [heq]
    exact ⟨h, h.guarded.keeps_rfl⟩
  · rw [heq]
    exact ⟨⟨h.guarded.activate, h.traced.of_writers _ _⟩, keeps_of_created hrow hstate⟩
  · rw [heq]
    exact ⟨⟨h.guarded.begin hrow hstate hopen hn hstore hpart, h.traced.of_writers _ _⟩,
      keeps_of_created hrow hstate⟩

/-- A writer goes on with the same part at the same store object. -/
theorem Guarded.rewrite {w : ℕ} {x y : Writer} (h : Guarded stores j) (hx : j.writers w = some x)
    (hstore : y.store = x.store) (hpart : y.partNumber = x.partNumber) :
    Guarded stores { j with writers := Function.update j.writers w (some y) } := by
  have hwriters : ∀ v z, Function.update j.writers w (some y) v = some z →
      ∃ z', j.writers v = some z' ∧ z'.store = z.store ∧ z'.partNumber = z.partNumber := by
    intro v z hz
    by_cases hv : v = w
    · subst hv
      rw [Function.update_self, Option.some.injEq] at hz
      subst hz
      exact ⟨x, hx, hstore.symm, hpart.symm⟩
    · rw [Function.update_of_ne hv] at hz
      exact ⟨z, hz, rfl, rfl⟩
  refine ⟨h.held, fun v z hz => ?_, fun v v' z z' hz hz' hs hp => ?_, fun u hu hstate v => ?_⟩
  · obtain ⟨z', hz', hs, hp⟩ := hwriters v z hz
    rw [← hs, ← hp]
    exact h.active v z' hz'
  · obtain ⟨t, ht, hts, htp⟩ := hwriters v z hz
    obtain ⟨t', ht', hts', htp'⟩ := hwriters v' z' hz'
    exact h.unique v v' t t' ht ht' (by rw [hts, hts', hs]) (by rw [htp, htp', hp])
  · rw [h.finishing u hu hstate w] at hx
    cases hx

/-- A call of a writer leaves rows, part files and history alone. -/
theorem Sound.rewrite {w : ℕ} {x y : Writer} (h : Sound cidOf stores j) (hx : j.writers w = some x)
    (hstore : y.store = x.store) (hpart : y.partNumber = x.partNumber) :
    Sound cidOf stores { j with writers := Function.update j.writers w (some y) } ∧
      j.Keeps { j with writers := Function.update j.writers w (some y) } := by
  refine ⟨⟨h.guarded.rewrite hx hstore hpart, h.traced.of_writers _ _⟩,
    ⟨fun u hu _ => ⟨u, hu, rfl⟩, fun u hu hstate => ?_⟩⟩
  rw [h.guarded.finishing u hu hstate w] at hx
  cases hx

theorem Sound.partWrite {w : ℕ} {data : Bytes} {taken : ℕ} (h : Sound cidOf stores j) :
    Sound cidOf stores (j.partWrite w data taken).1 ∧ j.Keeps (j.partWrite w data taken).1 := by
  rw [Job.partWrite]
  cases hx : j.writers w with
  | none => exact ⟨h, h.guarded.keeps_rfl⟩
  | some x =>
    simp only
    split
    · exact ⟨h, h.guarded.keeps_rfl⟩
    split
    · exact ⟨h, h.guarded.keeps_rfl⟩
    split
    · exact h.rewrite hx rfl rfl
    · exact h.rewrite hx rfl rfl

/-- A rename with its row: the part file and the history tell of the same body. -/
theorem Sound.commit {w : ℕ} {x y : Writer} {parts : List (ℕ × ℕ)} (h : Sound cidOf stores j)
    (hrow : j.row = some u) (hcreated : u.state = .created) (hx : j.writers w = some x)
    (hstore : y.store = x.store) (hpart : y.partNumber = x.partNumber) :
    Sound cidOf stores { j with
      finals := Function.update j.finals x.partNumber (some x.body)
      writers := Function.update j.writers w (some y)
      parts := parts
      history := .partFinished x.partNumber x.body :: j.history } := by
  have hnone := h.traced.no_finish hrow (by rw [hcreated]; decide)
  have hguarded := h.guarded.rewrite hx hstore hpart
  refine ⟨⟨hguarded.held, hguarded.active, hguarded.unique, hguarded.finishing⟩,
    ⟨fun n body hbody => ?_, h.traced.output, h.traced.only, h.traced.marked, fun call f hf => ?_,
      h.traced.unpublished, fun v hv hstate => ?_⟩⟩
  · rw [lastBody]
    by_cases hn : x.partNumber = n
    · subst hn
      rw [if_pos rfl]
      simpa only [Function.update_self] using hbody
    · rw [if_neg hn]
      simp only [Function.update_of_ne (Ne.symm hn)] at hbody
      exact h.traced.final n body hbody
  · exact absurd ((hnone call).symm.trans hf) (by simp)
  · rw [show j.row = some v from hv, Option.some.injEq] at hrow
    rw [hrow, hcreated] at hstate
    cases hstate

theorem Sound.partCommit {w : ℕ} {x : Writer} {e : PartFinishing} (h : Sound cidOf stores j)
    (hx : j.writers w = some x) (hrecorded : e.renames = true → e.inserts = true) :
    Sound cidOf stores (j.partCommit w x e).1 ∧ j.Keeps (j.partCommit w x e).1 := by
  rw [Job.partCommit]
  cases hload : j.loadStatus e.loads with
  | none => exact ⟨h, h.guarded.keeps_rfl⟩
  | some u =>
    simp only
    by_cases hok : stateResult u = .ok
    swap
    · rw [if_pos hok]
      exact ⟨h, h.guarded.keeps_rfl⟩
    rw [if_neg (not_not.mpr hok)]
    have hrow := loadStatus_eq_some hload
    have hcreated := state_eq_created hok
    by_cases hmoves : e.renames = true ∧ x.temporary = true
    · rw [if_neg (by simp [hmoves.1, hmoves.2]), if_neg (by simp [hrecorded hmoves.1])]
      exact ⟨h.commit hrow hcreated hx rfl rfl, keeps_of_created hrow hcreated⟩
    · rw [if_pos (by simpa [Classical.or_iff_not_imp_left] using hmoves)]
      exact ⟨h, h.guarded.keeps_rfl⟩

/-- Two steps of one call, the first of which leaves the rows, the part files and the history. -/
theorem Keeps.trans_of_eq {mid after : Job} (h : j.Keeps mid) (h' : mid.Keeps after)
    (hrow : mid.row = j.row) (hfinals : mid.finals = j.finals) (hhistory : mid.history = j.history) :
    j.Keeps after where
  terminal u hu := h'.terminal u (hrow.trans hu)
  parts u hu hstate := by
    obtain ⟨-, hw, hf, hb⟩ := h'.parts u (hrow.trans hu) hstate
    rw [hfinals] at hf
    rw [hhistory] at hb
    exact ⟨(h.parts u hu hstate).1, hw, hf, hb⟩

theorem Sound.partFinish {w : ℕ} {e : PartFinishing} (h : Sound cidOf stores j)
    (hrecorded : e.renames = true → e.inserts = true) :
    Sound cidOf stores (j.partFinish w e).1 ∧ j.Keeps (j.partFinish w e).1 := by
  rw [Job.partFinish]
  cases hx : j.writers w with
  | none => exact ⟨h, h.guarded.keeps_rfl⟩
  | some x =>
    simp only
    split
    · exact ⟨h, h.guarded.keeps_rfl⟩
    split
    · exact ⟨h, h.guarded.keeps_rfl⟩
    obtain ⟨hclosed, hkeeps⟩ := h.rewrite (y := { x with isOpen := false }) hx rfl rfl
    split
    · exact ⟨hclosed, hkeeps⟩
    · obtain ⟨hsound, hkeeps'⟩ := hclosed.partCommit (Function.update_self ..) hrecorded
      exact ⟨hsound, hkeeps.trans_of_eq hkeeps' rfl rfl rfl⟩

/-- A part that is freed is no longer held active, and no other writer has it. -/
theorem Guarded.release {w : ℕ} {x : Writer} (h : Guarded stores j) (hx : j.writers w = some x)
    (erases : Bool) :
    Guarded stores { j with
      writers := Function.update j.writers w none
      active := if erases then
        Function.update j.active x.store ((j.active x.store).filter (· ≠ x.partNumber))
      else j.active } := by
  have hwriters : ∀ v y, Function.update j.writers w none v = some y →
      v ≠ w ∧ j.writers v = some y := by
    intro v y hy
    by_cases hv : v = w
    · subst hv
      rw [Function.update_self] at hy
      cases hy
    · rw [Function.update_of_ne hv] at hy
      exact ⟨hv, hy⟩
  refine ⟨h.held, fun v y hy => ?_, fun v v' y y' hy hy' => ?_, fun u hu hstate v => ?_⟩
  · obtain ⟨hv, hv'⟩ := hwriters v y hy
    obtain ⟨hopen, hmem⟩ := h.active v y hv'
    refine ⟨hopen, ?_⟩
    cases erases with
    | false => exact hmem
    | true =>
      simp only [if_true]
      by_cases hstore : y.store = x.store
      · rw [hstore, Function.update_self]
        refine List.mem_filter.mpr ⟨hstore ▸ hmem, decide_eq_true fun hpart => hv ?_⟩
        exact h.unique v w y x hv' hx hstore hpart
      · rw [Function.update_of_ne hstore]
        exact hmem
  · exact h.unique v v' y y' (hwriters v y hy).2 (hwriters v' y' hy').2
  · rw [h.finishing u hu hstate w] at hx
    cases hx

theorem Sound.partFree {w : ℕ} {erases : Bool} (h : Sound cidOf stores j) :
    Sound cidOf stores (j.partFree w erases) ∧ j.Keeps (j.partFree w erases) := by
  rw [Job.partFree]
  cases hx : j.writers w with
  | none => exact ⟨h, h.guarded.keeps_rfl⟩
  | some x =>
    refine ⟨⟨h.guarded.release hx erases, h.traced.of_writers _ _⟩,
      ⟨fun u hu _ => ⟨u, hu, rfl⟩, fun u hu hstate => ?_⟩⟩
    rw [h.guarded.finishing u hu hstate w] at hx
    cases hx

end Job

end MetalBear.Video
