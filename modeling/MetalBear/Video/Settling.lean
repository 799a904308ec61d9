import MetalBear.Video.Completion

/-!
# How a finish ends

A call of `metalbear_video_upload_finish` marks its session and takes the mark away in its last
statement: the `UPDATE` of its second critical section, or that of its exception handler. Nothing
touches the row or the parts of the session in between, so the session is open again with its parts,
or over, exactly when that statement is carried out.
-/

namespace MetalBear.Video

open Machine

namespace Job

variable {cidOf : Bytes → String} {j : Job} {call : ℕ} {c : Call}

/-- The states of a session that is over. -/
def Over : UploadState → Prop
  | .completed | .failed | .aborted | .expired => True
  | _ => False

/-- After a finish call the session is open, with the parts that it had when it was marked, or
over. -/
def Settled (marked after : Job) : Prop :=
  ∃ u, after.row = some u ∧
    (u.state = .created ∧ after.parts = marked.parts ∧ after.finals = marked.finals ∨ Over u.state)

/-- A step in which a finish call returns, and whether its last statement is carried out. -/
inductive Returns (j : Job) (call : ℕ) : Call → Bool → Prop
  | settle (store : ℕ) (u : Upload) (result : UploadResult) (cid : String) (e : Settling)
      (h : j.finishes call = some ⟨store, u, .settled result cid⟩) :
      Returns j call (.finishSettle call e) e.updates
  | throw (f : Finish) (resets : Bool) (h : j.finishes call = some f) :
      Returns j call (.finishThrow call resets) resets

/-- A session is marked while a finish call is under way, and there is one at most. -/
structure Marked (j : Job) : Prop where
  finishing : ∀ call, j.finishes call ≠ none → ∃ u, j.row = some u ∧ u.state = .finishing
  only : ∀ call call', j.finishes call ≠ none → j.finishes call' ≠ none → call = call'

/-- What stays of a session that is being finished. -/
structure SameParts (before after : Job) : Prop where
  row : after.row = before.row
  parts : after.parts = before.parts
  finals : after.finals = before.finals

theorem SameParts.rfl : SameParts j j := ⟨Eq.refl _, Eq.refl _, Eq.refl _⟩

theorem SameParts.trans {k l : Job} (h : SameParts j k) (h' : SameParts k l) : SameParts j l :=
  ⟨h'.row.trans h.row, h'.parts.trans h.parts, h'.finals.trans h.finals⟩

theorem marked_of_idle (h : ∀ call, j.finishes call = none) : Marked j :=
  ⟨fun call hne => absurd (h call) hne, fun call _ hne => absurd (h call) hne⟩

/-! ## Expiry -/

theorem expire_finishes (e : Expiry) (j : Job) : (j.expire e).finishes = j.finishes := by
  rw [Job.expire]
  split <;> rfl

/-- A session that is being finished does not expire. -/
theorem Marked.expire_eq (h : Marked j) (e : Expiry) (hway : j.finishes call ≠ none) :
    j.expire e = j := by
  obtain ⟨u, hrow, hstate⟩ := h.finishing call hway
  refine expire_of_ne_created e fun v hv => ?_
  rw [hrow, Option.some.injEq] at hv
  rw [← hv, hstate]
  decide

theorem Marked.expire (h : Marked j) (e : Expiry) : Marked (j.expire e) := by
  by_cases hidle : ∀ call, j.finishes call = none
  · exact marked_of_idle fun call => by rw [expire_finishes, hidle]
  · obtain ⟨call, hway⟩ := not_forall.mp hidle
    rw [h.expire_eq e hway]
    exact h

/-! ## Calls about the session -/

/-- The finish calls of a session after a call that begins none. -/
theorem serve_finishes (hc : ∀ store call e, c ≠ .finish store call e) (k : ℕ)
    (hk : (j.serve cidOf c).finishes k ≠ none) : j.finishes k ≠ none := by
  have hupdate : ∀ {i : ℕ} {f : Finish} {g : Option Finish}, j.finishes i = some f →
      Function.update j.finishes i g k ≠ none → j.finishes k ≠ none := by
    intro i f g hf hne
    by_cases hki : k = i
    · rw [hki, hf]
      exact Option.some_ne_none f
    · rwa [Function.update_of_ne hki] at hne
  cases c with
  | partBegin store w n contentLength e =>
    revert hk
    simp only [serve, partBegin]
    split
    · exact id
    · cases j.loadStatus e.loads with
      | none => exact id
      | some u =>
        dsimp only
        repeat' split
        all_goals exact id
  | partWrite w data taken =>
    revert hk
    simp only [serve, partWrite]
    cases j.writers w with
    | none => exact id
    | some x =>
      dsimp only
      repeat' split
      all_goals exact id
  | partFinish w e =>
    revert hk
    simp only [serve, partFinish, partCommit, loadStatus]
    cases j.writers w with
    | none => exact id
    | some x =>
      dsimp only
      repeat' split
      all_goals exact id
  | partFree w erases =>
    revert hk
    simp only [serve, partFree]
    cases j.writers w with
    | none => exact id
    | some x => exact id
  | finish store call e => exact absurd rfl (hc store call e)
  | finishOpen call opens =>
    revert hk
    simp only [serve, finishOpen]
    split
    · next hf =>
      repeat' split
      all_goals exact hupdate hf
    · exact id
  | finishRead call reading closes encodes =>
    revert hk
    simp only [serve, finishRead, finishClose]
    split
    · next hf =>
      repeat' split
      all_goals exact hupdate hf
    · exact id
  | finishPut call p =>
    revert hk
    simp only [serve, finishPut]
    split
    · next hf =>
      repeat' split
      all_goals exact hupdate hf
    · exact id
  | finishSettle call e =>
    revert hk
    simp only [serve, finishSettle]
    split
    · next hf =>
      repeat' split
      all_goals exact hupdate hf
    · exact id
  | finishThrow call resets =>
    revert hk
    simp only [serve, finishThrow]
    cases hf : j.finishes call with
    | none => exact id
    | some f =>
      dsimp only
      split
      all_goals exact hupdate hf
  | abort store e =>
    revert hk
    simp only [serve, abort]
    cases j.loadStatus e.loads with
    | none => exact id
    | some u =>
      dsimp only
      repeat' split
      all_goals exact id

/-! ### Calls about a session that is being finished -/

section SameParts

theorem sameParts_partWrite {w : ℕ} {data : Bytes} {taken : ℕ} :
    SameParts j (j.serve cidOf (.partWrite w data taken)) := by
  simp only [serve, partWrite]
  cases j.writers w with
  | none => exact .rfl
  | some x =>
    dsimp only
    repeat' split
    all_goals exact ⟨rfl, rfl, rfl⟩

theorem sameParts_partFree {w : ℕ} {erases : Bool} :
    SameParts j (j.serve cidOf (.partFree w erases)) := by
  simp only [serve, partFree]
  cases j.writers w with
  | none => exact .rfl
  | some x => exact ⟨rfl, rfl, rfl⟩

theorem sameParts_finishOpen {i : ℕ} {opens : Bool} :
    SameParts j (j.serve cidOf (.finishOpen i opens)) := by
  simp only [serve, finishOpen]
  split
  · repeat' split
    all_goals exact ⟨rfl, rfl, rfl⟩
  · exact .rfl

theorem sameParts_finishRead {i : ℕ} {reading : PartReading} {closes encodes : Bool} :
    SameParts j (j.serve cidOf (.finishRead i reading closes encodes)) := by
  simp only [serve, finishRead, finishClose]
  split
  · repeat' split
    all_goals exact ⟨rfl, rfl, rfl⟩
  · exact .rfl

theorem sameParts_finishPut {i : ℕ} {p : Putting} :
    SameParts j (j.serve cidOf (.finishPut i p)) := by
  simp only [serve, finishPut]
  split
  · repeat' split
    all_goals exact ⟨rfl, rfl, rfl⟩
  · exact .rfl

variable {u : Upload} (hrow : j.row = some u) (hstate : u.state = .finishing)

include hrow

theorem eq_of_loadStatus {loads : Bool} {v : Upload} (hv : j.loadStatus loads = some v) : v = u :=
  Option.some.inj ((loadStatus_eq_some hv).symm.trans hrow)

include hstate

/-- A session that is being finished takes no part. -/
theorem sameParts_partBegin {store w n contentLength : ℕ} {e : Beginning} :
    SameParts j (j.serve cidOf (.partBegin store w n contentLength e)) := by
  have hnotReady : stateResult u ≠ .ok := by
    rw [stateResult, hstate]
    decide
  simp only [serve, partBegin]
  split
  · exact .rfl
  · cases hv : j.loadStatus e.loads with
    | none => exact .rfl
    | some v =>
      obtain rfl := eq_of_loadStatus hrow hv
      dsimp only
      rw [if_pos hnotReady]
      exact .rfl

theorem sameParts_partFinish {w : ℕ} {e : PartFinishing} :
    SameParts j (j.serve cidOf (.partFinish w e)) := by
  have hnotReady : stateResult u ≠ .ok := by
    rw [stateResult, hstate]
    decide
  simp only [serve, partFinish]
  cases j.writers w with
  | none => exact .rfl
  | some x =>
    dsimp only
    split
    · exact .rfl
    split
    · exact .rfl
    split
    · exact ⟨rfl, rfl, rfl⟩
    rw [partCommit]
    split
    · exact ⟨rfl, rfl, rfl⟩
    · next v hv =>
      have hvu : v = u := eq_of_loadStatus hrow hv
      rw [hvu, if_pos hnotReady]
      exact ⟨rfl, rfl, rfl⟩

/-- It is not marked again. -/
theorem sameParts_finish {store i : ℕ} {e : Marking} :
    SameParts j (j.serve cidOf (.finish store i e)) := by
  simp only [serve]
  split
  · exact .rfl
  · obtain heq | ⟨v, hv, hcreated, -⟩ := finishMark_cases store i e j
    · rw [heq]
      exact .rfl
    · rw [hrow, Option.some.injEq] at hv
      rw [← hv, hstate] at hcreated
      cases hcreated

theorem sameParts_abort {store : ℕ} {e : Aborting} :
    SameParts j (j.serve cidOf (.abort store e)) := by
  simp only [serve, abort]
  cases hv : j.loadStatus e.loads with
  | none => exact .rfl
  | some v =>
    obtain rfl := eq_of_loadStatus hrow hv
    dsimp only
    rw [if_pos (.inl hstate)]
    exact .rfl

end SameParts

/-- A finish call that returns is not under way any more. -/
theorem serve_finishSettle {i : ℕ} {e : Settling} :
    SameParts j (j.serve cidOf (.finishSettle i e)) ∨
      j.finishes i ≠ none ∧
        (j.serve cidOf (.finishSettle i e)).finishes = Function.update j.finishes i none := by
  simp only [serve, finishSettle]
  split
  · next hf =>
    refine .inr ⟨by simp [hf], ?_⟩
    repeat' split
    all_goals rfl
  · exact .inl .rfl

theorem serve_finishThrow {i : ℕ} {resets : Bool} :
    SameParts j (j.serve cidOf (.finishThrow i resets)) ∨
      j.finishes i ≠ none ∧
        (j.serve cidOf (.finishThrow i resets)).finishes = Function.update j.finishes i none := by
  simp only [serve, finishThrow]
  cases hf : j.finishes i with
  | none => exact .inl .rfl
  | some f =>
    refine .inr ⟨by simp, ?_⟩
    dsimp only
    split
    all_goals rfl

/-- While a finish call goes on, no call touches the row or the parts of its session. -/
theorem Marked.serve_sameParts (h : Marked j) (hway : j.finishes call ≠ none)
    (hafter : (j.serve cidOf c).finishes call ≠ none) : SameParts j (j.serve cidOf c) := by
  obtain ⟨u, hrow, hstate⟩ := h.finishing call hway
  -- Another finish call is not under way, and this one goes on.
  have hreturned : ∀ i, j.finishes i ≠ none →
      (j.serve cidOf c).finishes ≠ Function.update j.finishes i none := by
    intro i hi hnone
    obtain rfl := h.only i call hi hway
    rw [hnone, Function.update_self] at hafter
    exact hafter rfl
  cases c with
  | partBegin store w n contentLength e => exact sameParts_partBegin hrow hstate
  | partWrite w data taken => exact sameParts_partWrite
  | partFinish w e => exact sameParts_partFinish hrow hstate
  | partFree w erases => exact sameParts_partFree
  | finish store i e => exact sameParts_finish hrow hstate
  | finishOpen i opens => exact sameParts_finishOpen
  | finishRead i reading closes encodes => exact sameParts_finishRead
  | finishPut i p => exact sameParts_finishPut
  | finishSettle i e =>
    obtain hsame | ⟨hi, hnone⟩ := serve_finishSettle
    · exact hsame
    · exact absurd hnone (hreturned i hi)
  | finishThrow i resets =>
    obtain hsame | ⟨hi, hnone⟩ := serve_finishThrow
    · exact hsame
    · exact absurd hnone (hreturned i hi)
  | abort store e => exact sameParts_abort hrow hstate

/-- A call about a session keeps the mark to the finish call. -/
theorem Marked.serve (h : Marked j) : Marked (j.serve cidOf c) := by
  by_cases hc : ∃ store i e, c = .finish store i e
  · obtain ⟨store, i, e, rfl⟩ := hc
    simp only [Job.serve]
    split
    · exact h
    obtain heq | ⟨u, hrow, hcreated, -, heq⟩ := finishMark_cases store i e j
    · rw [heq]
      exact h
    have hidle : ∀ k, j.finishes k = none := by
      intro k
      by_contra hk
      obtain ⟨v, hv, hstate⟩ := h.finishing k hk
      rw [hrow, Option.some.injEq] at hv
      rw [← hv, hcreated] at hstate
      cases hstate
    have halone : ∀ k, j.finishes k ≠ none → k = i := fun k hk => absurd (hidle k) hk
    rw [heq]
    refine ⟨fun k _ => ⟨{ u with state := .finishing }, ?_, rfl⟩,
      fun k k' hk hk' => update_only halone hk hk'⟩
    simp [Job.updateRow, hrow, hcreated]
  · have hfinishes : ∀ k, (j.serve cidOf c).finishes k ≠ none → j.finishes k ≠ none :=
      serve_finishes fun store i e hc' => hc ⟨store, i, e, hc'⟩
    refine ⟨fun k hk => ?_, fun k k' hk hk' => h.only k k' (hfinishes k hk) (hfinishes k' hk')⟩
    rw [(h.serve_sameParts (hfinishes k hk) hk).row]
    exact h.finishing k (hfinishes k hk)

/-- A finish call that returns settles its session if and only if its last statement is carried
out. -/
theorem Marked.settled_iff (h : Marked j) {marked : Job} (hsame : SameParts marked j)
    {carried : Bool} (hret : j.Returns call c carried) :
    Settled marked (j.serve cidOf c) ↔ carried = true := by
  have hstuck : ∀ k : Job, k.row = j.row → (∃ f, j.finishes call = some f) →
      ¬ Settled marked k := by
    rintro k hk ⟨f, hf⟩ ⟨u, hu, hsettled⟩
    obtain ⟨v, hv, hstate⟩ := h.finishing call (by simp [hf])
    rw [hk, hv, Option.some.injEq] at hu
    rw [← hu, hstate] at hsettled
    obtain ⟨hcreated, -⟩ | hover := hsettled
    · cases hcreated
    · exact hover
  have hopen : ∀ k : Job, (∃ f, j.finishes call = some f) →
      k.row = (j.updateRow (·.state = .finishing) ({ · with state := .created })).row →
      k.parts = j.parts → k.finals = j.finals → Settled marked k := by
    rintro k ⟨f, hf⟩ hk hparts hfinals
    obtain ⟨v, hv, hstate⟩ := h.finishing call (by simp [hf])
    refine ⟨{ v with state := .created }, ?_, .inl ⟨rfl, ?_, ?_⟩⟩
    · rw [hk]
      simp [Job.updateRow, hv, hstate]
    · rw [hparts, hsame.parts]
    · rw [hfinals, hsame.finals]
  have hover : ∀ (k : Job) (g : Upload → Upload), (∃ f, j.finishes call = some f) →
      k.row = (j.updateRow (fun _ => true) g).row → (∀ v, Over (g v).state) → Settled marked k := by
    rintro k g ⟨f, hf⟩ hk hg
    obtain ⟨v, hv, -⟩ := h.finishing call (by simp [hf])
    refine ⟨g v, ?_, .inr (hg v)⟩
    rw [hk]
    simp [Job.updateRow, hv]
  cases hret with
  | settle store u result cid e hf =>
    simp only [Job.serve, finishSettle, hf]
    cases he : e.updates with
    | false => exact iff_of_false (hstuck _ rfl ⟨_, hf⟩) (by decide)
    | true =>
      refine iff_of_true ?_ rfl
      rw [if_neg (by decide)]
      split
      · exact hover _ _ ⟨_, hf⟩ rfl fun _ => trivial
      · exact hover _ _ ⟨_, hf⟩ rfl fun _ => trivial
      · exact hopen _ ⟨_, hf⟩ rfl rfl rfl
  | throw f resets hf =>
    simp only [Job.serve, finishThrow, hf]
    cases carried with
    | false => exact iff_of_false (hstuck _ rfl ⟨_, hf⟩) (by decide)
    | true => exact iff_of_true (hopen _ ⟨_, hf⟩ rfl rfl rfl) rfl

end Job

namespace Uploads

open Job

variable {cidOf : Bytes → String} {s : Uploads} {ev : Event} {id : String} {call : ℕ}

/-- No store object is opened while a finish call is under way. -/
def OpensIdle (s : Uploads) : Event → Prop
  | .storeOpen _ _ => ∀ id call, (s.jobs id).finishes call = none
  | _ => True

/-- The finish call of this session is under way. -/
def UnderWay (id : String) (call : ℕ) (s : Uploads) : Prop := (s.jobs id).finishes call ≠ none

/-! ## What an event does to a session -/

/-- A session as it was or as the expiry left it. -/
def Expires (j j' : Job) : Prop := j' = j ∨ ∃ e, j' = j.expire e

/-- What an event can do to a session: leave nobody finishing it, or, after an expiry, leave it
alone, serve a call about it, give it its row or change what is active. -/
inductive Becomes (cidOf : Bytes → String) (j k : Job) : Prop
  | idle (h : ∀ call, k.finishes call = none)
  | same (h : Expires j k)
  | served (j' : Job) (c : Call) (h : Expires j j') (heq : k = j'.serve cidOf c)
  | inserted (j' : Job) (u : Upload) (d : Bool) (h : Expires j j') (hrow : j'.row = none)
      (heq : k = { j' with row := some u, directory := d })
  | activated (a : ℕ → List ℕ) (heq : k = { j with active := a })

theorem expires_expire (e : String → Expiry) : Expires (s.jobs id) ((s.expire e).jobs id) :=
  .inr ⟨e id, rfl⟩

theorem becomes_set {id' : String} {j' : Job} {c : Call} {t : Uploads}
    (ht : ∀ id, Expires (s.jobs id) (t.jobs id)) (hj : j' = (t.jobs id').serve cidOf c) :
    Becomes cidOf (s.jobs id) ((t.set id' j').jobs id) := by
  by_cases hid : id = id'
  · subst hid
    exact .served _ c (ht id) (by simp only [Uploads.set, Function.update_self, hj])
  · exact .same (by simpa only [Uploads.set, Function.update_of_ne hid] using ht id)

theorem becomes_insertSession {id' : String} {u : Upload} {e : Starting} {t : Uploads}
    (ht : Expires (s.jobs id) (t.jobs id)) :
    Becomes cidOf (s.jobs id) ((t.insertSession id' u e).1.jobs id) := by
  rw [Uploads.insertSession]
  split
  · exact .same ht
  next hrow =>
  simp only [Bool.or_eq_true, not_or, Option.isSome_iff_ne_none, not_not] at hrow
  have hset : ∀ d, Becomes cidOf (s.jobs id)
      ((t.set id' { t.jobs id' with row := some u, directory := d }).jobs id) := by
    intro d
    by_cases hid : id = id'
    · subst hid
      exact .inserted _ u d ht hrow.2 (by simp only [Uploads.set, Function.update_self])
    · exact .same (by simpa only [Uploads.set, Function.update_of_ne hid] using ht)
  split
  · exact hset true
  split
  · exact .same ht
  · exact hset (t.jobs id').directory

theorem becomes_start {sizeBytes : ℕ} {mimeType : String} {name : Option ℕ} {e : Starting} :
    Becomes cidOf (s.jobs id) ((s.start sizeBytes mimeType name e).1.jobs id) := by
  rw [Uploads.start]
  split
  · exact .same (.inl rfl)
  split
  · exact .same (.inl rfl)
  split
  · exact .same (.inl rfl)
  split
  · exact .same (.inl rfl)
  dsimp only
  split
  · exact .same (expires_expire _)
  split
  · exact .same (expires_expire _)
  split
  · exact .same (expires_expire _)
  · exact becomes_insertSession (expires_expire _)

theorem becomes_step (hev : s.OpensIdle ev) :
    Becomes cidOf (s.jobs id) ((s.step cidOf ev).jobs id) := by
  cases ev with
  | call id' expiry c =>
    rw [Uploads.step]
    split
    · exact becomes_set (fun _ => .inl rfl) rfl
    · split
      · exact becomes_set (fun _ => expires_expire expiry) rfl
      · exact .same (.inl rfl)
  | start store sizeBytes mimeType name e =>
    rw [Uploads.step]
    split
    · exact becomes_start
    · exact .same (.inl rfl)
  | getStatus store expiry =>
    rw [Uploads.step]
    split
    · exact .same (expires_expire expiry)
    · exact .same (.inl rfl)
  | storeOpen store expiry =>
    refine .idle fun call => ?_
    rw [Uploads.step, Uploads.storeOpen]
    split
    · exact hev id call
    · rw [Uploads.expire, expire_finishes]
      exact hev id call
  | storeFree store => exact .activated _ rfl
  | restart => exact .idle fun _ => rfl

theorem Marked.expires {j j' : Job} (h : j.Marked) (he : Expires j j') : j'.Marked := by
  obtain rfl | ⟨e, rfl⟩ := he
  · exact h
  · exact h.expire e

/-- A session that is being finished does not expire. -/
theorem Marked.expires_eq {j j' : Job} (h : j.Marked) (he : Expires j j')
    (hway : j.finishes call ≠ none) : j' = j := by
  obtain rfl | ⟨e, rfl⟩ := he
  · rfl
  · exact h.expire_eq e hway

/-- No event takes the mark from a session that is being finished. -/
theorem marked_of_becomes {j k : Job} (h : j.Marked) (hk : Becomes cidOf j k) : k.Marked := by
  cases hk with
  | idle hidle => exact marked_of_idle hidle
  | same he => exact Marked.expires h he
  | served j' c he heq =>
    rw [heq]
    exact (Marked.expires h he).serve
  | inserted j' u d he hrow heq =>
    refine marked_of_idle fun call => ?_
    by_contra hne
    rw [heq] at hne
    obtain ⟨v, hv, -⟩ := (Marked.expires h he).finishing call hne
    rw [hrow] at hv
    cases hv
  | activated a heq =>
    rw [heq]
    exact ⟨h.finishing, h.only⟩

/-- While a finish call goes on, no event touches the row or the parts of its session. -/
theorem sameParts_of_becomes {j k : Job} (h : j.Marked) (hk : Becomes cidOf j k)
    (hway : j.finishes call ≠ none) (hafter : k.finishes call ≠ none) : SameParts j k := by
  cases hk with
  | idle hidle => exact absurd (hidle call) hafter
  | same he =>
    rw [Marked.expires_eq h he hway]
    exact .rfl
  | served j' c he heq =>
    obtain rfl := Marked.expires_eq h he hway
    rw [heq] at hafter ⊢
    exact h.serve_sameParts hway hafter
  | inserted j' u d he hrow heq =>
    obtain rfl := Marked.expires_eq h he hway
    obtain ⟨v, hv, -⟩ := h.finishing call hway
    rw [hrow] at hv
    cases hv
  | activated a heq =>
    rw [heq]
    exact ⟨rfl, rfl, rfl⟩

/-! ## Runs -/

theorem marked_initial (id : String) : (initial.jobs id).Marked := marked_of_idle fun _ => rfl

/-- In every state of such a run the sessions that are being finished are marked. -/
theorem exec_marked {run : List Event} (hs : ∀ id, (s.jobs id).Marked)
    (h : Steps (step cidOf) OpensIdle s run) : ∀ id, ((exec (step cidOf) s run).jobs id).Marked :=
  exec_of_steps (P := fun s : Uploads => ∀ id, (s.jobs id).Marked) hs
    (fun _ _ ht hev id => marked_of_becomes (ht id) (becomes_step hev)) h

/-- While a finish call is under way, its session keeps its row and its parts. -/
theorem exec_sameParts {run : List Event} (hs : ∀ id, (s.jobs id).Marked)
    (h : Steps (step cidOf) OpensIdle s run) (hway : States (step cidOf) (UnderWay id call) s run) :
    SameParts (s.jobs id) ((exec (step cidOf) s run).jobs id) := by
  induction run generalizing s with
  | nil => exact .rfl
  | cons ev run ih =>
    have hnext : UnderWay id call (s.step cidOf ev) := by
      cases run with
      | nil => exact hway.2
      | cons _ _ => exact hway.2.1
    have hmarked : ∀ id, ((s.step cidOf ev).jobs id).Marked :=
      fun id => marked_of_becomes (hs id) (becomes_step h.1)
    exact (sameParts_of_becomes (hs id) (becomes_step h.1) hway.1 hnext).trans
      (ih hmarked h.2 hway.2)

/-- A finish call that is refused in its first critical section leaves the session alone. -/
theorem finishMark_refused {store : ℕ} {e : Marking} {j : Job} {r : UploadResult × List ℕ}
    (h : (j.finishMark store call e).2 = some r) : (j.finishMark store call e).1 = j := by
  generalize hp : j.finishMark store call e = p at h ⊢
  rw [finishMark] at hp
  cases hload : j.loadStatus e.loads with
  | none =>
    rw [hload] at hp
    rw [← hp]
  | some u =>
    rw [hload] at hp
    dsimp only at hp
    repeat' split at hp
    all_goals
      subst hp
      first
        | rfl
        | cases h

/-- In every run that opens no store object under a finish call: a call of
`metalbear_video_upload_finish` that is refused at once leaves the session as the expiry left it,
and one that goes on leaves it open with its parts, or over, if and only if its last statement is
carried out. -/
theorem finish_settles_iff (cidOf : Bytes → String) (before : List Event)
    (hbefore : Steps (step cidOf) OpensIdle initial before) (id : String) (call : ℕ) :
    let s := exec (step cidOf) initial before
    (∀ store expiry e r, s.stores store = true → (s.jobs id).finishes call = none →
      (((s.expire expiry).jobs id).finishMark store call e).2 = some r →
        (s.step cidOf (.call id expiry (.finish store call e))).jobs id =
          (s.expire expiry).jobs id) ∧
    ∀ mid, Steps (step cidOf) OpensIdle s mid → States (step cidOf) (UnderWay id call) s mid →
      ∀ expiry c carried, ((exec (step cidOf) s mid).jobs id).Returns call c carried →
        (Settled (s.jobs id) (((exec (step cidOf) s mid).step cidOf (.call id expiry c)).jobs id) ↔
          carried = true) := by
  intro s
  have hs : ∀ id, (s.jobs id).Marked := exec_marked marked_initial hbefore
  refine ⟨fun store expiry e r hstore hnone hrefused => ?_,
    fun mid hmid hway expiry c carried hret => ?_⟩
  · have hidle : ((s.expire expiry).jobs id).finishes call = none := by
      rw [Uploads.expire, expire_finishes, hnone]
    rw [Uploads.step]
    simp only [Call.store, if_pos hstore, Uploads.set, Function.update_self, Job.serve, hidle,
      Option.isSome_none, Bool.false_eq_true, if_false]
    exact finishMark_refused hrefused
  · have hmarked := exec_marked hs hmid
    have hstore : c.store = none := by cases hret <;> rfl
    rw [Uploads.step]
    simp only [hstore, Uploads.set, Function.update_self]
    exact (hmarked id).settled_iff (exec_sameParts hs hmid hway) hret

/-! ## The last statement fails -/

/-- The session of one part, up to its mark. -/
def markedVideo : List Event := putVideo.take 7

/-- What the call does between its critical sections. -/
def publishedVideo : List Event := putVideo.drop 7

/-- The last step of the call, whose `UPDATE` is carried out or not. -/
def settleVideoBy (updates : Bool) : Call :=
  .finishSettle 0 ⟨1001, updates, (unexpired "up-0").removal⟩

/-- The blob is in the store, the statement that would complete the session fails and the session is
left finishing, with nobody finishing it. -/
theorem failed_completion_stays_finishing :
    let s := exec (step fun _ => "bafkvideo") initial (markedVideo ++ publishedVideo)
    let t := s.step (fun _ => "bafkvideo") (.call "up-0" unexpired (settleVideoBy false))
    blobs (t.jobs "up-0").history = [("bafkvideo", tinyVideo)] ∧
      (t.jobs "up-0").row.map Upload.state = some .finishing ∧
      (t.jobs "up-0").finishes 0 = none := by
  decide +kernel

theorem underWay_publishedVideo :
    States (step fun _ => "bafkvideo") (UnderWay "up-0" 0)
      (exec (step fun _ => "bafkvideo") initial markedVideo) publishedVideo := by
  rw [ states_iff_prefix]
  intro pre hpre
  have hall : ∀ pre ∈ publishedVideo.inits, ((exec (step fun _ => "bafkvideo")
      (exec (step fun _ => "bafkvideo") initial markedVideo) pre).jobs "up-0").finishes 0 ≠
        none := by
    decide +kernel
  exact hall pre ((List.mem_inits ..).mpr hpre)

/-- Where it is carried out, the session is settled. -/
theorem finish_settles_video :
    let s := exec (step fun _ => "bafkvideo") initial markedVideo
    Settled (s.jobs "up-0") (((exec (step fun _ => "bafkvideo") s publishedVideo).step
        (fun _ => "bafkvideo") (.call "up-0" unexpired (settleVideoBy true))).jobs "up-0") ∧
      ¬ Settled (s.jobs "up-0") (((exec (step fun _ => "bafkvideo") s publishedVideo).step
        (fun _ => "bafkvideo") (.call "up-0" unexpired (settleVideoBy false))).jobs "up-0") := by
  intro s
  have hbefore : Steps (step fun _ => "bafkvideo") OpensIdle initial markedVideo :=
    ⟨fun _ _ => rfl, trivial, trivial, trivial, trivial, trivial, trivial, trivial⟩
  have hmid : Steps (step fun _ => "bafkvideo") OpensIdle s publishedVideo :=
    ⟨trivial, trivial, trivial, trivial, trivial⟩
  have hstage : ((exec (step fun _ => "bafkvideo") s publishedVideo).jobs "up-0").finishes 0 =
      some ⟨0, startRow 12 1000 "video/mp4", .settled .ok "bafkvideo"⟩ := by
    decide +kernel
  have h := (finish_settles_iff (fun _ => "bafkvideo") markedVideo hbefore "up-0" 0).2
    publishedVideo hmid underWay_publishedVideo unexpired
  refine ⟨(h _ _ (.settle 0 _ .ok "bafkvideo" _ hstage)).mpr rfl, fun hsettled => ?_⟩
  exact absurd ((h _ _ (.settle 0 _ .ok "bafkvideo" _ hstage)).mp hsettled) (by decide)

end Uploads

end MetalBear.Video
