import MetalBear.Video.JobStatus

/-!
# The job IDs of an account

What the uploads of an account return, over every run of its multipart sessions, its uploads in one
request and the blobs that come and go: each job ID stands for an upload that did complete, and is
answered with the CID and the size of that upload for as long as its blob is stored.
-/

namespace MetalBear.Video

open CString Job Machine
open Repo (blobCidIsValid)

/-! ## The account -/

/-- The sessions and the blobs of an account, and what `uploadVideo` has returned. -/
structure VideoAccount where
  uploads : Uploads
  blobs : BlobTable
  uploaded : List (String × String × Nat)

/-- What happens to them. -/
inductive VideoEvent where
  | multipart (ev : Event)
  | uploadVideo (body : Bytes) (contentType : Option String) (o : VideoOutcomes)
  | uploadBlob (body : Bytes) (mime : String)
  | deleteBlob (cid : String)

namespace VideoAccount

def start : VideoAccount := ⟨Uploads.initial, fun _ => none, []⟩

/-- The blobs that a step of a session has put into the blob store, with the type of the session. -/
def freshBlobs (before after : Uploads) : Event → List (String × String × Nat)
  | .call id _ _ =>
    let count := (Job.blobs (after.jobs id).history).length -
      (Job.blobs (before.jobs id).history).length
    ((Job.blobs (after.jobs id).history).take count).map fun b =>
      (b.1, ((after.jobs id).row.map Upload.mimeType).getD "", b.2.length)
  | _ => []

def step (cidOf : Bytes → String) (s : VideoAccount) : VideoEvent → VideoAccount
  | .multipart ev =>
    let after := s.uploads.step cidOf ev
    { s with
      uploads := after
      blobs := (freshBlobs s.uploads after ev).foldr (fun b => putBlob b.1 b.2.1 b.2.2) s.blobs }
  | .uploadVideo body contentType o =>
    match videoUpload cidOf body contentType o with
    | .error _ => s
    | .ok returned =>
      { s with
        blobs := putBlob returned.2.1 "video/mp4" returned.2.2 s.blobs
        uploaded := returned :: s.uploaded }
  | .uploadBlob body mime => { s with blobs := putBlob (cidOf body) mime body.length s.blobs }
  | .deleteBlob cid => { s with blobs := Function.update s.blobs cid none }

/-- A job ID with its CID and size, as `uploadVideo` or the status of a session that is completed
returned them; `load_status_locked` copies the texts of the row. -/
def Returned (s : VideoAccount) (id cid : String) (size : Nat) : Prop :=
  (id, cid, size) ∈ s.uploaded ∨
    ∃ job u, (s.uploads.jobs job).row = some u ∧ u.state = .completed ∧
      id = snprintf 257 (u.completedJobId.getD "") ∧ cid = snprintf 128 (u.cid.getD "") ∧
      size = u.sizeBytes

/-- A job ID that was returned reads as what it was made from and is answered with it; of any text,
what is reported is what the text carries, with a blob only if the store holds the CID. -/
structure Truthful (s : VideoAccount) : Prop where
  parses : ∀ id cid size, s.Returned id cid size → videoParseJobId id = some (cid, (size : Int))
  reports : ∀ id cid size did, s.Returned id cid size →
    videoGetJobStatus s.blobs (some did) (some id) = .ok (completedStatus did id
      (if (s.blobs cid).isSome then some ⟨"video/mp4", cid, size⟩ else none))
  sizes : ∀ id cid size mime len, s.Returned id cid size → s.blobs cid = some (mime, len) →
    len = size
  holds : ∀ did jobId status blob, videoGetJobStatus s.blobs did jobId = .ok status →
    status.blob = some blob → (s.blobs blob.cid).isSome = true
  carries : ∀ did jobId status, videoGetJobStatus s.blobs did jobId = .ok status →
    ∃ text cid size, jobId = some text ∧ videoParseJobId text = some (cid, size) ∧
      status.jobId = text ∧ status.state = "JOB_STATE_COMPLETED" ∧
      ∀ blob, status.blob = some blob → blob = ⟨"video/mp4", cid, size⟩

end VideoAccount

/-- What is relied on of CIDs: their texts are letters and digits, at most 59 of them for what may be
a video, and contents that have one CID have one length. -/
structure CidTexts (cidOf : Bytes → String) : Prop where
  valid : ∀ body, blobCidIsValid (cidOf body) = true
  length : ∀ body, body.length ≤ maxBytes → (cidOf body).length ≤ 59
  content : ∀ body body', cidOf body = cidOf body' → body.length = body'.length

/-- A time is of 64 bits. -/
def Job.Call.Timed : Call → Prop
  | .finishSettle _ e => e.now < 2 ^ 63
  | _ => True

def VideoEvent.Timed : VideoEvent → Prop
  | .multipart (.call _ _ c) => c.Timed
  | .uploadVideo _ _ o => -2 ^ 63 ≤ o.time ∧ o.time < 2 ^ 63
  | _ => True

/-! ## A session -/

/-- The CID of some content of that length. -/
def OfSize (cidOf : Bytes → String) (cid : String) (size : Nat) : Prop :=
  ∃ body, cidOf body = cid ∧ body.length = size

/-- The row of a completed session has the job ID that is made from its CID and size. -/
def Carries (cidOf : Bytes → String) (u : Upload) : Prop :=
  ∃ (now : Nat) (cid : String), now < 2 ^ 63 ∧
    u.completedJobId = some (jobIdText now cid u.sizeBytes) ∧ u.cid = some cid ∧
    OfSize cidOf cid u.sizeBytes

/-- The size of a session is allowed and is that of its finish calls; its CIDs are of contents of
that size. -/
structure Identified (cidOf : Bytes → String) (j : Job) : Prop where
  declared : ∀ u, j.row = some u → u.sizeBytes ≤ maxBytes
  completed : ∀ u, j.row = some u → u.state = .completed → Carries cidOf u
  sized : ∀ call f, j.finishes call = some f → ∃ u, j.row = some u ∧
    u.sizeBytes = f.status.sizeBytes
  reached : ∀ call f cid, j.finishes call = some f →
    f.stage = .assembled cid ∨ f.stage = .settled .ok cid → OfSize cidOf cid f.status.sizeBytes
  published : ∀ b ∈ blobs j.history, OfSize cidOf b.1 b.2.length

variable {cidOf : Bytes → String} {j j' : Job} {call : ℕ} {f : Finish}

theorem identified_unknown : Identified cidOf .unknown where
  declared _ h := nomatch h
  completed _ h := nomatch h
  sized _ _ h := nomatch h
  reached _ _ _ h := nomatch h
  published _ h := nomatch h

theorem Identified.of_same (h : Identified cidOf j) (hrow : j'.row = j.row)
    (hfinishes : j'.finishes = j.finishes) (hblobs : blobs j'.history = blobs j.history) :
    Identified cidOf j' := by
  refine ⟨?_, ?_, ?_, ?_, ?_⟩
  · rw [hrow]
    exact h.declared
  · rw [hrow]
    exact h.completed
  · rw [hrow, hfinishes]
    exact h.sized
  · rw [hfinishes]
    exact h.reached
  · rw [hblobs]
    exact h.published

/-- An `UPDATE` that keeps the size and completes nothing. -/
theorem Identified.updateRow {p : Upload → Bool} {g : Upload → Upload} (h : Identified cidOf j)
    (hsize : ∀ u, (g u).sizeBytes = u.sizeBytes) (hstate : ∀ u, (g u).state ≠ .completed) :
    Identified cidOf (j.updateRow p g) := by
  have hrow : ∀ v, (j.updateRow p g).row = some v →
      ∃ u, j.row = some u ∧ (v = u ∨ v = g u) := by
    intro v hv
    obtain ⟨u, hu, rfl⟩ := Option.map_eq_some_iff.mp hv
    refine ⟨u, hu, ?_⟩
    split
    · exact Or.inr rfl
    · exact Or.inl rfl
  refine ⟨fun v hv => ?_, fun v hv hcompleted => ?_, fun c g' hg => ?_, h.reached, h.published⟩
  · obtain ⟨u, hu, rfl | rfl⟩ := hrow v hv
    · exact h.declared v hu
    · exact (hsize u).trans_le (h.declared u hu)
  · obtain ⟨u, hu, rfl | rfl⟩ := hrow v hv
    · exact h.completed v hu hcompleted
    · exact absurd hcompleted (hstate u)
  · obtain ⟨u, hu, hsame⟩ := h.sized c g' hg
    have hafter : (j.updateRow p g).row = some (if p u then g u else u) := by
      simp only [Job.updateRow, hu, Option.map_some]
    refine ⟨_, hafter, ?_⟩
    split
    · exact (hsize u).trans hsame
    · exact hsame

theorem Identified.removeAll {r : Removal} (h : Identified cidOf j) :
    Identified cidOf (j.removeAll r) := h.of_same rfl rfl rfl

theorem Identified.expire {e : Expiry} (h : Identified cidOf j) :
    Identified cidOf (j.expire e) := by
  have hupdated : Identified cidOf
      (j.updateRow (overdue e.updated) ({ · with state := .expired })) :=
    h.updateRow (fun _ => rfl) fun _ => nofun
  rw [Job.expire]
  split
  · exact hupdated.removeAll
  · exact hupdated

theorem Identified.reset (h : Identified cidOf j) : Identified cidOf j.reset :=
  h.updateRow (fun _ => rfl) fun _ => nofun

/-- A finish call of the session, at a stage that it may have reached. -/
theorem Identified.update (h : Identified cidOf j)
    (hsized : ∃ u, j.row = some u ∧ u.sizeBytes = f.status.sizeBytes)
    (hreached : ∀ cid, f.stage = .assembled cid ∨ f.stage = .settled .ok cid →
      OfSize cidOf cid f.status.sizeBytes) :
    Identified cidOf { j with finishes := Function.update j.finishes call (some f) } := by
  have hafter : ∀ c g, Function.update j.finishes call (some f) c = some g →
      g = f ∨ j.finishes c = some g := by
    intro c g hg
    by_cases hc : c = call
    · rw [hc, Function.update_self, Option.some.injEq] at hg
      exact Or.inl hg.symm
    · rw [Function.update_of_ne hc] at hg
      exact Or.inr hg
  refine ⟨h.declared, h.completed, fun c g hg => ?_, fun c g cid hg hstage => ?_, h.published⟩
  · rcases hafter c g hg with rfl | hg
    · exact hsized
    · exact h.sized c g hg
  · rcases hafter c g hg with rfl | hg
    · exact hreached cid hstage
    · exact h.reached c g cid hg hstage

theorem Identified.setStage {stage : Stage} (h : Identified cidOf j)
    (hf : j.finishes call = some f)
    (hreached : ∀ cid, stage = .assembled cid ∨ stage = .settled .ok cid →
      OfSize cidOf cid f.status.sizeBytes) :
    Identified cidOf (j.setStage call f stage) :=
  h.update (h.sized call f hf) hreached

/-- A finish call goes on to a stage without a CID. -/
theorem Identified.goOn {stage : Stage} (h : Identified cidOf j) (hf : j.finishes call = some f)
    (hstage : ∀ cid, stage ≠ .assembled cid ∧ stage ≠ .settled .ok cid) :
    Identified cidOf (j.setStage call f stage) := by
  refine h.setStage hf fun cid heq => ?_
  rcases heq with heq | heq
  · exact absurd heq (hstage cid).1
  · exact absurd heq (hstage cid).2

/-- A finish call ends. -/
theorem Identified.drop (h : Identified cidOf j) :
    Identified cidOf { j with finishes := Function.update j.finishes call none } := by
  have hbefore : ∀ c g, Function.update j.finishes call none c = some g →
      j.finishes c = some g := by
    intro c g hg
    by_cases hc : c = call
    · rw [hc, Function.update_self] at hg
      cases hg
    · rwa [Function.update_of_ne hc] at hg
  exact ⟨h.declared, h.completed, fun c g hg => h.sized c g (hbefore c g hg),
    fun c g cid hg => h.reached c g cid (hbefore c g hg), h.published⟩

theorem Identified.settle {result : UploadResult} {cid : String} (h : Identified cidOf j)
    (hf : j.finishes call = some f) (hresult : result = .ok → OfSize cidOf cid f.status.sizeBytes) :
    Identified cidOf (j.settle call f result cid) := by
  have hstage : Identified cidOf (j.setStage call f (.settled result cid)) := by
    refine h.setStage hf fun cid' hstage => ?_
    rcases hstage with heq | heq
    · cases heq
    · obtain ⟨hok, rfl⟩ := Stage.settled.inj heq
      exact hresult hok
  exact hstage.of_same rfl rfl rfl

/-- The end of the loop: an error, or the CID of as many bytes as were declared. -/
theorem Identified.finishClose {bytes : Bytes} {header closes encodes : Bool}
    {result : UploadResult} (h : Identified cidOf j) (hf : j.finishes call = some f) :
    Identified cidOf (j.finishClose call f bytes header result closes
      (if encodes then some (cidOf bytes) else none)) := by
  rw [Job.finishClose]
  split
  · next r hr => exact h.settle hf fun hok => absurd hok (assembleResult_error hr)
  · next c hc =>
    obtain ⟨hlength, -, hcid⟩ := assembleResult_ok hc
    have hof : cidOf bytes = c := by
      split at hcid
      · exact Option.some.inj hcid
      · cases hcid
    refine h.setStage hf fun cid hstage => ?_
    rcases hstage with heq | heq
    · rw [← Stage.assembled.inj heq]
      exact ⟨bytes, hof, hlength⟩
    · cases heq

theorem Identified.finishRead {reading : PartReading} {closes encodes : Bool}
    (h : Identified cidOf j) :
    Identified cidOf (j.finishRead cidOf call reading closes encodes) := by
  rw [Job.finishRead]
  split
  · next store u o part bytes header hf =>
    dsimp only
    split
    · exact h.finishClose hf
    split
    · exact h.finishClose hf
    · exact h.finishClose hf
    · exact h.finishClose hf
    split
    · exact h.finishClose hf
    · refine Identified.of_same (h.goOn hf ?_) rfl rfl rfl
      exact fun _ => ⟨fun h => (by cases h), fun h => (by cases h)⟩
  · exact h

/-- The blob that is put has the length that was declared. -/
theorem Identified.finishPut {p : Putting} (h : Identified cidOf j) :
    Identified cidOf (j.finishPut call p) := by
  rw [Job.finishPut]
  split
  · next store u cid hf =>
    have hcid : OfSize cidOf cid u.sizeBytes := h.reached call _ cid hf (Or.inl rfl)
    have hrefused : Identified cidOf
        (j.settle call ⟨store, u, .assembled cid⟩ .serviceOverloaded cid) :=
      h.settle hf fun _ => hcid
    have hput : Identified cidOf (j.settle call ⟨store, u, .assembled cid⟩ .ok cid) :=
      h.settle hf fun _ => hcid
    dsimp only
    split
    · exact hrefused
    · next content hcontent =>
      split
      · exact hrefused
      · next hlength =>
        have hsize : OfSize cidOf cid content.length := not_not.mp hlength ▸ hcid
        have hpublished : ∀ b ∈ (cid, content) :: blobs j.history, OfSize cidOf b.1 b.2.length :=
          List.forall_mem_cons.mpr ⟨hsize, h.published⟩
        split
        · exact hrefused
        · exact ⟨hrefused.declared, hrefused.completed, hrefused.sized, hrefused.reached,
            hpublished⟩
        · exact ⟨hput.declared, hput.completed, hput.sized, hput.reached, hpublished⟩
  · exact h

/-- The session that is completed has the size of the finish call. -/
theorem Identified.finishSettle {e : Settling} (h : Identified cidOf j) (hnow : e.now < 2 ^ 63) :
    Identified cidOf (j.finishSettle call e) := by
  rw [Job.finishSettle]
  split
  · next store u result cid hf =>
    have hdrop : Identified cidOf { j with finishes := Function.update j.finishes call none } :=
      h.drop
    dsimp only
    split
    · exact hdrop
    split
    · refine Identified.removeAll ?_
      have hcid : OfSize cidOf cid u.sizeBytes := h.reached call _ cid hf (Or.inr rfl)
      obtain ⟨v, hv, hsame⟩ := h.sized call _ hf
      have hrow : ∀ w, (j.row.map fun v => if true = true then
          { v with
            state := .completed
            completedJobId := some s!"vid-{e.now}-{cid}-{u.sizeBytes}"
            cid := some cid
            failureReason := none } else v) = some w →
          w.sizeBytes = v.sizeBytes ∧ w.completedJobId = some s!"vid-{e.now}-{cid}-{u.sizeBytes}" ∧
            w.cid = some cid := by
        intro w hw
        rw [hv, Option.map_some, if_pos rfl] at hw
        rw [← Option.some.inj hw]
        exact ⟨rfl, rfl, rfl⟩
      refine ⟨fun w hw => ?_, fun w hw _ => ?_, fun c g hg => ?_, hdrop.reached, hdrop.published⟩
      · rw [(hrow w hw).1]
        exact h.declared v hv
      · obtain ⟨hsize, hid, hcidRow⟩ := hrow w hw
        refine ⟨e.now, cid, hnow, ?_, hcidRow, ?_⟩
        · rw [hid, hsize, hsame]
          rfl
        · rw [hsize, hsame]
          exact hcid
      · obtain ⟨v', hv', hsame'⟩ := hdrop.sized c g hg
        obtain rfl : v = v' := Option.some.inj (hv.symm.trans hv')
        obtain ⟨w, hw⟩ := Option.isSome_iff_exists.mp (Option.isSome_map.trans
          (Option.isSome_of_mem hv))
        exact ⟨w, hw, (hrow w hw).1.trans hsame'⟩
    · exact hdrop.updateRow (fun _ => rfl) fun _ h => by cases h
    · exact hdrop.updateRow (fun _ => rfl) fun _ h => by cases h
  · exact h

theorem Identified.finishMark {store : ℕ} {e : Marking} (h : Identified cidOf j) :
    Identified cidOf (j.finishMark store call e).1 := by
  obtain heq | ⟨u, hrow, hcreated, -, heq⟩ := finishMark_cases store call e j
  · rw [heq]
    exact h
  · rw [heq]
    have hmarked : Identified cidOf
        (j.updateRow (·.state = .created) ({ · with state := .finishing })) :=
      h.updateRow (fun _ => rfl) fun _ h => by cases h
    refine hmarked.update ⟨{ u with state := .finishing }, ?_, rfl⟩ fun cid hstage => ?_
    · simp [Job.updateRow, hrow, hcreated]
    · rcases hstage with hstage | hstage <;> cases hstage

theorem Identified.finishOpen {opens : Bool} (h : Identified cidOf j) :
    Identified cidOf (j.finishOpen call opens) := by
  rw [Job.finishOpen]
  split
  · next store u hf =>
    split
    · exact h.settle hf fun h => by cases h
    split
    · refine Identified.of_same (h.goOn hf ?_) rfl rfl rfl
      exact fun _ => ⟨fun h => (by cases h), fun h => (by cases h)⟩
    · refine Identified.of_same (h.goOn hf ?_) rfl rfl rfl
      exact fun _ => ⟨fun h => (by cases h), fun h => (by cases h)⟩
  · exact h

theorem Identified.finishThrow {resets : Bool} (h : Identified cidOf j) :
    Identified cidOf (j.finishThrow call resets) := by
  rw [Job.finishThrow]
  split
  · exact h
  · dsimp only
    split
    · exact h.drop.updateRow (fun _ => rfl) fun _ h => by cases h
    · exact h.drop

theorem Identified.abort {store : ℕ} {e : Aborting} (h : Identified cidOf j) :
    Identified cidOf (j.abort store e).1 := by
  rw [Job.abort]
  split
  · exact h
  split
  · exact h
  split
  · split
    · exact h
    · have haborted : Identified cidOf
          (j.updateRow (·.state = .created) ({ · with state := .aborted })) :=
        h.updateRow (fun _ => rfl) fun _ h => by cases h
      exact haborted.of_same rfl rfl rfl
  · exact h

/-- A call about a session. -/
theorem Identified.serve {c : Call} (h : Identified cidOf j) (hc : c.Timed) :
    Identified cidOf (j.serve cidOf c) := by
  cases c with
  | partBegin store w n contentLength e =>
    simp only [Job.serve]
    split
    · exact h
    · obtain heq | ⟨u, -, -, -, heq | ⟨x, -, -, heq⟩⟩ := partBegin_cases store w n contentLength e j
      · rw [heq]
        exact h
      · rw [heq]
        exact h.of_same rfl rfl rfl
      · rw [heq]
        exact h.of_same rfl rfl rfl
  | partWrite w data taken =>
    simp only [Job.serve, partWrite]
    repeat' split
    all_goals exact h.of_same rfl rfl rfl
  | partFinish w e =>
    simp only [Job.serve, partFinish, partCommit]
    repeat' split
    all_goals exact h.of_same rfl rfl rfl
  | partFree w erases =>
    simp only [Job.serve, partFree]
    split
    · exact h
    · exact h.of_same rfl rfl rfl
  | finish store call e =>
    simp only [Job.serve]
    split
    · exact h
    · exact h.finishMark
  | finishOpen call opens => exact h.finishOpen
  | finishRead call reading closes encodes => exact h.finishRead
  | finishPut call p => exact h.finishPut
  | finishSettle call e => exact h.finishSettle hc
  | finishThrow call resets => exact h.finishThrow
  | abort store e => exact h.abort

/-! ## The sessions -/

/-- Every session is. -/
def AllIdentified (cidOf : Bytes → String) (s : Uploads) : Prop :=
  ∀ id, Identified cidOf (s.jobs id)

variable {s : Uploads}

theorem AllIdentified.set {id : String} (h : AllIdentified cidOf s) (hj : Identified cidOf j) :
    AllIdentified cidOf (s.set id j) := by
  intro id'
  rw [Uploads.set]
  dsimp only
  by_cases hid : id' = id
  · rw [hid, Function.update_self]
    exact hj
  · rw [Function.update_of_ne hid]
    exact h id'

/-- A new session, where there was none. -/
theorem Identified.insert {u : Upload} {directory : Bool} (h : Identified cidOf j)
    (hrow : j.row = none) (hsize : u.sizeBytes ≤ maxBytes) (hcreated : u.state = .created) :
    Identified cidOf { j with row := some u, directory := directory } := by
  have hnone : ∀ c f, j.finishes c ≠ some f := by
    intro c f hf
    obtain ⟨v, hv, -⟩ := h.sized c f hf
    rw [hrow] at hv
    cases hv
  refine ⟨fun v hv => ?_, fun v hv hstate => ?_, fun c f hf => absurd hf (hnone c f),
    fun c f _ hf => absurd hf (hnone c f), h.published⟩
  · rw [← Option.some.inj hv]
    exact hsize
  · rw [← Option.some.inj hv, hcreated] at hstate
    cases hstate

theorem AllIdentified.insertSession {id : String} {u : Upload} {e : Uploads.Starting}
    (h : AllIdentified cidOf s) (hsize : u.sizeBytes ≤ maxBytes) (hcreated : u.state = .created) :
    AllIdentified cidOf (s.insertSession id u e).1 := by
  rw [Uploads.insertSession]
  split
  · exact h
  next hrow =>
  simp only [Bool.or_eq_true, not_or, Option.isSome_iff_ne_none, not_not] at hrow
  split
  · exact h.set ((h id).insert hrow.2 hsize hcreated)
  split
  · exact h
  · exact h.set (@Identified.insert _ _ _ (s.jobs id).directory (h id) hrow.2 hsize hcreated)

theorem AllIdentified.start {sizeBytes : ℕ} {mimeType : String} {name : Option ℕ}
    {e : Uploads.Starting} (h : AllIdentified cidOf s) :
    AllIdentified cidOf (s.start sizeBytes mimeType name e).1 := by
  have hexpired : AllIdentified cidOf (s.expire e.expiry) := fun id => (h id).expire
  rw [Uploads.start]
  split
  · exact h
  split
  · exact h
  next hmax =>
  split
  · exact h
  split
  · exact h
  dsimp only
  split
  · exact hexpired
  split
  · exact hexpired
  split
  · exact hexpired
  · exact hexpired.insertSession (Nat.le_of_not_lt hmax) rfl

theorem Identified.crash (h : Identified cidOf j) : Identified cidOf j.crash where
  declared := h.declared
  completed := h.completed
  sized _ _ hf := nomatch hf
  reached _ _ _ hf := nomatch hf
  published := h.published

theorem AllIdentified.step {ev : Event} (h : AllIdentified cidOf s)
    (hev : (VideoEvent.multipart ev).Timed) : AllIdentified cidOf (s.step cidOf ev) := by
  cases ev with
  | call id expiry c =>
    have hexpired : AllIdentified cidOf (s.expire expiry) := fun id => (h id).expire
    rw [Uploads.step]
    split
    · exact h.set ((h id).serve hev)
    split
    · exact hexpired.set ((hexpired id).serve hev)
    · exact h
  | start store sizeBytes mimeType name e =>
    rw [Uploads.step]
    split
    · exact h.start
    · exact h
  | getStatus store expiry =>
    rw [Uploads.step]
    split
    · exact fun id => (h id).expire
    · exact h
  | storeOpen store expiry =>
    rw [Uploads.step, Uploads.storeOpen]
    split
    · exact h
    · exact fun id => (h id).reset.expire
  | storeFree store => exact fun id => (h id).of_same rfl rfl rfl
  | restart => exact fun id => (h id).crash

/-! ## The account -/

namespace VideoAccount

/-- The sessions and the blobs of the account, and what was returned, are of contents with their
sizes. -/
structure Good (cidOf : Bytes → String) (s : VideoAccount) : Prop where
  sessions : AllIdentified cidOf s.uploads
  blobs : ∀ cid mime len, s.blobs cid = some (mime, len) → OfSize cidOf cid len
  uploaded : ∀ id cid size, (id, cid, size) ∈ s.uploaded → ∃ time : Int,
    -2 ^ 63 ≤ time ∧ time < 2 ^ 63 ∧ id = jobIdText time cid size ∧ size ≤ maxBytes ∧
      OfSize cidOf cid size

variable {s : VideoAccount} {blobs : BlobTable}

theorem good_start : Good cidOf start :=
  ⟨fun _ => identified_unknown, nofun, nofun⟩

/-- Blobs are of contents with their lengths. -/
theorem ofSize_putBlob {cid mime : String} {len : Nat} (hcid : OfSize cidOf cid len)
    (h : ∀ cid mime len, blobs cid = some (mime, len) → OfSize cidOf cid len) :
    ∀ cid' mime' len', putBlob cid mime len blobs cid' = some (mime', len') →
      OfSize cidOf cid' len' := by
  intro cid' mime' len' hblob
  rw [putBlob] at hblob
  split at hblob
  · by_cases hc : cid' = cid
    · rw [hc, Function.update_self, Option.some.injEq, Prod.mk.injEq] at hblob
      rw [hc, ← hblob.2]
      exact hcid
    · rw [Function.update_of_ne hc] at hblob
      exact h cid' mime' len' hblob
  · exact h cid' mime' len' hblob

theorem ofSize_foldr {fresh : List (String × String × Nat)}
    (hfresh : ∀ b ∈ fresh, OfSize cidOf b.1 b.2.2)
    (h : ∀ cid mime len, blobs cid = some (mime, len) → OfSize cidOf cid len) :
    ∀ cid mime len, fresh.foldr (fun b => putBlob b.1 b.2.1 b.2.2) blobs cid = some (mime, len) →
      OfSize cidOf cid len := by
  induction fresh with
  | nil => exact h
  | cons b fresh ih =>
    rw [List.forall_mem_cons] at hfresh
    exact ofSize_putBlob hfresh.1 (ih hfresh.2)

theorem ofSize_freshBlobs {before after : Uploads} (h : AllIdentified cidOf after) (ev : Event) :
    ∀ b ∈ freshBlobs before after ev, OfSize cidOf b.1 b.2.2 := by
  intro b hb
  cases ev with
  | call id expiry c =>
    obtain ⟨b', hb', rfl⟩ := List.mem_map.mp hb
    exact (h id).published b' (List.mem_of_mem_take hb')
  | _ => cases hb

/-- What an upload in one request returns. -/
theorem videoUpload_ok {body : Bytes} {contentType : Option String} {o : VideoOutcomes}
    {returned : String × String × Nat} (h : videoUpload cidOf body contentType o = .ok returned) :
    body.length ≤ maxBytes ∧
      returned = (snprintf 320 (jobIdText o.time (cidOf body) body.length), cidOf body,
        body.length) := by
  rw [videoUpload] at h
  split at h
  · cases h
  split at h
  · cases h
  next hmax =>
  split at h
  · cases h
  split at h
  · cases h
  split at h
  · cases h
  split at h
  · cases h
  split at h
  · cases h
  · exact ⟨Nat.le_of_not_lt hmax, (Except.ok.inj h).symm⟩

theorem Good.step {ev : VideoEvent} (hcids : CidTexts cidOf) (h : s.Good cidOf) (hev : ev.Timed) :
    (s.step cidOf ev).Good cidOf := by
  cases ev with
  | multipart ev =>
    have hsessions := h.sessions.step hev
    exact ⟨hsessions, ofSize_foldr (ofSize_freshBlobs hsessions ev) h.blobs, h.uploaded⟩
  | uploadVideo body contentType o =>
    rw [VideoAccount.step]
    split
    · exact h
    · next returned hreturned =>
      obtain ⟨hmax, rfl⟩ := videoUpload_ok hreturned
      have hcid : OfSize cidOf (cidOf body) body.length := ⟨body, rfl, rfl⟩
      refine ⟨h.sessions, ofSize_putBlob hcid h.blobs, fun id cid size hmem => ?_⟩
      rcases List.mem_cons.mp hmem with heq | hmem
      · obtain ⟨rfl, rfl, rfl⟩ : id = _ ∧ cid = _ ∧ size = _ := by
          simpa only [Prod.mk.injEq] using heq
        exact ⟨o.time, hev.1, hev.2, snprintf_jobIdText (hcids.valid body)
          (hcids.length body hmax) hev.1 hev.2 hmax (by decide), hmax, hcid⟩
      · exact h.uploaded id cid size hmem
  | uploadBlob body mime => exact ⟨h.sessions, ofSize_putBlob ⟨body, rfl, rfl⟩ h.blobs, h.uploaded⟩
  | deleteBlob cid =>
    refine ⟨h.sessions, fun cid' mime len hblob => ?_, h.uploaded⟩
    simp only [VideoAccount.step] at hblob
    by_cases hc : cid' = cid
    · rw [hc, Function.update_self] at hblob
      cases hblob
    · rw [Function.update_of_ne hc] at hblob
      exact h.blobs cid' mime len hblob

/-- Whatever was returned is made from the CID and the size of some content. -/
theorem Good.returned {id cid : String} {size : Nat} (hcids : CidTexts cidOf) (h : s.Good cidOf)
    (hreturned : s.Returned id cid size) :
    (∃ time, id = jobIdText time cid size) ∧ size ≤ maxBytes ∧ OfSize cidOf cid size := by
  rcases hreturned with hmem | ⟨job, u, hrow, hcompleted, rfl, rfl, rfl⟩
  · obtain ⟨time, -, -, hid, hmax, hcid⟩ := h.uploaded id cid size hmem
    exact ⟨⟨time, hid⟩, hmax, hcid⟩
  · obtain ⟨now, cid, hnow, hid, hcid, hof⟩ := (h.sessions job).completed u hrow hcompleted
    obtain ⟨body, rfl, hlength⟩ := id hof
    have hmax := (h.sessions job).declared u hrow
    have hshort : (cidOf body).length ≤ 59 := hcids.length body (hlength.trans_le hmax)
    have hwhole : snprintf 128 (cidOf body) = cidOf body :=
      snprintf_of_length_lt (fun c hc => utf8Size_of_mem_cid (hcids.valid body) hc)
        (by rw [String.length_toList]; omega)
    rw [hid, hcid, Option.getD_some, Option.getD_some, hwhole,
      snprintf_jobIdText (hcids.valid body) hshort (by omega) (by exact_mod_cast hnow) hmax
        (by decide)]
    exact ⟨⟨now, rfl⟩, hmax, hof⟩

theorem Good.truthful (hcids : CidTexts cidOf) (h : s.Good cidOf) : s.Truthful := by
  have hparses : ∀ id cid size, s.Returned id cid size →
      videoParseJobId id = some (cid, (size : Int)) ∧ blobCidIsValid cid = true := by
    intro id cid size hreturned
    obtain ⟨⟨time, rfl⟩, hmax, body, rfl, -⟩ := h.returned hcids hreturned
    exact ⟨videoParseJobId_jobIdText (hcids.valid body) time (hmax.trans_lt (by decide)),
      hcids.valid body⟩
  refine ⟨fun id cid size hreturned => (hparses id cid size hreturned).1,
    fun id cid size did hreturned => ?_, fun id cid size mime len hreturned hblob => ?_,
    fun did jobId status blob hstatus hblob => ?_, fun did jobId status hstatus => ?_⟩
  · obtain ⟨hparse, hvalid⟩ := hparses id cid size hreturned
    rw [videoGetJobStatus, Option.bind_some, hparse]
    simp [hvalid]
  · obtain ⟨-, -, body, hbody, hlength⟩ := h.returned hcids hreturned
    obtain ⟨body', hbody', hlength'⟩ := h.blobs cid mime len hblob
    rw [← hlength, ← hlength']
    exact hcids.content body' body (hbody'.trans hbody.symm)
  · rw [videoGetJobStatus] at hstatus
    split at hstatus
    · cases hstatus
    split at hstatus
    · cases hstatus
    · rw [← Except.ok.inj hstatus, completedStatus] at hblob
      dsimp only at hblob
      split at hblob
      · next hheld =>
        rw [← Option.some.inj hblob]
        exact hheld.2
      · cases hblob
  · rw [videoGetJobStatus] at hstatus
    cases hparsed : jobId.bind videoParseJobId with
    | none =>
      rw [hparsed] at hstatus
      cases hstatus
    | some parsed =>
      obtain ⟨text, rfl, htext⟩ := Option.bind_eq_some_iff.mp hparsed
      rw [hparsed] at hstatus
      dsimp only at hstatus
      split at hstatus
      · cases hstatus
      · rw [← Except.ok.inj hstatus]
        refine ⟨text, parsed.1, parsed.2, rfl, htext, rfl, rfl, fun blob hblob => ?_⟩
        rw [completedStatus] at hblob
        dsimp only at hblob
        split at hblob
        · exact (Option.some.inj hblob).symm
        · cases hblob

end VideoAccount

/-- In every run of an account, what its uploads return is read back and answered as it was made, and
no blob is reported that is not stored. -/
theorem jobStatus_truthful (hcids : CidTexts cidOf) (run : List VideoEvent)
    (h : ∀ ev ∈ run, ev.Timed) :
    States (VideoAccount.step cidOf) VideoAccount.Truthful VideoAccount.start run := by
  have hgood : States (VideoAccount.step cidOf) (VideoAccount.Good cidOf) VideoAccount.start run :=
    states_of_steps VideoAccount.good_start (fun _ _ hs hev => hs.step hcids hev)
      (steps_of_forall h)
  exact hgood.imp fun _ hs => hs.truthful hcids

section Example

/-- CIDs: the one of the smallest video as it is, the others told apart by the length. -/
def tinyCids (body : Bytes) : String :=
  if body = Uploads.tinyVideo then "bafkreiatyxg3tspqbo5prdbaplhejuwnlrcouu6ww7arg4zcnqefr2f2wu"
  else "z" ++ body.length.repr

theorem tinyCids_texts : CidTexts tinyCids where
  valid body := by
    rw [tinyCids]
    split
    · decide +kernel
    · rw [blobCidIsValid, Bool.and_eq_true, bne_iff_ne, List.all_eq_true]
      refine ⟨fun hnil => ?_, fun c hc => ?_⟩
      · have := congrArg String.length hnil
        simp at this
      · rw [String.toList_append, List.mem_append] at hc
        rcases hc with hc | hc
        · rw [List.mem_singleton.mp hc]
          decide
        · rw [Nat.repr_eq_ofList_toDigits, String.toList_ofList] at hc
          have hdigit := Nat.isDigit_of_mem_toDigits (by decide) (by decide) hc
          simp only [Char.isDigit, Bool.and_eq_true, decide_eq_true_eq] at hdigit
          exact decide_eq_true (Or.inr (Or.inr hdigit))
  length body hmax := by
    rw [tinyCids]
    split
    · decide +kernel
    · have := Nat.repr_length body.length 9 (by decide) (hmax.trans_lt (by decide))
      have hz : "z".length = 1 := rfl
      rw [String.length_append]
      omega
  content body body' h := by
    have hhead {n : Nat} :
        "bafkreiatyxg3tspqbo5prdbaplhejuwnlrcouu6ww7arg4zcnqefr2f2wu" ≠ "z" ++ n.repr := by
      intro heq
      have hfirst := congrArg (fun text => text.toList.head?) heq
      rw [show ("z" ++ n.repr).toList.head? = some 'z' by simp] at hfirst
      revert hfirst
      decide +kernel
    have hrepr {n m : Nat} (heq : "z" ++ n.repr = "z" ++ m.repr) : n = m := by
      have hlist := congrArg String.toList heq
      rw [String.toList_append, String.toList_append, List.append_cancel_left_eq,
        Nat.repr_eq_ofList_toDigits, Nat.repr_eq_ofList_toDigits, String.toList_ofList,
        String.toList_ofList] at hlist
      have hvalue := congrArg (Nat.ofDigitChars 10 · 0) hlist
      simpa only [Nat.ofDigitChars_toDigits (b := 10) (by decide) (by decide)] using hvalue
    rw [tinyCids, tinyCids] at h
    split at h
    · next hbody =>
      split at h
      · next hbody' => rw [hbody, hbody']
      · exact absurd h hhead
    · split at h
      · exact absurd h.symm hhead
      · exact hrepr h

/-- A session of one part that is completed, and the same video in one request. -/
def tinyRun : List VideoEvent :=
  (Uploads.putVideo ++ [Uploads.settleVideo]).map .multipart ++
    [.uploadVideo Uploads.tinyVideo none ⟨true, true, true, true, 1002⟩]

theorem jobStatus_truthful_tiny :
    States (VideoAccount.step tinyCids) VideoAccount.Truthful VideoAccount.start tinyRun := by
  refine jobStatus_truthful tinyCids_texts tinyRun ?_
  simp [tinyRun, Uploads.putVideo, Uploads.settleVideo, VideoEvent.Timed, Call.Timed]

/-- A blob that was uploaded as an image, and a job ID of its CID with another size: a completed job
is reported for it, with a video of that size, and no video was uploaded. -/
theorem unknown_job_is_completed :
    let s := exec (VideoAccount.step tinyCids) VideoAccount.start
      [.uploadBlob Uploads.tinyVideo "image/png"]
    let cid := "bafkreiatyxg3tspqbo5prdbaplhejuwnlrcouu6ww7arg4zcnqefr2f2wu"
    let jobId := "vid-1-bafkreiatyxg3tspqbo5prdbaplhejuwnlrcouu6ww7arg4zcnqefr2f2wu-99"
    videoGetJobStatus s.blobs (some "did:plc:alice") (some jobId) =
        .ok ⟨jobId, "did:plc:alice", "JOB_STATE_COMPLETED", 100, some ⟨"video/mp4", cid, 99⟩⟩ ∧
      s.blobs cid = some ("image/png", 12) ∧ ∀ id cid size, ¬ s.Returned id cid size := by
  refine ⟨?_, ?_, ?_⟩
  · decide +kernel
  · decide +kernel
  · rintro id cid size (hmem | ⟨job, u, hrow, -⟩)
    · cases hmem
    · cases hrow

end Example

end MetalBear.Video
