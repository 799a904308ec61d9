import MetalBear.Library.CString
import MetalBear.Repo.BlobStore
import MetalBear.Sync.ListRepos
import MetalBear.Video.Completion

/-!
# Job IDs

A job ID carries the CID and the size of the video that it was returned for, and nothing else is
kept of a job. What an upload returned is read back exactly; of any other text the state, the CID
and the size are those that it carries, and only the CID is looked up.
-/

namespace MetalBear.Video

open CString Job Machine
open Repo (blobCidIsValid)
open Sync (XrpcError)

/-! ## The code -/

/-- `METALBEAR_VIDEO_JOB_PREFIX`. -/
def jobPrefix : String := "vid-"

/-- `video_parse_job_id`: the CID and the size. -/
def videoParseJobId (jobId : String) : Option (String × Int) :=
  if jobPrefix.toList.isPrefixOf (chars jobId) then
    match (strtoll ((chars jobId).drop 4)).rest with
    | '-' :: rest =>
      match rest.dropWhile (· ≠ '-') with
      | [] => none
      | _ :: sizeText =>
        let cid := rest.takeWhile (· ≠ '-')
        let size := strtoll sizeText
        if cid = [] ∨ size.rest ≠ [] ∨ size.value < 0 then none
        else some (String.ofList cid, size.value)
    | _ => none
  else none

/-- The text that `video_upload` and `metalbear_video_upload_finish` print. -/
def jobIdText (time : Int) (cid : String) (size : Nat) : String := s!"vid-{time}-{cid}-{size}"

/-- The blob of a job status. -/
structure VideoBlob where
  mimeType : String
  cid : String
  size : Int
  deriving DecidableEq

/-- `jobStatus`. The size goes out as a double. -/
structure JobStatus where
  jobId : String
  did : String
  state : String
  progress : Nat
  blob : Option VideoBlob
  deriving DecidableEq

/-- The blobs of an account: the type and the length of each. -/
abbrev BlobTable := String → Option (String × Nat)

/-- The status that `video_get_job_status` and `video_upload` put together. -/
def completedStatus (did jobId : String) (blob : Option VideoBlob) : JobStatus :=
  ⟨jobId, did, "JOB_STATE_COMPLETED", 100, blob⟩

/-- `video_get_job_status`; `did` is the hosted account of the request. -/
def videoGetJobStatus (blobs : BlobTable) (did : Option String) (jobId : Option String) :
    Except XrpcError JobStatus :=
  match jobId.bind videoParseJobId with
  | none => .error ⟨404, "NotFound", "job not found"⟩
  | some (cid, size) =>
    match did with
    | none => .error ⟨400, "AccountNotFound", "account is not hosted here"⟩
    | some did =>
      .ok (completedStatus did (jobId.getD "")
        (if blobCidIsValid cid ∧ (blobs cid).isSome then some ⟨"video/mp4", cid, size⟩ else none))

/-- `metalbear_blob_store_put`, with its files written. -/
def putBlob (cid mime : String) (len : Nat) (blobs : BlobTable) : BlobTable :=
  if blobCidIsValid cid then Function.update blobs cid (some (mime, len)) else blobs

/-- What the outside decides while a video is uploaded in one request. -/
structure VideoOutcomes where
  hosted : Bool
  hashes : Bool
  encodes : Bool
  stores : Bool
  time : Int

/-- `video_upload`: what is put into the store and what is returned, the job ID with the CID and the
size. -/
def videoUpload (cidOf : Bytes → String) (body : Bytes) (contentType : Option String)
    (o : VideoOutcomes) : Except XrpcError (String × String × Nat) :=
  let mime := (contentType.filter (· ≠ "")).getD "video/mp4"
  if body.length = 0 then .error ⟨400, "InvalidRequest", "video body is empty"⟩
  else if maxBytes < body.length then
    .error ⟨413, "InvalidRequest", "video exceeds the 300MB upload limit"⟩
  else if mime ≠ "video/mp4" then .error ⟨400, "InvalidRequest", "video must be video/mp4"⟩
  else if o.hosted = false then
    .error ⟨400, "AccountNotFound", "account is not hosted here"⟩
  else if o.hashes = false then
    .error ⟨500, "InternalError", "failed to compute video CID"⟩
  else if o.encodes = false then
    .error ⟨500, "InternalError", "failed to encode video CID"⟩
  else if blobCidIsValid (cidOf body) = false ∨ o.stores = false then
    .error ⟨500, "InternalError", "failed to store video blob"⟩
  else .ok (snprintf 320 (jobIdText o.time (cidOf body) body.length), cidOf body, body.length)

/-! ## The round trip -/

theorem toList_jobIdText (time : Int) (cid : String) (size : Nat) :
    (jobIdText time cid size).toList = jobPrefix.toList ++
      ((toString time).toList ++ '-' :: (cid.toList ++ '-' :: size.repr.toList)) := by
  simp [jobIdText, jobPrefix, String.toList_append, toString]

/-- A valid CID is a text of letters and digits. -/
theorem blobCidIsValid_spec {cid : String} (h : blobCidIsValid cid = true) :
    cid.toList ≠ [] ∧ ∀ c ∈ cid.toList, c ≠ '-' ∧ c ≠ '\x00' := by
  rw [blobCidIsValid, Bool.and_eq_true, bne_iff_ne, List.all_eq_true] at h
  refine ⟨fun hnil => h.1 (String.toList_inj.mp (hnil.trans String.toList_empty.symm)),
    fun c hc => ?_⟩
  have hchar := h.2 c hc
  constructor
  · rintro rfl
    revert hchar
    decide
  · rintro rfl
    revert hchar
    decide

theorem not_nul_of_mem_repr {c : Char} {n : Nat} (hc : c ∈ n.repr.toList) : c ≠ '\x00' := by
  rw [Nat.repr_eq_ofList_toDigits, String.toList_ofList] at hc
  exact (digit_cases (Nat.isDigit_of_mem_toDigits (by decide) (by decide) hc)).2.2.2

theorem not_nul_of_mem_toString {c : Char} {n : Int} (hc : c ∈ (toString n).toList) :
    c ≠ '\x00' := by
  cases n with
  | ofNat m => exact not_nul_of_mem_repr hc
  | negSucc m =>
    rw [show toString (Int.negSucc m) = "-" ++ (m + 1).repr from rfl, String.toList_append,
      List.mem_append] at hc
    rcases hc with hminus | hc
    · rw [List.mem_singleton.mp hminus]
      decide
    · exact not_nul_of_mem_repr hc

theorem chars_jobIdText {cid : String} (hcid : blobCidIsValid cid = true) (time : Int)
    (size : Nat) : chars (jobIdText time cid size) = (jobIdText time cid size).toList := by
  refine List.takeWhile_eq_self_iff.mpr fun c hc => ?_
  rw [decide_eq_true_eq]
  rw [toList_jobIdText, List.mem_append, List.mem_append, List.mem_cons, List.mem_append,
    List.mem_cons] at hc
  rcases hc with hc | hc | rfl | hc | rfl | hc
  · rintro rfl
    revert hc
    decide
  · exact not_nul_of_mem_toString hc
  · decide
  · exact ((blobCidIsValid_spec hcid).2 c hc).2
  · decide
  · exact not_nul_of_mem_repr hc

/-- What a job ID is made from is read back. -/
theorem videoParseJobId_jobIdText {cid : String} (hcid : blobCidIsValid cid = true) (time : Int)
    {size : Nat} (hsize : size < 2 ^ 63) :
    videoParseJobId (jobIdText time cid size) = some (cid, (size : Int)) := by
  obtain ⟨hne, hplain⟩ := blobCidIsValid_spec hcid
  have hdash : ∀ c ∈ cid.toList, (decide (c ≠ '-')) = true := fun c hc => by
    simpa using (hplain c hc).1
  have hprefix : jobPrefix.toList.isPrefixOf (chars (jobIdText time cid size)) = true := by
    rw [chars_jobIdText hcid, toList_jobIdText, List.isPrefixOf_iff_prefix]
    exact List.prefix_append _ _
  have hdrop : (chars (jobIdText time cid size)).drop 4 =
      (toString time).toList ++ '-' :: (cid.toList ++ '-' :: size.repr.toList) := by
    rw [chars_jobIdText hcid, toList_jobIdText]
    exact List.drop_left' rfl
  have hrest : (strtoll ((chars (jobIdText time cid size)).drop 4)).rest =
      '-' :: (cid.toList ++ '-' :: size.repr.toList) := by
    rw [hdrop]
    refine strtoll_toString_rest time fun c hc => ?_
    obtain rfl := Option.some.inj hc
    decide
  have hsizeText : strtoll size.repr.toList = ⟨size, [], false⟩ := by
    have hchars : chars size.repr = size.repr.toList :=
      List.takeWhile_eq_self_iff.mpr fun c hc => by simpa using not_nul_of_mem_repr hc
    rw [← hchars]
    exact strtoll_repr (by omega)
  rw [videoParseJobId, if_pos hprefix, hrest]
  simp only
  rw [List.dropWhile_append_of_pos hdash, List.takeWhile_append_of_pos hdash,
    List.dropWhile_cons_of_neg (by decide), List.takeWhile_cons_of_neg (by decide)]
  simp only [List.append_nil, hsizeText, String.ofList_toList]
  rw [if_neg (by simp [hne])]

/-! ## Buffers -/

theorem utf8Len_eq_length {cs : List Char} (h : ∀ c ∈ cs, c.utf8Size = 1) :
    String.utf8Len cs = cs.length := by
  induction cs with
  | nil => rfl
  | cons c cs ih =>
    rw [List.forall_mem_cons] at h
    rw [String.utf8Len_cons, h.1, ih h.2, List.length_cons]

/-- A text of one-byte characters that is shorter than a buffer is printed whole. -/
theorem snprintf_of_length_lt {size : Nat} {text : String}
    (hone : ∀ c ∈ text.toList, c.utf8Size = 1) (h : text.toList.length < size) :
    snprintf size text = text := by
  rw [snprintf, cut_eq_self_iff.mpr (by rw [utf8Len_eq_length hone]; omega), String.ofList_toList]

theorem utf8Size_of_isDigit {c : Char} (h : c.isDigit = true) : c.utf8Size = 1 := by
  rw [Char.utf8Size_eq_one_iff, UInt32.le_iff_toNat_le]
  have hrange : 48 ≤ c.toNat ∧ c.toNat ≤ 57 := by
    simpa [Char.isDigit, UInt32.le_iff_toNat_le] using h
  exact hrange.2.trans (by decide)

theorem utf8Size_of_mem_repr {c : Char} {n : Nat} (hc : c ∈ n.repr.toList) : c.utf8Size = 1 := by
  rw [Nat.repr_eq_ofList_toDigits, String.toList_ofList] at hc
  exact utf8Size_of_isDigit (Nat.isDigit_of_mem_toDigits (by decide) (by decide) hc)

theorem utf8Size_of_mem_cid {cid : String} (h : blobCidIsValid cid = true) {c : Char}
    (hc : c ∈ cid.toList) : c.utf8Size = 1 := by
  rw [blobCidIsValid, Bool.and_eq_true, List.all_eq_true] at h
  have hchar := of_decide_eq_true (h.2 c hc)
  rw [Char.utf8Size_eq_one_iff]
  rcases hchar with ⟨-, hle⟩ | ⟨-, hle⟩ | ⟨-, hle⟩
  · exact UInt32.le_trans hle (by decide)
  · exact UInt32.le_trans hle (by decide)
  · exact UInt32.le_trans hle (by decide)

/-- The text of a 64-bit integer. -/
theorem toString_int64 {n : Int} (hlow : -2 ^ 63 ≤ n) (hhigh : n < 2 ^ 63) :
    (toString n).toList.length ≤ 20 ∧ ∀ c ∈ (toString n).toList, c.utf8Size = 1 := by
  have hrepr {m : Nat} (hm : m ≤ 2 ^ 63) : m.repr.toList.length ≤ 19 := by
    have := Nat.repr_length m 19 (by decide) (by omega)
    rwa [← String.length_toList] at this
  cases n with
  | ofNat m =>
    have htext : (toString (Int.ofNat m)).toList = m.repr.toList := rfl
    rw [htext]
    have hm : m ≤ 2 ^ 63 := by
      have : (m : Int) < 2 ^ 63 := hhigh
      omega
    exact ⟨(hrepr hm).trans (by decide), fun c hc => utf8Size_of_mem_repr hc⟩
  | negSucc m =>
    have htext : (toString (Int.negSucc m)).toList = '-' :: (m + 1).repr.toList := by
      rw [show toString (Int.negSucc m) = "-" ++ (m + 1).repr from rfl, String.toList_append]
      rfl
    rw [htext]
    have hm : m + 1 ≤ 2 ^ 63 := by omega
    refine ⟨Nat.succ_le_succ (hrepr hm), fun c hc => ?_⟩
    rcases List.mem_cons.mp hc with rfl | hc
    · decide
    · exact utf8Size_of_mem_repr hc

/-- A job ID fits the buffers that it is printed to. -/
theorem snprintf_jobIdText {cid : String} (hcid : blobCidIsValid cid = true)
    (hlength : cid.length ≤ 59) {time : Int} (hlow : -2 ^ 63 ≤ time) (hhigh : time < 2 ^ 63)
    {size : Nat} (hsize : size ≤ maxBytes) {buffer : Nat} (hbuffer : 100 ≤ buffer) :
    snprintf buffer (jobIdText time cid size) = jobIdText time cid size := by
  obtain ⟨htime, htimeOne⟩ := toString_int64 hlow hhigh
  have hrepr : size.repr.toList.length ≤ 9 := by
    have := Nat.repr_length size 9 (by decide) (hsize.trans_lt (by decide))
    rwa [← String.length_toList] at this
  have hcidLength : cid.toList.length ≤ 59 := by rwa [String.length_toList]
  have hprefixOne : ∀ c ∈ ['v', 'i', 'd', '-'], c.utf8Size = 1 := by
    simp only [List.forall_mem_cons]
    exact ⟨rfl, rfl, rfl, rfl, nofun⟩
  refine snprintf_of_length_lt (fun c hc => ?_) ?_
  · rw [toList_jobIdText, List.mem_append, List.mem_append, List.mem_cons, List.mem_append,
      List.mem_cons] at hc
    rcases hc with hc | hc | rfl | hc | rfl | hc
    · exact hprefixOne c hc
    · exact htimeOne c hc
    · rfl
    · exact utf8Size_of_mem_cid hcid hc
    · rfl
    · exact utf8Size_of_mem_repr hc
  · have hprefix : jobPrefix.toList.length = 4 := rfl
    rw [toList_jobIdText]
    simp only [List.length_append, List.length_cons]
    omega

end MetalBear.Video
