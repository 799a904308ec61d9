import MetalBear.Library.Machine

/-!
# Video uploads

The upload sessions of one account: their rows, the part files of each, the store objects through
which the server reaches them, the parts being written and the uploads being finished. What is
kept of one session is a `Job`; a call names the session it is about, and before it looks at it
every session past its time has expired. Whatever a statement, the file system or the random
source answers comes with the call.
-/

namespace MetalBear.Video

abbrev Bytes := List UInt8

/-- `METALBEAR_VIDEO_PART_BYTES`. -/
def partBytes : ℕ := 5000000

/-- `METALBEAR_VIDEO_MAX_BYTES`. -/
def maxBytes : ℕ := 300000000

/-- `METALBEAR_VIDEO_MAX_PARTS`. -/
def maxParts : ℕ := 60

/-- `METALBEAR_VIDEO_MAX_OPEN_UPLOADS`. -/
def maxOpenUploads : ℕ := 4

/-- `METALBEAR_VIDEO_DAILY_BYTES`. -/
def dailyBytes : ℕ := 1073741824

/-- `METALBEAR_VIDEO_DAILY_COUNT`. -/
def dailyCount : ℕ := 100

/-- `kUploadLifetimeSeconds`. -/
def uploadLifetimeSeconds : ℕ := 24 * 60 * 60

/-- `metalbear_video_upload_state`. -/
inductive UploadState where
  | created
  | finishing
  | completed
  | failed
  | aborted
  | expired
  deriving DecidableEq

/-- `metalbear_video_upload_result`. -/
inductive UploadResult where
  | ok
  | notFound
  | expired
  | invalidPart
  | partSizeMismatch
  | notReady
  | failed
  | aborted
  | alreadyCompleted
  | missingParts
  | unsupportedContentType
  | tooLarge
  | dailyLimit
  | tooManyOpen
  | serviceOverloaded
  | invalidRequest
  | internal
  deriving DecidableEq

/-- A row of `video_uploads`. -/
structure Upload where
  sizeBytes : ℕ
  mimeType : String
  partSize : ℕ
  partCount : ℕ
  expiresAt : ℕ
  state : UploadState
  completedJobId : Option String
  cid : Option String
  failureReason : Option String
  createdAt : ℕ
  deriving DecidableEq

/-- `metalbear_video_part_writer`. The nonce makes the temporary path the writer's own: `temporary`
says that the file is still found there, and `body` is what was written to it. -/
structure Writer where
  store : ℕ
  partNumber : ℕ
  expectedSize : ℕ
  written : ℕ
  temporary : Bool
  body : Bytes
  isOpen : Bool
  committed : Bool
  deriving DecidableEq

/-- Where a call of `metalbear_video_upload_finish` stands between its two critical sections. -/
inductive Stage where
  | marked
  | assembling (output part : ℕ) (bytes : Bytes) (validHeader : Bool)
  | assembled (cid : String)
  | settled (result : UploadResult) (cid : String)
  deriving DecidableEq

/-- A call of `metalbear_video_upload_finish` under way, with the status it read. -/
structure Finish where
  store : ℕ
  status : Upload
  stage : Stage
  deriving DecidableEq

/-- What the calls about a session have brought about: a part finished, or a blob put into the
blob store. -/
inductive Report where
  | partFinished (n : ℕ) (body : Bytes)
  | published (cid : String) (bytes : Bytes)
  deriving DecidableEq

/-- One session: its row and its rows of `video_upload_parts`; its directory with the part files and
`assembled.tmp`, which leads to one of the outputs ever opened; the parts that each store object
holds active; the writers and the finish calls; and the history, newest first. -/
structure Job where
  row : Option Upload
  parts : List (ℕ × ℕ)
  directory : Bool
  finals : ℕ → Option Bytes
  assembled : Option ℕ
  outputs : List Bytes
  active : ℕ → List ℕ
  writers : ℕ → Option Writer
  finishes : ℕ → Option Finish
  history : List Report

namespace Job

/-- A session that was never started. -/
def unknown : Job where
  row := none
  parts := []
  directory := false
  finals := fun _ => none
  assembled := none
  outputs := []
  active := fun _ => []
  writers := fun _ => none
  finishes := fun _ => none
  history := []

/-- `UPDATE video_uploads SET ... WHERE` of the row of this session. -/
def updateRow (p : Upload → Bool) (f : Upload → Upload) (j : Job) : Job :=
  { j with row := j.row.map fun u => if p u then f u else u }

/-- What `remove_all` gets to remove. -/
structure Removal where
  finals : ℕ → Bool
  temporaries : ℕ → Bool
  assembled : Bool
  directory : Bool

/-- `remove_all` of the directory of the session. Open files go on without their names. -/
def removeAll (r : Removal) (j : Job) : Job :=
  { j with
    finals := fun n => if r.finals n then none else j.finals n
    writers := fun w => (j.writers w).map fun x =>
      if r.temporaries w then { x with temporary := false } else x
    assembled := if r.assembled then none else j.assembled
    directory := j.directory && !r.directory }

/-- The answers to `expire_sessions_locked` as far as this session goes: whether and when the
`SELECT` came to its row, when the `UPDATE` ran if it did, and what was removed. -/
structure Expiry where
  selected : Option ℕ
  updated : Option ℕ
  removal : Removal

/-- The session is open past its time. -/
def overdue (now : Option ℕ) (u : Upload) : Bool :=
  u.state = .created && now.any fun now => u.expiresAt ≤ now

/-- `expire_sessions_locked`. -/
def expire (e : Expiry) (j : Job) : Job :=
  let updated := j.updateRow (overdue e.updated) ({ · with state := .expired })
  if j.row.any (overdue e.selected) then updated.removeAll e.removal else updated

/-- The part numbers of the session, in order and as many as the status holds. -/
def receivedParts (j : Job) : List ℕ :=
  ((j.parts.map Prod.fst).mergeSort (· ≤ ·)).take maxParts

/-- `state_result`. -/
def stateResult (u : Upload) : UploadResult :=
  match u.state with
  | .created => .ok
  | .finishing => .notReady
  | .completed => .alreadyCompleted
  | .failed => .failed
  | .aborted => .aborted
  | .expired => .expired

/-- `load_status_locked`, whose `SELECT` may fail. -/
def loadStatus (loads : Bool) (j : Job) : Option Upload := if loads then j.row else none

/-! ## Parts -/

/-- The answers to `metalbear_video_upload_part_begin`. Where `registers` fails, the exception
leaves the part active without a writer. -/
structure Beginning where
  loads : Bool
  registers : Bool
  allocates : Bool
  randomizes : Bool
  opens : Bool

/-- The size that a part must have. -/
def expectedSize (u : Upload) (n : ℕ) : ℕ :=
  if n = u.partCount then u.sizeBytes - (n - 1) * u.partSize else u.partSize

/-- `metalbear_video_upload_part_begin` under the lock. -/
def partBegin (store w n contentLength : ℕ) (e : Beginning) (j : Job) : Job × UploadResult :=
  match j.loadStatus e.loads with
  | none => (j, .notFound)
  | some u =>
    if stateResult u ≠ .ok then (j, stateResult u)
    else if n = 0 ∨ u.partCount < n then (j, .invalidPart)
    else if contentLength ≠ expectedSize u n then (j, .partSizeMismatch)
    else if n ∈ j.active store then (j, .notReady)
    else
      let active := Function.update j.active store (n :: j.active store)
      if !e.registers then ({ j with active := active }, .internal)
      else if !e.allocates || !e.randomizes then (j, .internal)
      else if !e.opens || !j.directory then (j, .serviceOverloaded)
      else ({ j with
        active := active
        writers := Function.update j.writers w (some {
          store := store, partNumber := n, expectedSize := expectedSize u n, written := 0
          temporary := true, body := [], isOpen := true, committed := false }) }, .ok)

/-- `metalbear_video_upload_part_write`, where `fwrite` takes so many bytes. -/
def partWrite (w : ℕ) (data : Bytes) (taken : ℕ) (j : Job) : Job × UploadResult :=
  match j.writers w with
  | none => (j, .invalidRequest)
  | some x =>
    if !x.isOpen then (j, .invalidRequest)
    else if x.expectedSize < x.written ∨ x.expectedSize - x.written < data.length then
      (j, .partSizeMismatch)
    else
      let body := x.body ++ data.take taken
      if taken < data.length then
        ({ j with writers := Function.update j.writers w (some { x with body := body }) },
          .serviceOverloaded)
      else
        let taken := { x with body := body, written := x.written + data.length }
        ({ j with writers := Function.update j.writers w (some taken) }, .ok)

/-- The answers to `metalbear_video_upload_part_finish`. -/
structure PartFinishing where
  closes : Bool
  loads : Bool
  renames : Bool
  inserts : Bool

/-- `INSERT OR REPLACE INTO video_upload_parts`. -/
def insertPart (n size : ℕ) (parts : List (ℕ × ℕ)) : List (ℕ × ℕ) :=
  parts.filter (·.1 ≠ n) ++ [(n, size)]

/-- The critical section of `metalbear_video_upload_part_finish`. -/
def partCommit (w : ℕ) (x : Writer) (e : PartFinishing) (j : Job) : Job × UploadResult :=
  match j.loadStatus e.loads with
  | none => (j, .notFound)
  | some u =>
    if stateResult u ≠ .ok then (j, stateResult u)
    else if !e.renames || !x.temporary then (j, .serviceOverloaded)
    else
      let finals := Function.update j.finals x.partNumber (some x.body)
      let moved := { x with temporary := false }
      if !e.inserts then
        ({ j with finals := finals, writers := Function.update j.writers w (some moved) }, .internal)
      else
        ({ j with
          finals := finals
          writers := Function.update j.writers w (some { moved with committed := true })
          parts := insertPart x.partNumber x.written j.parts
          history := .partFinished x.partNumber x.body :: j.history }, .ok)

/-- `metalbear_video_upload_part_finish`. -/
def partFinish (w : ℕ) (e : PartFinishing) (j : Job) : Job × UploadResult :=
  match j.writers w with
  | none => (j, .invalidRequest)
  | some x =>
    if !x.isOpen then (j, .invalidRequest)
    else if x.written ≠ x.expectedSize then (j, .partSizeMismatch)
    else
      let closed := { x with isOpen := false }
      let j := { j with writers := Function.update j.writers w (some closed) }
      if !e.closes then (j, .serviceOverloaded) else j.partCommit w closed e

/-- `metalbear_video_upload_part_free`. Where `erases` fails, the part stays active. -/
def partFree (w : ℕ) (erases : Bool) (j : Job) : Job :=
  match j.writers w with
  | none => j
  | some x =>
    { j with
      writers := Function.update j.writers w none
      active := if erases then
        Function.update j.active x.store ((j.active x.store).filter (· ≠ x.partNumber))
      else j.active }

/-! ## Finishing -/

/-- The parts that the text of `MissingParts` names. -/
def missingFrom : List ℕ → List ℕ → List ℕ
  | [], _ => []
  | part :: rest, [] => part :: missingFrom rest []
  | part :: rest, n :: received =>
    if n = part then missingFrom rest received else part :: missingFrom rest (n :: received)

/-- The answers to the first critical section of `metalbear_video_upload_finish`. -/
structure Marking where
  loads : Bool
  prepares : Bool
  updates : Bool

/-- The first critical section of `metalbear_video_upload_finish`: the result and the missing parts,
or the call goes on. -/
def finishMark (store call : ℕ) (e : Marking) (j : Job) : Job × Option (UploadResult × List ℕ) :=
  match j.loadStatus e.loads with
  | none => (j, some (.notFound, []))
  | some u =>
    if u.state = .completed then (j, some (.ok, []))
    else if stateResult u ≠ .ok then (j, some (stateResult u, []))
    else if j.active store ≠ [] then (j, some (.notReady, []))
    else if j.receivedParts.length ≠ u.partCount then
      (j, some (.missingParts, missingFrom (List.range' 1 u.partCount) j.receivedParts))
    else if !e.prepares then (j, some (.internal, []))
    else if !e.updates then (j, some (.notReady, []))
    else
      let marked := j.updateRow (·.state = .created) ({ · with state := .finishing })
      ({ marked with finishes := Function.update j.finishes call (some ⟨store, u, .marked⟩) }, none)

/-- The call goes on to another stage. -/
def setStage (call : ℕ) (f : Finish) (stage : Stage) (j : Job) : Job :=
  { j with finishes := Function.update j.finishes call (some { f with stage := stage }) }

/-- The call has a result: `assembled.tmp` is removed before the second critical section. -/
def settle (call : ℕ) (f : Finish) (result : UploadResult) (cid : String) (j : Job) : Job :=
  { j.setStage call f (.settled result cid) with assembled := none }

/-- `fopen` of `assembled.tmp` for writing: an output that is there is emptied. -/
def finishOpen (call : ℕ) (opens : Bool) (j : Job) : Job :=
  match j.finishes call with
  | some ⟨store, u, .marked⟩ =>
    if !opens || !j.directory then j.settle call ⟨store, u, .marked⟩ .serviceOverloaded ""
    else
      match j.assembled with
      | some o =>
        { j.setStage call ⟨store, u, .marked⟩ (.assembling o 1 [] false) with
          outputs := j.outputs.set o [] }
      | none =>
        { j.setStage call ⟨store, u, .marked⟩ (.assembling j.outputs.length 1 [] false) with
          outputs := j.outputs ++ [[]], assembled := some j.outputs.length }
  | _ => j

/-- What writing at an offset leaves of a file. -/
def overwrite (content : Bytes) (offset : ℕ) (data : Bytes) : Bytes :=
  (content ++ List.replicate (offset - content.length) 0).take offset ++ data ++
    content.drop (offset + data.length)

/-- `ftyp` in the fifth to the eighth byte. -/
def hasFtyp (data : Bytes) : Bool := (data.drop 4).take 4 == [102, 116, 121, 112]

/-- How the reading of a part ends. -/
inductive PartReading where
  | unopened
  | broken
  | whole

/-- The result of `assemble_upload` once its output is closed. -/
def closedResult (u : Upload) (bytes : Bytes) (validHeader : Bool) (result : UploadResult)
    (closes : Bool) : UploadResult :=
  let result := if bytes.length ≠ u.sizeBytes then .internal else result
  let result := if closes then result else .internal
  if result = .ok ∧ validHeader = false then .unsupportedContentType else result

/-- What `assemble_upload` makes of the bytes it has read. The CID is that of the bytes, where
Wolfram could compute it. -/
def assembleResult (u : Upload) (bytes : Bytes) (validHeader : Bool) (result : UploadResult)
    (closes : Bool) (cid : Option String) : Except UploadResult String :=
  if closedResult u bytes validHeader result closes ≠ .ok then
    .error (closedResult u bytes validHeader result closes)
  else
    match cid with
    | none => .error .internal
    | some cid => .ok cid

/-- `assemble_upload` leaves its loop with a result. -/
def finishClose (call : ℕ) (f : Finish) (bytes : Bytes) (validHeader : Bool)
    (result : UploadResult) (closes : Bool) (cid : Option String) (j : Job) : Job :=
  match assembleResult f.status bytes validHeader result closes cid with
  | .error result => j.settle call f result ""
  | .ok cid => j.setStage call f (.assembled cid)

/-- The next round of the loop in `assemble_upload`, or its end. A part is opened and read by
its path, and its first chunk shows the header where nothing was read before. -/
def finishRead (cidOf : Bytes → String) (call : ℕ) (reading : PartReading) (closes encodes : Bool)
    (j : Job) : Job :=
  match j.finishes call with
  | some ⟨store, u, .assembling o part bytes header⟩ =>
    let f : Finish := ⟨store, u, .assembling o part bytes header⟩
    let cid := if encodes then some (cidOf bytes) else none
    if u.partCount < part then j.finishClose call f bytes header .ok closes cid
    else
      match reading, j.finals part with
      | .unopened, _ => j.finishClose call f bytes header .serviceOverloaded closes cid
      | _, none => j.finishClose call f bytes header .serviceOverloaded closes cid
      | .broken, some _ => j.finishClose call f bytes header .internal closes cid
      | .whole, some body =>
        if u.sizeBytes < bytes.length + body.length then
          j.finishClose call f bytes header .internal closes cid
        else
          let header := if bytes = [] ∧ 12 ≤ body.length then hasFtyp body else header
          { j.setStage call f (.assembling o (part + 1) (bytes ++ body) header) with
            outputs := j.outputs.set o (overwrite (j.outputs.getD o []) bytes.length body) }
  | _ => j

/-- How `metalbear_blob_store_put_file` ends: the blob is in the store, it is not, or the payload
got its name before the call failed. -/
inductive Putting where
  | put
  | refused
  | stranded

/-- `metalbear_blob_store_put_file` of `assembled.tmp`, and its removal. -/
def finishPut (call : ℕ) (p : Putting) (j : Job) : Job :=
  match j.finishes call with
  | some ⟨store, u, .assembled cid⟩ =>
    let f : Finish := ⟨store, u, .assembled cid⟩
    match j.assembled.map (j.outputs.getD · []) with
    | none => j.settle call f .serviceOverloaded cid
    | some content =>
      if content.length ≠ u.sizeBytes then j.settle call f .serviceOverloaded cid
      else
        match p with
        | .refused => j.settle call f .serviceOverloaded cid
        | .stranded =>
          { j.settle call f .serviceOverloaded cid with
            history := .published cid content :: j.history }
        | .put =>
          { j.settle call f .ok cid with history := .published cid content :: j.history }
  | _ => j

/-- The answers to the second critical section of `metalbear_video_upload_finish`. -/
structure Settling where
  now : ℕ
  updates : Bool
  removal : Removal

/-- The second critical section of `metalbear_video_upload_finish`. -/
def finishSettle (call : ℕ) (e : Settling) (j : Job) : Job :=
  match j.finishes call with
  | some ⟨_, u, .settled result cid⟩ =>
    let j := { j with finishes := Function.update j.finishes call none }
    if !e.updates then j
    else
      match result with
      | .ok =>
        (j.updateRow (fun _ => true) ({ · with
          state := .completed
          completedJobId := some s!"vid-{e.now}-{cid}-{u.sizeBytes}"
          cid := some cid
          failureReason := none })).removeAll e.removal
      | .unsupportedContentType =>
        j.updateRow (fun _ => true) ({ · with
          state := .failed
          failureReason := some "assembled object is not video/mp4" })
      | _ => j.updateRow (·.state = .finishing) ({ · with state := .created })
  | _ => j

/-- An exception ends `metalbear_video_upload_finish` before its second critical section has its
`UPDATE`. -/
def finishThrow (call : ℕ) (resets : Bool) (j : Job) : Job :=
  match j.finishes call with
  | none => j
  | some _ =>
    let j := { j with finishes := Function.update j.finishes call none }
    if resets then j.updateRow (·.state = .finishing) ({ · with state := .created }) else j

/-! ## Aborting -/

/-- The answers to `metalbear_video_upload_abort`. -/
structure Aborting where
  loads : Bool
  updates : Bool
  removal : Removal
  deletes : Bool

/-- `metalbear_video_upload_abort` under the lock. -/
def abort (store : ℕ) (e : Aborting) (j : Job) : Job × UploadResult :=
  match j.loadStatus e.loads with
  | none => (j, .notFound)
  | some u =>
    if u.state = .finishing ∨ j.active store ≠ [] then (j, .notReady)
    else if u.state = .created then
      if !e.updates then (j, .internal)
      else
        let j := (j.updateRow (·.state = .created) ({ · with state := .aborted })).removeAll e.removal
        ({ j with parts := if e.deletes then [] else j.parts }, .ok)
    else (j, .ok)

/-! ## Opening and restarting -/

/-- `UPDATE video_uploads SET state=0 WHERE state=1`. -/
def reset (j : Job) : Job := j.updateRow (·.state = .finishing) ({ · with state := .created })

/-- The process ends: the rows, the files and the history stay. -/
def crash (j : Job) : Job :=
  { j with active := fun _ => [], writers := fun _ => none, finishes := fun _ => none }

end Job

/-! ## The store -/

/-- The sessions of an account, the order of their rows, and the store objects that are open. -/
structure Uploads where
  jobs : String → Job
  ids : List String
  stores : ℕ → Bool

namespace Uploads

/-- A new account. -/
def initial : Uploads := ⟨fun _ => .unknown, [], fun _ => false⟩

/-- `expire_sessions_locked`. -/
def expire (e : String → Job.Expiry) (s : Uploads) : Uploads :=
  { s with jobs := fun id => (s.jobs id).expire (e id) }

/-- The session after a call about it. -/
def set (id : String) (j : Job) (s : Uploads) : Uploads :=
  { s with jobs := Function.update s.jobs id j }

/-- The rows that count towards the limits at a time. -/
def counted (now : ℕ) (s : Uploads) : List Upload :=
  (s.ids.filterMap fun id => (s.jobs id).row).filter fun u =>
    (u.state = .created ∨ u.state = .finishing ∨ u.state = .completed) ∧ now < u.createdAt + 86400

/-- `limits_locked`: the bytes and the videos that remain, and the open uploads. -/
def limits (now : Option ℕ) (s : Uploads) : ℕ × ℕ × ℕ :=
  let rows := (now.map fun now => s.counted now).getD []
  (dailyBytes - (rows.map Upload.sizeBytes).sum, dailyCount - rows.length,
    rows.countP fun u => u.state = .created ∨ u.state = .finishing)

/-- The answers to `metalbear_video_upload_start`. -/
structure Starting where
  expiry : String → Job.Expiry
  counts : Option ℕ
  now : ℕ
  jobId : Option String
  inserts : Bool
  makesDirectory : Bool
  deletes : Bool

/-- The row that `metalbear_video_upload_start` inserts. -/
def startRow (sizeBytes now : ℕ) (mimeType : String) : Upload where
  sizeBytes := sizeBytes
  mimeType := mimeType
  partSize := partBytes
  partCount := (sizeBytes + partBytes - 1) / partBytes
  expiresAt := now + uploadLifetimeSeconds
  state := .created
  completedJobId := none
  cid := none
  failureReason := none
  createdAt := now

/-- `INSERT INTO video_uploads`, which the primary key refuses where there is a row, and the
directory of the session. -/
def insertSession (id : String) (u : Upload) (e : Starting) (s : Uploads) :
    Uploads × UploadResult :=
  if !e.inserts || (s.jobs id).row.isSome then (s, .serviceOverloaded)
  else if e.makesDirectory then
    ({ s.set id { s.jobs id with row := some u, directory := true } with ids := s.ids ++ [id] }, .ok)
  else if e.deletes then (s, .serviceOverloaded)
  else ({ s.set id { s.jobs id with row := some u } with ids := s.ids ++ [id] }, .serviceOverloaded)

/-- `metalbear_video_upload_start`, whose name is a text of so many bytes if there is one. -/
def start (sizeBytes : ℕ) (mimeType : String) (name : Option ℕ) (e : Starting) (s : Uploads) :
    Uploads × UploadResult :=
  if sizeBytes = 0 then (s, .invalidRequest)
  else if maxBytes < sizeBytes then (s, .tooLarge)
  else if mimeType ≠ "video/mp4" then (s, .unsupportedContentType)
  else if name.any (256 < ·) then (s, .invalidRequest)
  else
    let s := s.expire e.expiry
    let (remainingBytes, remainingVideos, isOpen) := s.limits e.counts
    if maxOpenUploads ≤ isOpen then (s, .tooManyOpen)
    else if remainingVideos = 0 ∨ remainingBytes < sizeBytes then (s, .dailyLimit)
    else
      match e.jobId with
      | none => (s, .internal)
      | some id => s.insertSession id (startRow sizeBytes e.now mimeType) e

/-- `metalbear_video_upload_store_open`: the store object, the sessions left finishing reset, and
those past their time expired. -/
def storeOpen (store : ℕ) (e : String → Job.Expiry) (s : Uploads) : Uploads :=
  if s.stores store then s
  else
    expire e { s with
      jobs := fun id => (s.jobs id).reset
      stores := Function.update s.stores store true }

/-- `metalbear_video_upload_store_free`, which the account cache calls for a context that nobody
holds. -/
def storeFree (store : ℕ) (s : Uploads) : Uploads :=
  { s with
    stores := Function.update s.stores store false
    jobs := fun id => { s.jobs id with active := Function.update (s.jobs id).active store [] } }

/-- The process ends. -/
def restart (s : Uploads) : Uploads :=
  { s with jobs := fun id => (s.jobs id).crash, stores := fun _ => false }

end Uploads

end MetalBear.Video
