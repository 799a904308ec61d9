import MetalBear.Repo.BlobStore
import MetalBear.Repo.Writes
import MetalBear.Server.Auth

/-!
# Routes of record writes

The handlers of the four XRPC procedures that write records: the checks of the request, the
call of the repository store, and the bookkeeping of blob references after it. The registry
of lexicons and the list of slurs are parameters. Memory for the JSON texts that a handler
builds does not run out.
-/

namespace MetalBear.Repo

open Server (snprintf)

/-! ## Requests and responses -/

/-- `wf_xrpc_request`, as far as the write handlers read it. -/
structure RepoRequest where
  params : Option Json
  bodyLen : Nat

/-- `wf_xrpc_response`: an error, or a JSON body. -/
inductive XrpcResponse where
  | error (status : Nat) (name message : String)
  | body (text : String)
  deriving DecidableEq, Repr

/-- `metalbear_validation_status`. -/
inductive ValidationStatus where
  | unknown
  | valid
  deriving DecidableEq, Repr

/-- What is wrong with a record: no lexicon where one is required, or a violation of it. -/
inductive RecordProblem where
  | unknownLexicon
  | invalid (message : Option String)
  deriving DecidableEq, Repr

/-- What the write handlers call beside the repository store. -/
structure RouteLibrary extends RepoLibrary where
  /-- `metalbear_has_explicit_slur`. -/
  hasExplicitSlur : String → Bool
  /-- `wf_lexicon_registry_contains`. -/
  lexiconContains : String → Bool
  /-- `wf_validate_record`: path and message of the first error, if there is one. -/
  lexiconErrors : String → String → Except (Option (Option String × Option String)) Unit

/-- What the outside decides while a write request is handled. -/
structure RouteOutcomes where
  write : WriteOutcomes
  /-- The resolver finds the account of the request. -/
  resolves : Bool
  /-- What the access guard answers, if it refuses. -/
  refusal : Option XrpcResponse
  /-- There is memory for the association of a reference, by write and by reference. -/
  grows : Nat → Nat → Bool
  /-- There is memory for a reference in the set of those to keep. -/
  keeps : Nat → Nat → Bool
  /-- The files of a blob can be moved away. -/
  removes : String → Bool

/-- The end of a write request. -/
structure RouteResult where
  store : RepoStore
  blobs : Option BlobStore
  response : XrpcResponse

/-! ## Checks -/

/-- A 400 response of the generic name. -/
def invalidRequest (message : String) : XrpcResponse := .error 400 "InvalidRequest" message

/-- `resolve_repo_and_blobs`. -/
def resolveRepoAndBlobs (o : RouteOutcomes) : Except XrpcResponse Unit :=
  if o.resolves = false then
    .error (.error 400 "RepoNotFound" "Repository is not hosted here")
  else
    match o.refusal with
    | some response => .error response
    | none => .ok ()

/-- `METALBEAR_REPO_WRITE_JSON_LIMIT`. -/
def repoWriteJsonLimit : Nat := 1000000

/-- `check_body_size`. -/
def checkBodySize (req : RepoRequest) : Except XrpcResponse Unit :=
  if req.bodyLen ≤ repoWriteJsonLimit then .ok ()
  else .error (.error 413 "PayloadTooLarge" "request entity too large")

/-- The parameters, which have to be an object. -/
def requestBody (req : RepoRequest) : Except XrpcResponse Json :=
  match req.params with
  | some body => if body.isObject then .ok body else .error (invalidRequest "request body required")
  | none => .error (invalidRequest "request body required")

/-- `check_rkey`. -/
def checkRkey (lib : RouteLibrary) (rkey : Option String) : Except XrpcResponse Unit :=
  match rkey.filter (· ≠ "") with
  | none => .ok ()
  | some rkey =>
    if lib.recordKeyIsValid rkey = false then
      .error (invalidRequest (snprintf 320 ("Invalid record key: " ++ rkey)))
    else if lib.hasExplicitSlur rkey then
      .error (invalidRequest "Unacceptable slur in record key")
    else .ok ()

/-- `is_legacy_blob_shape`, for the CID. -/
def legacyBlobShape (j : Json) : Option String :=
  match j, j.getString "cid", j.getString "mimeType" with
  | .object members, some cid, some mime =>
    if mime ≠ "" ∧ members.length = 2 then some cid else none
  | _, _, _ => none

mutual

/-- `find_legacy_blob_ref`. -/
def findLegacyBlobRef : Json → Option String
  | .object members =>
    match legacyBlobShape (.object members) with
    | some cid => some cid
    | none => findLegacyMembers members
  | .array items => findLegacyItems items
  | _ => none

def findLegacyItems : List Json → Option String
  | [] => none
  | j :: rest => (findLegacyBlobRef j).or (findLegacyItems rest)

def findLegacyMembers : List (String × Json) → Option String
  | [] => none
  | (_, j) :: rest => (findLegacyBlobRef j).or (findLegacyMembers rest)

end

/-- `metalbear_validate_record`. -/
def validateRecord (lib : RouteLibrary) (collection recordJson : String) (requireSchema : Bool) :
    Except RecordProblem ValidationStatus :=
  if lib.lexiconContains collection = false then
    if requireSchema then .error .unknownLexicon else .ok .unknown
  else
    match lib.lexiconErrors collection recordJson with
    | .ok () => .ok .valid
    | .error none => .error (.invalid none)
    | .error (some (path, message)) =>
      .error (.invalid (some ("Invalid " ++ collection ++ " record: " ++ path.getD "record" ++ " "
        ++ message.getD "is invalid")))

/-- The `validate` member is the given word, as a boolean or as text. -/
def validateIs (body : Json) (on : Bool) : Bool :=
  match body.getObjectItem "validate" with
  | some (.bool b) => b == on
  | some (.string s) => s == (if on then "true" else "false")
  | _ => false

/-- `check_record`: the status, and whether it is reported. -/
def checkRecord (lib : RouteLibrary) (body : Json) (collection recordJson : String) :
    Except XrpcResponse (ValidationStatus × Bool) :=
  let parsed := lib.parseJson recordJson
  let type := parsed.bind (·.getString "$type")
  if type.any (· ≠ collection) then
    .error (invalidRequest (snprintf 512 ("Invalid $type: expected " ++ collection ++ ", got "
      ++ type.getD "")))
  else
    match parsed.bind findLegacyBlobRef with
    | some cid =>
      .error (invalidRequest (snprintf 320 ("Legacy blobs are not allowed (" ++ cid ++ ")")))
    | none =>
      if validateIs body false then .ok (.unknown, false)
      else
        match validateRecord lib collection recordJson (validateIs body true) with
        | .error .unknownLexicon =>
          .error (invalidRequest (snprintf 512 ("Unknown lexicon type: " ++ collection)))
        | .error (.invalid message) =>
          .error (invalidRequest (message.getD "record failed validation"))
        | .ok status => .ok (status, true)

/-- `set_write_error`. -/
def setWriteError (error : WfError) (context : String) : XrpcResponse :=
  if error.status = .conflict then
    .error 400 "InvalidSwap" "swap CID did not match current value"
  else invalidRequest context

/-! ## Blob references -/

/-- The associations that `track_written_blobs` asks for. -/
def trackedPairs (lib : RouteLibrary) (uri recordJson : String) (grows : Nat → Bool) :
    List (String × String) :=
  match lib.parseJson recordJson with
  | none => []
  | some value =>
    ((blobWalkRefs value).zipIdx.filter fun r : String × Nat => grows r.2).map fun r => (r.1, uri)

/-- The associations that `untrack_superseded_blobs` takes back: those of the old value less
the references that the new one keeps. -/
def untrackedPairs (lib : RouteLibrary) (uri oldJson : String) (newJson : Option String)
    (keeps : Nat → Bool) : List (String × String) :=
  match lib.parseJson oldJson with
  | none => []
  | some old =>
    let keep :=
      match newJson.bind lib.parseJson with
      | none => []
      | some value => ((blobWalkRefs value).zipIdx.filter fun r : String × Nat => keeps r.2).map Prod.fst
    ((blobWalkRefs old).filter fun cid => cid ∉ keep).map fun cid => (cid, uri)

/-- Associate the pairs, if there is a blob store. -/
def associateAll (pairs : List (String × String)) (blobs : Option BlobStore) :
    Option BlobStore :=
  blobs.map fun b => pairs.foldl (fun b p => b.associate p.1 p.2) b

/-- Dissociate the pairs, if there is a blob store. -/
def dissociateAll (removes : String → Bool) (pairs : List (String × String))
    (blobs : Option BlobStore) : Option BlobStore :=
  blobs.map fun b => pairs.foldl (fun b p => b.dissociate p.1 p.2 (removes p.1)) b

/-- `track_written_blobs`. -/
def trackWrittenBlobs (lib : RouteLibrary) (blobs : Option BlobStore) (uri recordJson : String)
    (grows : Nat → Bool) : Option BlobStore :=
  associateAll (trackedPairs lib uri recordJson grows) blobs

/-- `untrack_superseded_blobs`. -/
def untrackSupersededBlobs (lib : RouteLibrary) (blobs : Option BlobStore) (uri : String)
    (oldJson newJson : Option String) (keeps : Nat → Bool) (removes : String → Bool) :
    Option BlobStore :=
  match oldJson with
  | none => blobs
  | some oldJson => dissociateAll removes (untrackedPairs lib uri oldJson newJson keeps) blobs

/-! ## Responses -/

/-- `validation_status_text`. -/
def validationStatusText : ValidationStatus → String
  | .valid => "valid"
  | .unknown => "unknown"

/-- The member for the validation status, if it is reported. -/
def validationMember (status : ValidationStatus × Bool) : List (String × Json) :=
  if status.2 then [("validationStatus", .string (validationStatusText status.1))] else []

/-- `add_commit_meta`. -/
def commitMeta (lib : RouteLibrary) (s : RepoStore) : String × Json :=
  ("commit", .object [("cid", .string s.head),
    ("rev", .string (getEffectiveRev lib.toBlockLibrary s))])

/-! ## createRecord, putRecord and deleteRecord -/

/-- What a write handler reads from its request. -/
structure RecordInput where
  collection : String
  rkey : Option String
  recordJson : String
  swapCommit : Option String
  swapRecord : Option String
  status : ValidationStatus × Bool

/-- The part of `h_create_record` before the store is called. -/
def readCreate (lib : RouteLibrary) (req : RepoRequest) (o : RouteOutcomes) :
    Except XrpcResponse RecordInput := do
  resolveRepoAndBlobs o
  checkBodySize req
  let body ← requestBody req
  match body.getString "collection", body.getObjectItem "record" with
  | some collection, some record => do
    let recordJson := lib.printJson record
    checkRkey lib (body.getString "rkey")
    let status ← checkRecord lib body collection recordJson
    pure ⟨collection, body.getString "rkey", recordJson, body.getString "swapCommit", none, status⟩
  | _, _ => .error (invalidRequest "collection and record required")

/-- `h_create_record`. -/
def hCreateRecord (lib : RouteLibrary) (s : RepoStore) (blobs : Option BlobStore)
    (req : RepoRequest) (o : RouteOutcomes) : RouteResult :=
  match readCreate lib req o with
  | .error response => ⟨s, blobs, response⟩
  | .ok input =>
    let r := createRecordLocked lib.toRepoLibrary s input.collection input.rkey input.recordJson
      input.swapCommit o.write
    match r.returned with
    | .error error => ⟨r.store, blobs, setWriteError error "record creation failed"⟩
    | .ok (uri, cid) =>
      ⟨r.store, trackWrittenBlobs lib blobs uri input.recordJson (o.grows 0),
        .body <| lib.printJson <| .object <| [("uri", .string uri), ("cid", .string cid)] ++
          validationMember input.status ++ [commitMeta lib r.store]⟩

/-- The part of `h_put_record` before the old record is read. -/
def readPut (lib : RouteLibrary) (req : RepoRequest) (o : RouteOutcomes) :
    Except XrpcResponse RecordInput := do
  resolveRepoAndBlobs o
  checkBodySize req
  let body ← requestBody req
  match body.getString "collection", body.getString "rkey", body.getObjectItem "record" with
  | some collection, some rkey, some record => do
    let recordJson := lib.printJson record
    checkRkey lib (some rkey)
    let status ← checkRecord lib body collection recordJson
    pure ⟨collection, some rkey, recordJson, body.getString "swapCommit",
      body.getString "swapRecord", status⟩
  | _, _, _ => .error (invalidRequest "collection, rkey and record required")

/-- `h_put_record`. -/
def hPutRecord (lib : RouteLibrary) (s : RepoStore) (blobs : Option BlobStore)
    (req : RepoRequest) (o : RouteOutcomes) : RouteResult :=
  match readPut lib req o with
  | .error response => ⟨s, blobs, response⟩
  | .ok input =>
    let rkey := input.rkey.getD ""
    let old := (storeGetRecord lib.toRepoLibrary s input.collection rkey).toOption
    let r := putRecordLocked lib.toRepoLibrary s input.collection rkey input.recordJson
      input.swapCommit input.swapRecord o.write
    match r.returned with
    | .error error => ⟨r.store, blobs, setWriteError error "record put failed"⟩
    | .ok (uri, cid) =>
      let tracked := trackWrittenBlobs lib blobs uri input.recordJson (o.grows 0)
      ⟨r.store, untrackSupersededBlobs lib tracked uri (old.map Prod.fst) (some input.recordJson)
          (o.keeps 0) o.removes,
        .body <| lib.printJson <| .object <| [("uri", .string uri), ("cid", .string cid)] ++
          validationMember input.status ++
          (if old.map Prod.snd = some cid then [] else [commitMeta lib r.store])⟩

/-- The part of `h_delete_record` before the old record is read. -/
def readDelete (req : RepoRequest) (o : RouteOutcomes) : Except XrpcResponse RecordInput := do
  resolveRepoAndBlobs o
  let body ← requestBody req
  match body.getString "collection", body.getString "rkey" with
  | some collection, some rkey =>
    pure ⟨collection, some rkey, "", body.getString "swapCommit", body.getString "swapRecord",
      (.unknown, false)⟩
  | _, _ => .error (invalidRequest "collection and rkey required")

/-- `h_delete_record`: a record that is not there counts as deleted. -/
def hDeleteRecord (lib : RouteLibrary) (s : RepoStore) (blobs : Option BlobStore)
    (req : RepoRequest) (o : RouteOutcomes) : RouteResult :=
  match readDelete req o with
  | .error response => ⟨s, blobs, response⟩
  | .ok input =>
    let rkey := input.rkey.getD ""
    let old := (storeGetRecord lib.toRepoLibrary s input.collection rkey).toOption
    let r := deleteRecordLocked lib.toRepoLibrary s input.collection rkey input.swapCommit
      input.swapRecord o.write
    match r.returned with
    | .error error =>
      if error.status = .notFound then ⟨r.store, blobs, .body (lib.printJson (.object []))⟩
      else ⟨r.store, blobs, setWriteError error "record could not be deleted"⟩
    | .ok () =>
      ⟨r.store, untrackSupersededBlobs lib blobs (makeUri s.did input.collection rkey)
          (old.map Prod.fst) none (o.keeps 0) o.removes,
        .body (lib.printJson (.object [commitMeta lib r.store]))⟩

/-! ## applyWrites -/

/-- The element is a create or an update. -/
def isCreateOrUpdate (w : Json) : Bool :=
  match w.getString "$type" with
  | some type => type == WriteAction.create.type || type == WriteAction.update.type
  | none => false

/-- The checks of one element: its validation status, if its record is validated. -/
def checkWrite (lib : RouteLibrary) (body w : Json) :
    Except XrpcResponse (Option (ValidationStatus × Bool)) := do
  checkRkey lib (w.getString "rkey")
  match w.getObjectItem "value", w.getString "collection" with
  | some value, some collection =>
    if isCreateOrUpdate w then
      (checkRecord lib body collection (lib.printJson value)).map some
    else pure none
  | _, _ => pure none

/-- The loop over the elements: a status for each, and whether statuses are reported, on
which the last validated element decides. -/
def checkWrites (lib : RouteLibrary) (body : Json) :
    List Json → Bool → Except XrpcResponse (List ValidationStatus × Bool)
  | [], report => .ok ([], report)
  | w :: rest, report => do
    let checked ← checkWrite lib body w
    let tail ← checkWrites lib body rest ((checked.map Prod.snd).getD report)
    pure ((checked.map Prod.fst).getD .unknown :: tail.1, tail.2)

/-- The value that an update or a delete replaces. -/
def oldValue (lib : RouteLibrary) (s : RepoStore) (w : Json) : Option String :=
  match w.getString "$type", w.getString "collection", w.getString "rkey" with
  | some type, some collection, some rkey =>
    if (type = WriteAction.update.type ∨ type = WriteAction.delete.type) ∧ rkey ≠ "" then
      (storeGetRecord lib.toRepoLibrary s collection rkey).toOption.map Prod.fst
    else none
  | _, _, _ => none

/-- What `h_apply_writes` reads from its request. -/
structure BatchInput where
  writes : List Json
  swapCommit : Option String
  statuses : List ValidationStatus
  report : Bool

/-- The part of `h_apply_writes` before the store is called. -/
def readApply (lib : RouteLibrary) (req : RepoRequest) (o : RouteOutcomes) :
    Except XrpcResponse BatchInput := do
  resolveRepoAndBlobs o
  checkBodySize req
  let body ← requestBody req
  match (body.getObjectItem "writes").bind Json.items? with
  | none => .error (invalidRequest "writes array required")
  | some writes =>
    if 200 < writes.length then .error (invalidRequest "Too many writes. Max: 200")
    else do
      let checked ← checkWrites lib body writes true
      pure ⟨writes, body.getString "swapCommit", checked.1, checked.2⟩

/-- An entry of the results with the validation status of its write. -/
def stitchStatus (report : Bool) (entry : Json) (status : ValidationStatus) : Json :=
  match entry with
  | .object members =>
    if members.any (·.1 == "validationStatus") then
      .object (members.eraseP (·.1 == "validationStatus") ++ validationMember (status, report))
    else entry
  | _ => entry

/-- The associations that the first phase asks for, write by write. -/
def batchTracked (lib : RouteLibrary) (grows : Nat → Nat → Bool) :
    Nat → List (Json × Json) → List (String × String)
  | _, [] => []
  | i, (w, entry) :: rest =>
    (match isCreateOrUpdate w, entry.getString "uri", w.getObjectItem "value" with
      | true, some uri, some value => trackedPairs lib uri (lib.printJson value) (grows i)
      | _, _, _ => []) ++ batchTracked lib grows (i + 1) rest

/-- The associations that one write of the second phase takes back. -/
def batchUntrackedOne (lib : RouteLibrary) (s : RepoStore) (keeps : Nat → Bool) (w entry : Json) :
    List (String × String) :=
  match oldValue lib s w with
  | none => []
  | some old =>
    if w.getString "$type" = some WriteAction.update.type then
      match entry.getString "uri" with
      | some uri =>
        untrackedPairs lib uri old ((w.getObjectItem "value").map lib.printJson) keeps
      | none => []
    else
      match w.getString "collection", w.getString "rkey" with
      | some collection, some rkey =>
        untrackedPairs lib (makeUri s.did collection rkey) old none keeps
      | _, _ => []

/-- The associations that the second phase takes back, write by write. -/
def batchUntracked (lib : RouteLibrary) (s : RepoStore) (keeps : Nat → Nat → Bool) :
    Nat → List (Json × Json) → List (String × String)
  | _, [] => []
  | i, (w, entry) :: rest =>
    batchUntrackedOne lib s (keeps i) w entry ++ batchUntracked lib s keeps (i + 1) rest

/-- `h_apply_writes`. -/
def hApplyWrites (lib : RouteLibrary) (s : RepoStore) (blobs : Option BlobStore)
    (req : RepoRequest) (o : RouteOutcomes) : RouteResult :=
  match readApply lib req o with
  | .error response => ⟨s, blobs, response⟩
  | .ok input =>
    let r := applyWritesLocked lib.toRepoLibrary s (lib.printJson (.array input.writes))
      input.swapCommit o.write
    match r.returned with
    | .error error => ⟨r.store, blobs, setWriteError error "applyWrites failed"⟩
    | .ok applied =>
      let commit := ("commit", Json.object [("cid", .string applied.commitCid),
        ("rev", .string (applied.commitRev.getD ""))])
      match (lib.parseJson applied.results).bind Json.items? with
      | none => ⟨r.store, blobs, .body (lib.printJson (.object [commit]))⟩
      | some entries =>
        let pairs := input.writes.zip entries
        let tracked := associateAll (batchTracked lib o.grows 0 pairs) blobs
        let stitched := List.zipWith (stitchStatus input.report) entries input.statuses ++
          entries.drop input.statuses.length
        ⟨r.store, dissociateAll o.removes (batchUntracked lib s o.keeps 0 pairs) tracked,
          .body (lib.printJson (.object [commit, ("results", .array stitched)]))⟩

end MetalBear.Repo
