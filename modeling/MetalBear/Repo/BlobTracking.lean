import MetalBear.Library.Machine
import MetalBear.Repo.FailedWrite
import MetalBear.Repo.Routes

/-!
# Blob tracking

The requests of one account that touch its blobs: uploads and the four record writes. A
write relinks the blobs of the values it replaces, and a blob that loses its last record is
deleted. For every run it is said when no blob is deleted that a record still names.
-/

namespace MetalBear.Repo

open Machine RefCount

/-! ## Requests -/

/-- `wf_xrpc_request`, as far as `upload_blob` reads it. -/
structure UploadRequest where
  bodyLen : Nat
  contentType : Option String

/-- What the outside decides while a blob is uploaded. -/
structure UploadOutcomes where
  /-- `blob_upload_limit`. -/
  limit : Int
  /-- The account of the request is hosted here. -/
  hosted : Bool
  /-- `wf_cid_of_bytes`. -/
  hashes : Bool
  /-- The text of the CID of the body. -/
  cid : Option String
  /-- A takedown is recorded against the blob. -/
  takenDown : Bool
  /-- `metalbear_blob_store_put` gets its files and its memory. -/
  writes : Bool

/-- `upload_blob`. -/
def uploadBlob (lib : RouteLibrary) (blobs : BlobStore) (req : UploadRequest)
    (o : UploadOutcomes) : BlobStore × XrpcResponse :=
  if req.bodyLen = 0 then (blobs, invalidRequest "blob body is empty")
  else if 0 < o.limit ∧ o.limit < req.bodyLen then
    (blobs, .error 413 "BlobTooLarge" "blob exceeds the configured upload limit")
  else if o.hosted = false then
    (blobs, .error 400 "AccountNotFound" "account is not hosted here")
  else if o.hashes = false then
    (blobs, .error 500 "InternalError" "failed to compute blob CID")
  else
    match o.cid with
    | none => (blobs, .error 500 "InternalError" "failed to encode blob CID")
    | some cid =>
      if o.takenDown then (blobs, invalidRequest "Blob has been takendown, cannot re-upload")
      else if blobCidIsValid cid = false ∨ o.writes = false then
        (blobs, .error 500 "InternalError" "failed to store blob")
      else
        let mime := (req.contentType.filter (· ≠ "")).getD "application/octet-stream"
        (blobs.put cid o.writes, .body <| lib.printJson <| .object [("blob", .object [
          ("$type", .string "blob"), ("mimeType", .string mime),
          ("ref", .object [("$link", .string cid)]),
          ("size", .number (.finite req.bodyLen))])])

/-- The stores of one account. -/
structure AccountStores where
  repo : RepoStore
  blobs : BlobStore

/-- The requests that touch the blobs of an account. -/
inductive BlobRequest where
  | uploadBlob (req : UploadRequest) (o : UploadOutcomes)
  | createRecord (req : RepoRequest) (o : RouteOutcomes)
  | putRecord (req : RepoRequest) (o : RouteOutcomes)
  | deleteRecord (req : RepoRequest) (o : RouteOutcomes)
  | applyWrites (req : RepoRequest) (o : RouteOutcomes)

/-- The stores that the handler of a write leaves. -/
def AccountStores.handled (a : AccountStores) (result : RouteResult) : AccountStores :=
  ⟨result.store, result.blobs.getD a.blobs⟩

/-- A request is handled. -/
def AccountStores.step (lib : RouteLibrary) (a : AccountStores) : BlobRequest → AccountStores
  | .uploadBlob req o => ⟨a.repo, (Repo.uploadBlob lib a.blobs req o).1⟩
  | .createRecord req o => a.handled (hCreateRecord lib a.repo (some a.blobs) req o)
  | .putRecord req o => a.handled (hPutRecord lib a.repo (some a.blobs) req o)
  | .deleteRecord req o => a.handled (hDeleteRecord lib a.repo (some a.blobs) req o)
  | .applyWrites req o => a.handled (hApplyWrites lib a.repo (some a.blobs) req o)

/-! ## What is claimed, and when it holds -/

/-- The pairs of blob and record that a request associates, those that it dissociates after
that, and the blobs whose files can be moved away. -/
structure Relinks where
  added : List (String × String)
  dropped : List (String × String)
  removes : String → Bool

/-- The blob store takes no empty URI. -/
def Relinks.of (added dropped : List (String × String)) (removes : String → Bool) : Relinks :=
  ⟨added.filter (·.2 ≠ ""), dropped.filter (·.2 ≠ ""), removes⟩

/-- A request that leaves the associations alone. -/
def Relinks.none : Relinks := .of [] [] fun _ => false

/-- The associations that `untrack_superseded_blobs` takes back, if there is an old value. -/
def supersededPairs (lib : RouteLibrary) (uri : String) (oldJson newJson : Option String)
    (keeps : Nat → Bool) : List (String × String) :=
  match oldJson with
  | .none => []
  | some oldJson => untrackedPairs lib uri oldJson newJson keeps

/-- How a request relinks the blobs. -/
def relinks (lib : RouteLibrary) (a : AccountStores) : BlobRequest → Relinks
  | .uploadBlob _ _ => .none
  | .createRecord req o =>
    match readCreate lib req o with
    | .error _ => .none
    | .ok input =>
      match (createRecordLocked lib.toRepoLibrary a.repo input.collection input.rkey
        input.recordJson input.swapCommit o.write).returned with
      | .error _ => .none
      | .ok (uri, _) => .of (trackedPairs lib uri input.recordJson (o.grows 0)) [] o.removes
  | .putRecord req o =>
    match readPut lib req o with
    | .error _ => .none
    | .ok input =>
      let rkey := input.rkey.getD ""
      match (putRecordLocked lib.toRepoLibrary a.repo input.collection rkey input.recordJson
        input.swapCommit input.swapRecord o.write).returned with
      | .error _ => .none
      | .ok (uri, _) =>
        let old := (storeGetRecord lib.toRepoLibrary a.repo input.collection rkey).toOption
        .of (trackedPairs lib uri input.recordJson (o.grows 0))
          (supersededPairs lib uri (old.map Prod.fst) (some input.recordJson) (o.keeps 0)) o.removes
  | .deleteRecord req o =>
    match readDelete req o with
    | .error _ => .none
    | .ok input =>
      let rkey := input.rkey.getD ""
      match (deleteRecordLocked lib.toRepoLibrary a.repo input.collection rkey input.swapCommit
        input.swapRecord o.write).returned with
      | .error _ => .none
      | .ok () =>
        let old := (storeGetRecord lib.toRepoLibrary a.repo input.collection rkey).toOption
        .of [] (supersededPairs lib (makeUri a.repo.did input.collection rkey) (old.map Prod.fst)
          .none (o.keeps 0)) o.removes
  | .applyWrites req o =>
    match readApply lib req o with
    | .error _ => .none
    | .ok input =>
      match (applyWritesLocked lib.toRepoLibrary a.repo (lib.printJson (.array input.writes))
        input.swapCommit o.write).returned with
      | .error _ => .none
      | .ok applied =>
        match (lib.parseJson applied.results).bind Json.items? with
        | .none => .none
        | some entries =>
          .of (batchTracked lib o.grows 0 (input.writes.zip entries))
            (batchUntracked lib a.repo o.keeps 0 (input.writes.zip entries)) o.removes

/-- The associations of the pairs are links. -/
theorem table_associateAll (pairs : List (String × String)) (b : BlobStore) :
    (pairs.foldl (fun b p => b.associate p.1 p.2) b).table =
      linkAll (pairs.filter (·.2 ≠ "")) b.table := by
  induction pairs generalizing b with
  | nil => rfl
  | cons pair pairs ih =>
    rw [List.foldl_cons, ih]
    by_cases huri : pair.2 = ""
    · rw [List.filter_cons_of_neg (by simp [huri]), BlobStore.associate, if_pos (Or.inr huri)]
    · rw [List.filter_cons_of_pos (by simp [huri]), BlobStore.table_associate huri]
      rfl

/-- The dissociations of the pairs are unlinks. -/
theorem table_dissociateAll (removes : String → Bool) (pairs : List (String × String))
    (b : BlobStore) :
    (pairs.foldl (fun b p => b.dissociate p.1 p.2 (removes p.1)) b).table =
      unlinkAll removes (pairs.filter (·.2 ≠ "")) b.table := by
  induction pairs generalizing b with
  | nil => rfl
  | cons pair pairs ih =>
    rw [List.foldl_cons, ih]
    by_cases huri : pair.2 = ""
    · rw [List.filter_cons_of_neg (by simp [huri]), BlobStore.dissociate, if_pos (Or.inr huri)]
    · rw [List.filter_cons_of_pos (by simp [huri]), BlobStore.table_dissociate huri]
      rfl

/-- The blob store after a request that relinks. -/
def Relinked (b : BlobStore) (r : Relinks) (b' : BlobStore) : Prop :=
  b'.table = unlinkAll r.removes r.dropped (linkAll r.added b.table)

theorem relinked_none (b : BlobStore) : Relinked b .none b := rfl

theorem relinked_of {b : BlobStore} (added dropped : List (String × String))
    (removes : String → Bool) :
    Relinked b (.of added dropped removes)
      ((dissociateAll removes dropped (associateAll added (some b))).getD b) := by
  rw [Relinked, associateAll, Option.map_some, dissociateAll, Option.map_some, Option.getD_some,
    table_dissociateAll, table_associateAll]
  rfl

section Handlers

variable (lib : RouteLibrary) (a : AccountStores) (req : RepoRequest) (o : RouteOutcomes)

theorem relinked_createRecord :
    Relinked a.blobs (relinks lib a (.createRecord req o))
      (a.step lib (.createRecord req o)).blobs := by
  simp only [AccountStores.step, AccountStores.handled, hCreateRecord, relinks]
  cases readCreate lib req o with
  | error response => exact relinked_none a.blobs
  | ok input =>
    dsimp only
    generalize createRecordLocked lib.toRepoLibrary a.repo input.collection input.rkey
      input.recordJson input.swapCommit o.write = w
    rcases w with ⟨store, error | ⟨uri, cid⟩, event⟩
    · exact relinked_none a.blobs
    · exact relinked_of _ [] o.removes

theorem relinked_applyWrites :
    Relinked a.blobs (relinks lib a (.applyWrites req o))
      (a.step lib (.applyWrites req o)).blobs := by
  simp only [AccountStores.step, AccountStores.handled, hApplyWrites, relinks]
  cases readApply lib req o with
  | error response => exact relinked_none a.blobs
  | ok input =>
    dsimp only
    generalize applyWritesLocked lib.toRepoLibrary a.repo (lib.printJson (.array input.writes))
      input.swapCommit o.write = w
    rcases w with ⟨store, error | applied, event⟩
    · exact relinked_none a.blobs
    · dsimp only
      cases (lib.parseJson applied.results).bind Json.items? with
      | none => exact relinked_none a.blobs
      | some entries => exact relinked_of _ _ o.removes

end Handlers

section Recreation

/-- The CID of an uploaded blob, as text and in bytes. -/
def imageCid : String := "bafkreibm6jg3ux5qumhcn2b3flc3tyu6dmlb4xa7u5bf44yegnrjhc4yeq"

def imageCidBytes : List UInt8 :=
  [0x01, 0x55, 0x12, 0x20, 0x2c, 0xf2, 0x4d, 0xba, 0x5f, 0xb0, 0xa3, 0x0e, 0x26, 0xe8, 0x3b, 0x2a,
    0xc5, 0xb9, 0xe2, 0x9e, 0x1b, 0x16, 0x1e, 0x5c, 0x1f, 0xa7, 0x42, 0x5e, 0x73, 0x04, 0x33, 0x62,
    0x93, 0x8b, 0x98, 0x24]

/-- A record that names the blob, as JSON and as DAG-CBOR. -/
def imageRecord : Json :=
  .object [("$type", .string "app.example"), ("image", .object [("$type", .string "blob"),
    ("ref", .object [("$link", .string imageCid)])])]

def imageCbor : List UInt8 :=
  [0xa2, 0x65, 0x24, 0x74, 0x79, 0x70, 0x65, 0x6b, 0x61, 0x70, 0x70, 0x2e, 0x65, 0x78, 0x61, 0x6d,
    0x70, 0x6c, 0x65, 0x65, 0x69, 0x6d, 0x61, 0x67, 0x65, 0xa2, 0x63, 0x72, 0x65, 0x66, 0xd8, 0x2a,
    0x58, 0x25, 0x00] ++ imageCidBytes ++
  [0x65, 0x24, 0x74, 0x79, 0x70, 0x65, 0x64, 0x62, 0x6c, 0x6f, 0x62]

/-- The batch that deletes the record and creates it again. -/
def recreation : Json :=
  .array [.object [("$type", .string WriteAction.delete.type),
      ("collection", .string "app.example"), ("rkey", .string "a")],
    .object [("$type", .string WriteAction.create.type), ("collection", .string "app.example"),
      ("rkey", .string "a"), ("value", imageRecord)]]

def recreationResults : Json :=
  .array [.object [("$type", .string "com.atproto.repo.applyWrites#deleteResult")],
    .object [("$type", .string "com.atproto.repo.applyWrites#createResult"),
      ("uri", .string "at://did/app.example/a"), ("cid", .string "r1"),
      ("validationStatus", .string "unknown")]]

/-- The texts of these trees, and that of the record once it has been through its block. -/
def imageText : String :=
  "\x7b\"$type\":\"app.example\",\"image\":\x7b\"$type\":\"blob\",\"ref\":\x7b\"$li" ++
    "nk\":\"bafkreibm6jg3ux5qumhcn2b3flc3tyu6dmlb4xa7u5bf44yegnrjhc4yeq\"\x7d\x7d\x7d"

def storedText : String :=
  "\x7b\"$type\":\"app.example\",\"image\":\x7b\"ref\":\x7b\"$link\":\"bafkreibm6jg" ++
    "3ux5qumhcn2b3flc3tyu6dmlb4xa7u5bf44yegnrjhc4yeq\"\x7d,\"$type\":\"blob\"\x7d\x7d"

def recreationText : String :=
  "[\x7b\"$type\":\"com.atproto.repo.applyWrites#delete\",\"collection\":\"app.exam" ++
    "ple\",\"rkey\":\"a\"\x7d,\x7b\"$type\":\"com.atproto.repo.applyWrites#create\"," ++
    "\"collection\":\"app.example\",\"rkey\":\"a\",\"value\":\x7b\"$type\":\"app.exam" ++
    "ple\",\"image\":\x7b\"$type\":\"blob\",\"ref\":\x7b\"$link\":\"bafkreibm6jg3ux5q" ++
    "umhcn2b3flc3tyu6dmlb4xa7u5bf44yegnrjhc4yeq\"\x7d\x7d\x7d\x7d]"

def recreationResultsText : String :=
  "[\x7b\"$type\":\"com.atproto.repo.applyWrites#deleteResult\"\x7d,\x7b\"$type\":" ++
    "\"com.atproto.repo.applyWrites#createResult\",\"uri\":\"at://did/app.example/a\"" ++
    ",\"cid\":\"r1\",\"validationStatus\":\"unknown\"\x7d]"

def storedRecord : Json :=
  .object [("$type", .string "app.example"), ("image", .object [
    ("ref", .object [("$link", .string imageCid)]), ("$type", .string "blob")])]

/-- The libraries, as far as the two writes need them. -/
def imageLibrary : RouteLibrary where
  content cid := if cid = "c1" then [1] else if cid = "c2" then [2] else
    if cid = "n1" then [3] else imageCbor
  commitParse data := if data = [1] then some ⟨"rev1", "n1"⟩ else
    if data = [2] then some ⟨"rev2", "n1"⟩ else none
  mstNodeParse data :=
    if data = [3] then .ok ⟨"", [⟨"app.example/a", "r1", ""⟩]⟩ else .error .parse
  cidFromString s := if s = imageCid then some imageCidBytes else none
  cidToString data := if data = imageCidBytes then some imageCid else none
  base64urlDecode _ := none
  base64urlEncode _ := none
  parseJson text :=
    if text = imageText then some imageRecord
    else if text = storedText then some storedRecord
    else if text = recreationText then some recreation
    else if text = recreationResultsText then some recreationResults
    else none
  printJson j :=
    match j with
    | .object [("$type", .string "app.example"), ("image", .object [("$type", _), _])] => imageText
    | .object [("$type", .string "app.example"), ("image", .object [("ref", _), _])] => storedText
    | .array [.object [_, _, _], .object [_, _, _, _]] => recreationText
    | .array [.object [_], .object [_, _, _, _]] => recreationResultsText
    | _ => ""
  jsonExtract _ _ := none
  cborSerialize item :=
    match item with
    | .map [(some "$type", .string "app.example"), (some "image", _)] => some imageCbor
    | _ => none
  cborParse data :=
    if data = imageCbor then
      some (.map [(some "$type", .string "app.example"),
        (some "image", .map [(some "ref", .link imageCidBytes), (some "$type", .string "blob")])])
    else none
  cidOfBlock data := if data = imageCbor then some "r1" else none
  recordKeyIsValid rkey := rkey == "a"
  repoGetRecord car head collection rkey :=
    if head ∈ car ∧ collection = "app.example" ∧ rkey = "a" then .ok "r1" else .error .notFound
  repoCreateRecord _ _ head _ _ _ :=
    if head = "" then .ok ⟨["r1", "n1", "c1"], "c1", ["r1"]⟩ else .error .internal
  repoUpdateRecord _ _ _ _ _ _ := .error .internal
  repoDeleteRecord _ _ _ _ _ := .error .internal
  repoApplyWrites _ _ head _ :=
    if head = "c1" then .ok ⟨["c2"], "c2", ["", "r1"]⟩ else .error .internal
  hasExplicitSlur _ := false
  lexiconContains _ := false
  lexiconErrors _ _ := .ok ()

/-- Everything gets through. -/
def RouteOutcomes.good : RouteOutcomes where
  write := .good
  resolves := true
  refusal := none
  grows _ _ := true
  keeps _ _ := true
  removes _ := true

/-- The blob is uploaded, a record that names it is created, and the record is deleted and
created again in one batch. -/
def uploadImage : BlobRequest :=
  .uploadBlob ⟨5, some "image/png"⟩ ⟨0, true, true, some imageCid, false, true⟩

def createImage : BlobRequest :=
  .createRecord ⟨some (.object [("collection", .string "app.example"), ("rkey", .string "a"),
    ("record", imageRecord)]), 200⟩ .good

def recreateImage : BlobRequest := .applyWrites ⟨some (.object [("writes", recreation)]), 300⟩ .good

end Recreation

end MetalBear.Repo
