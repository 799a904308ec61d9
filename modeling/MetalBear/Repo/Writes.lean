import MetalBear.Json.Cbor
import MetalBear.Repo.Store

/-!
# Record writes

The four writes of the repository store and its reads of one record: the checks that come
before anything changes, the new commit that the repository library builds, and what happens
once `commit_persist` has returned. The library's own work on trees and commits is a
parameter, and so are the JSON and CBOR parsers and SQLite's `json_extract`.
-/

namespace MetalBear.Repo

/-! ## Libraries -/

/-- `wf_repo_write_action`. -/
inductive WriteAction where
  | create
  | update
  | delete
  deriving DecidableEq, Repr

/-- `wf_repo_write`, with the JSON text that the store keeps beside it. -/
structure RepoWrite where
  action : WriteAction
  collection : String
  rkey : String
  recordCbor : List UInt8
  value : String
  deriving DecidableEq, Repr

/-- What a write of the repository library adds: blocks, the new commit, and the CID of
each written record. A write that fails adds nothing. -/
structure RepoCommit where
  blocks : List Cid
  commit : Cid
  records : List Cid
  deriving DecidableEq, Repr

/-- The library functions that record writes are made of. The clock, from which the library
takes the rev of a new commit, is the first argument of each. -/
structure RepoLibrary extends BlockLibrary, CborText where
  /-- `cJSON_Parse`. -/
  parseJson : String → Option Json
  /-- `cJSON_PrintUnformatted`. -/
  printJson : Json → String
  /-- `json_extract` of SQLite, where it gives text. -/
  jsonExtract : String → String → Option String
  /-- `wf_cbor_serialize`. -/
  cborSerialize : CborItem → Option (List UInt8)
  /-- `wf_cbor_parse`. -/
  cborParse : List UInt8 → Option CborItem
  /-- `wf_cid_of_block`. -/
  cidOfBlock : List UInt8 → Option Cid
  /-- `wf_syntax_record_key_is_valid`. -/
  recordKeyIsValid : String → Bool
  /-- `wf_repo_get_record`, for the CID of the record. -/
  repoGetRecord : List Cid → Cid → String → String → Except WfError Cid
  /-- `wf_repo_create_record`: CAR, previous commit, collection, key, body. -/
  repoCreateRecord : Nat → List Cid → Cid → String → String → List UInt8 →
    Except WfError RepoCommit
  /-- `wf_repo_update_record`. -/
  repoUpdateRecord : Nat → List Cid → Cid → String → String → List UInt8 →
    Except WfError RepoCommit
  /-- `wf_repo_delete_record`. -/
  repoDeleteRecord : Nat → List Cid → Cid → String → String → Except WfError RepoCommit
  /-- `wf_repo_apply_writes`. -/
  repoApplyWrites : Nat → List Cid → Cid → List RepoWrite → Except WfError RepoCommit

/-! ## Outcomes and events -/

/-- What becomes of the SELECT of an export. -/
structure ExportOutcome where
  prepares : Bool
  /-- The number of rows after which it fails, if it does. -/
  failsAfter : Option Nat

/-- What the outside decides while a record is written. -/
structure WriteOutcomes where
  clock : Nat
  /-- The TIDs that `wf_tid_now` mints, one after the other. -/
  tids : Nat → Option String
  /-- The number of rows after which the search for backlink conflicts fails, if it does. -/
  conflictsFailAfter : Option Nat
  persist : PersistOutcomes
  /-- The statements that bring the `records` table in line. -/
  indexes : Nat → Bool
  /-- The allocations between `commit_persist` and the return, in their order. -/
  allocates : Nat → Bool
  exportOutcome : ExportOutcome

/-- `metalbear_repo_store_op`. -/
structure RepoOp where
  action : WriteAction
  collection : String
  rkey : String
  cid : Option Cid
  prev : Option Cid
  deriving DecidableEq, Repr

/-- `metalbear_repo_store_event` of the commit kind. -/
structure CommitEvent where
  commitCid : Cid
  rev : String
  since : Option String
  prevData : Option Cid
  ops : List RepoOp
  blocks : List Cid
  deriving DecidableEq, Repr

/-- The end of a write: the store, what is returned, and what the event callback is given. -/
structure WriteResult (α : Type) where
  store : RepoStore
  returned : Except WfError α
  event : Option CommitEvent

/-- A write that fails before it changes anything. -/
def WriteResult.failed {α : Type} (s : RepoStore) (error : WfError) : WriteResult α :=
  ⟨s, .error error, none⟩

/-- The status that the call returns. -/
def WriteResult.status {α : Type} (r : WriteResult α) : WfStatus :=
  match r.returned with
  | .ok _ => .ok
  | .error error => error.status

/-! ## Small helpers -/

/-- `make_uri`. -/
def makeUri (did collection rkey : String) : String :=
  "at://" ++ did ++ "/" ++ collection ++ "/" ++ rkey

/-- `check_swap`. -/
def checkSwap (requested : Option String) (current : String) : Except WfError Unit :=
  match requested with
  | none => .ok ()
  | some cid => if cid = "" ∨ cid = current then .ok () else .error .conflict

/-- A check that ends a write with an error. -/
def refuseIf (p : Prop) [Decidable p] (error : WfError) : Except WfError Unit :=
  if p then .error error else .ok ()

/-- `record_type_matches`. -/
def recordTypeMatches (lib : RepoLibrary) (recordJson collection : String) : Bool :=
  match (lib.parseJson recordJson).bind fun root => root.getString "$type" with
  | some type => type == collection
  | none => true

/-- `encode_record_json`. -/
def encodeRecordJson (lib : RepoLibrary) (recordJson : String) : Except WfError (List UInt8) :=
  match lib.parseJson recordJson with
  | none => .error .invalidArg
  | some root =>
    if root.isObject = false ∨ (root.getObjectItem "$type").isNone then .error .invalidArg
    else
      match cborFromJson lib.toCborText root with
      | none => .error .invalidArg
      | some item =>
        match lib.cborSerialize item with
        | some cbor => .ok cbor
        | none => .error .alloc

/-- `get_record_cbor`, for the CID of the record. -/
def getRecordCbor (lib : RepoLibrary) (s : RepoStore) (collection rkey : String) :
    Except WfError Cid :=
  if s.head = "" then .error .notFound else lib.repoGetRecord s.car s.head collection rkey

/-- `metalbear_repo_store_get_record`: the JSON text and the CID of the record. -/
def storeGetRecord (lib : RepoLibrary) (s : RepoStore) (collection rkey : String) :
    Except WfError (String × Cid) :=
  if collection = "" ∨ rkey = "" then .error .invalidArg
  else
    match getRecordCbor lib s collection rkey with
    | .error error => .error error
    | .ok cid =>
      match (lib.cborParse (lib.content cid)).bind (cborToJson lib.toCborText) with
      | none => .error .parse
      | some j => .ok (lib.printJson j, cid)

/-! ## The record index -/

/-- `index_upsert_record`. -/
def indexUpsertRecord (lib : RepoLibrary) (s : RepoStore) (collection rkey : String) (cid : Cid)
    (value : String) (writes : Bool) : RepoStore :=
  let rev := ((parseCommitAt lib.toBlockLibrary s s.head).map Commit.rev).filter (· ≠ "")
  if writes then { s with db := s.db.write (.upsertRecord ⟨collection, rkey, cid, value, rev⟩) }
  else s

/-- `index_delete_record`. -/
def indexDeleteRecord (s : RepoStore) (collection rkey : String) (writes : Bool) : RepoStore :=
  if writes then { s with db := s.db.write (.deleteRecord collection rkey) } else s

/-! ## Exports and events -/

/-- The order of the export: by rev, then by CID, the largest first and NULL last. -/
def exportsBefore (a b : BlockRow) : Bool :=
  match a.repoRev, b.repoRev with
  | some x, some y => y < x || (x == y && !(a.cid < b.cid))
  | some _, none => true
  | none, some _ => false
  | none, none => !(a.cid < b.cid)

/-- The rows of the export: those with a rev past the given one, or all. -/
def exportRows (t : Tables) (since : Option String) : List BlockRow :=
  let rows :=
    match since.filter (· ≠ "") with
    | some rev => t.blocks.filter fun (row : BlockRow) => row.repoRev.any (rev < ·)
    | none => t.blocks
  rows.mergeSort exportsBefore

/-- `metalbear_repo_store_export_locked`, for the blocks of the CAR. -/
def exportLocked (s : RepoStore) (since : Option String) (o : ExportOutcome) :
    Except WfError (List Cid) :=
  if s.head = "" then .error .notFound
  else if o.prepares = false then .error .internal
  else
    let rows := exportRows s.db.view since
    let rows := match o.failsAfter with
      | some n => rows.take n
      | none => rows
    if rows.all fun row => row.cid ∈ s.car then .ok (rows.map BlockRow.cid)
    else .error .notFound

/-- `emit_commit_event_ops`: the event, if there is one to give. -/
def emitCommitEventOps (lib : RepoLibrary) (s : RepoStore) (oldHead : Cid) (ops : List RepoOp)
    (o : ExportOutcome) : Option CommitEvent := do
  let current ← parseCommitAt lib.toBlockLibrary s s.head
  let previous := parseCommitAt lib.toBlockLibrary s oldHead
  let since := previous.map Commit.rev
  let blocks ← (exportLocked s since o).toOption
  some ⟨s.head, current.rev, since, previous.map Commit.data, ops, blocks⟩

/-! ## applyWrites -/

/-- The action of an `applyWrites` element. -/
def writeActionOf (type : String) : Option WriteAction :=
  if type = "com.atproto.repo.applyWrites#create" then some .create
  else if type = "com.atproto.repo.applyWrites#update" then some .update
  else if type = "com.atproto.repo.applyWrites#delete" then some .delete
  else none

/-- The `$type` of an element that stands for the action. -/
def WriteAction.type : WriteAction → String
  | .create => "com.atproto.repo.applyWrites#create"
  | .update => "com.atproto.repo.applyWrites#update"
  | .delete => "com.atproto.repo.applyWrites#delete"

/-- The key of an element: its own, or for a create a minted one. -/
def stageKey (lib : RepoLibrary) (action : WriteAction) (rkey tid : Option String) :
    Except WfError String :=
  match rkey.filter (· ≠ "") with
  | some rkey => if lib.recordKeyIsValid rkey then .ok rkey else .error .invalidArg
  | none =>
    if action ≠ .create then .error .invalidArg
    else
      match tid with
      | some tid => .ok tid
      | none => .error .internal

/-- One turn of the loop over the batch. -/
def stageWrite (lib : RepoLibrary) (tid : Option String) (op : Json) :
    Except WfError RepoWrite :=
  match op.getString "$type", op.getString "collection" with
  | some type, some collection =>
    match writeActionOf type with
    | none => .error .invalidArg
    | some action => do
      refuseIf (collection = "") .invalidArg
      let rkey ← stageKey lib action (op.getString "rkey") tid
      if action = .delete then pure ⟨action, collection, rkey, [], ""⟩
      else
        match op.getObjectItem "value" with
        | none => .error .invalidArg
        | some value =>
          let text := lib.printJson value
          refuseIf (recordTypeMatches lib text collection = false) .invalidArg
          let cbor ← encodeRecordJson lib text
          pure ⟨action, collection, rkey, cbor, text⟩
  | _, _ => .error .invalidArg

/-- The loop over the batch: the first element that cannot be staged ends it. -/
def stageWrites (lib : RepoLibrary) (tids : Nat → Option String) :
    Nat → List Json → Except WfError (List RepoWrite)
  | _, [] => .ok []
  | i, op :: rest => do
    let write ← stageWrite lib (tids i) op
    let writes ← stageWrites lib tids (i + 1) rest
    pure (write :: writes)

/-- The part of `apply_writes_locked` before `commit_persist`. -/
def planApplyWrites (lib : RepoLibrary) (s : RepoStore) (writesJson : String)
    (swapCommit : Option String) (o : WriteOutcomes) :
    Except WfError (List RepoWrite × RepoCommit) :=
  match lib.parseJson writesJson with
  | some (.array ops) => do
    checkSwap swapCommit s.head
    refuseIf (200 < ops.length) .invalidArg
    let writes ← stageWrites lib o.tids 0 ops
    let commit ← lib.repoApplyWrites o.clock s.car s.head writes
    pure (writes, commit)
  | _ => .error .invalidArg

/-- The index statement of each write of the batch. -/
def indexWrites (lib : RepoLibrary) (indexes : Nat → Bool) :
    Nat → List (RepoWrite × Cid) → RepoStore → RepoStore
  | _, [], s => s
  | i, (write, cid) :: rest, s =>
    indexWrites lib indexes (i + 1) rest <|
      if write.action = .delete then indexDeleteRecord s write.collection write.rkey (indexes i)
      else indexUpsertRecord lib s write.collection write.rkey cid write.value (indexes i)

/-- The entry of `results` for a write. -/
def writeResultJson (did : String) (write : RepoWrite) (cid : Cid) : Json :=
  match write.action with
  | .delete => .object [("$type", .string "com.atproto.repo.applyWrites#deleteResult")]
  | action =>
    .object [("$type", .string (if action = .create
        then "com.atproto.repo.applyWrites#createResult"
        else "com.atproto.repo.applyWrites#updateResult")),
      ("uri", .string (makeUri did write.collection write.rkey)), ("cid", .string cid),
      ("validationStatus", .string "unknown")]

/-- The op of the event for a write of a batch. -/
def batchOp (write : RepoWrite) (cid : Cid) : RepoOp where
  action := write.action
  collection := write.collection
  rkey := write.rkey
  cid := if write.action = .delete then none else some cid
  prev := none

/-- What `apply_writes_locked` returns: commit CID, rev, and the text of the results. -/
structure ApplyReturn where
  commitCid : Cid
  commitRev : Option String
  results : String

/-- `apply_writes_locked`. -/
def applyWritesLocked (lib : RepoLibrary) (s : RepoStore) (writesJson : String)
    (swapCommit : Option String) (o : WriteOutcomes) : WriteResult ApplyReturn :=
  match planApplyWrites lib s writesJson swapCommit o with
  | .error error => .failed s error
  | .ok (writes, commit) =>
    match commitPersist lib.toBlockLibrary { s with car := s.car ++ commit.blocks } commit.commit
        o.persist with
    | (s', some error) => .failed s' error
    | (s', none) =>
      if o.allocates 0 = false then .failed s' .alloc
      else
        let landed := writes.zip commit.records
        let s' := indexWrites lib o.indexes 0 landed s'
        let event := emitCommitEventOps lib s' s.head (landed.map fun w => batchOp w.1 w.2)
          o.exportOutcome
        if o.allocates 1 = false then ⟨s', .error .alloc, event⟩
        else
          let rev := (parseCommitAt lib.toBlockLibrary s' s'.head).map Commit.rev
          let results := lib.printJson <| .array <|
            landed.map fun w => writeResultJson s.did w.1 w.2
          ⟨s', .ok ⟨s'.head, rev, results⟩, event⟩

/-! ## createRecord -/

/-- `backlink_path_for_collection`. -/
def backlinkPathForCollection (collection : String) : Option String :=
  if collection = "app.bsky.graph.follow" ∨ collection = "app.bsky.graph.block" then
    some "$.subject"
  else if collection = "app.bsky.feed.like" ∨ collection = "app.bsky.feed.repost" then
    some "$.subject.uri"
  else none

/-- `backlink_target`. -/
def backlinkTarget (lib : RepoLibrary) (recordJson path : String) : Option String := do
  let root ← lib.parseJson recordJson
  let target ←
    if path = "$.subject" then root.getString "subject"
    else (root.getObjectItem "subject").bind (·.getString "uri")
  if target = "" then none else some target

/-- `find_backlink_conflicts`. -/
def findBacklinkConflicts (lib : RepoLibrary) (s : RepoStore) (collection path target : String)
    (failsAfter : Option Nat) : List String :=
  let rows := s.db.view.records.filter fun r =>
    r.collection = collection ∧ lib.jsonExtract r.value path = some target
  let rows := match failsAfter with
    | some n => rows.take n
    | none => rows
  rows.map RecordRow.rkey

/-- An explicit key among the conflicts is the ordinary overwrite: the last one takes its
place in the array. -/
def dropConflict (rkey : String) (conflicts : List String) : List String :=
  match conflicts.findIdx? (· == rkey) with
  | none => conflicts
  | some i => (conflicts.set i (conflicts.getLastD "")).dropLast

/-- The backlink conflicts of a new record. -/
def backlinkConflicts (lib : RepoLibrary) (s : RepoStore) (collection rkey recordJson : String)
    (o : WriteOutcomes) : List String :=
  match backlinkPathForCollection collection with
  | none => []
  | some path =>
    match backlinkTarget lib recordJson path with
    | none => []
    | some target =>
      dropConflict rkey
        (findBacklinkConflicts lib s collection path target o.conflictsFailAfter)

/-- The batch that deletes the conflicting records and creates the new one. -/
def cleanupWrites (collection rkey : String) (value : Json) (conflicts : List String) : Json :=
  .array <| conflicts.map (fun conflict => .object [("$type", .string WriteAction.delete.type),
      ("collection", .string collection), ("rkey", .string conflict)]) ++
    [.object [("$type", .string WriteAction.create.type), ("collection", .string collection),
      ("rkey", .string rkey), ("value", value)]]

/-- The URI and the CID of the last entry of the results. -/
def lastResult (lib : RepoLibrary) (results : String) : Option (String × String) :=
  match lib.parseJson results with
  | some (.array items) => do
    let last ← items.getLast?
    let uri ← last.getString "uri"
    let cid ← last.getString "cid"
    some (uri, cid)
  | _ => none

/-- `create_record_with_backlink_cleanup`. -/
def createRecordWithBacklinkCleanup (lib : RepoLibrary) (s : RepoStore)
    (collection rkey recordJson : String) (conflicts : List String) (o : WriteOutcomes) :
    WriteResult (String × String) :=
  match lib.parseJson recordJson with
  | none => .failed s .alloc
  | some value =>
    let r := applyWritesLocked lib s
      (lib.printJson (cleanupWrites collection rkey value conflicts)) none o
    match r.returned with
    | .error error => ⟨r.store, .error error, r.event⟩
    | .ok applied =>
      match lastResult lib applied.results with
      | none => ⟨r.store, .error .internal, r.event⟩
      | some result =>
        if o.allocates 2 = false then ⟨r.store, .error .alloc, r.event⟩
        else ⟨r.store, .ok result, r.event⟩

/-- The checks of `create_record_locked`, which give the record key. -/
def checkCreate (lib : RepoLibrary) (s : RepoStore) (collection : String) (rkey : Option String)
    (recordJson : String) (swapCommit : Option String) (o : WriteOutcomes) :
    Except WfError String := do
  refuseIf (collection = "") .invalidArg
  let rkey ←
    match rkey.filter (· ≠ "") with
    | some rkey => if lib.recordKeyIsValid rkey then .ok rkey else .error .invalidArg
    | none =>
      match o.tids 0 with
      | some tid => .ok tid
      | none => .error .invalidArg
  refuseIf (recordTypeMatches lib recordJson collection = false) .invalidArg
  checkSwap swapCommit s.head
  pure rkey

/-- The new commit of a create without conflicts. -/
def planCreate (lib : RepoLibrary) (s : RepoStore) (collection rkey recordJson : String)
    (o : WriteOutcomes) : Except WfError RepoCommit := do
  let cbor ← encodeRecordJson lib recordJson
  lib.repoCreateRecord o.clock s.car s.head collection rkey cbor

/-- What a write of one record does after its commit is built. -/
def landRecord (lib : RepoLibrary) (s : RepoStore) (collection rkey recordJson : String)
    (commit : RepoCommit) (action : WriteAction) (prev : Option Cid) (o : WriteOutcomes) :
    WriteResult (String × String) :=
  match commitPersist lib.toBlockLibrary { s with car := s.car ++ commit.blocks } commit.commit
      o.persist with
  | (s', some error) => .failed s' error
  | (s', none) =>
    if o.allocates 0 = false then .failed s' .alloc
    else
      let cid := commit.records.headD ""
      let s' := indexUpsertRecord lib s' collection rkey cid recordJson (o.indexes 0)
      let event := emitCommitEventOps lib s' s.head [⟨action, collection, rkey, some cid, prev⟩]
        o.exportOutcome
      ⟨s', .ok (makeUri s.did collection rkey, cid), event⟩

/-- `create_record_locked`. -/
def createRecordLocked (lib : RepoLibrary) (s : RepoStore) (collection : String)
    (rkey : Option String) (recordJson : String) (swapCommit : Option String)
    (o : WriteOutcomes) : WriteResult (String × String) :=
  match checkCreate lib s collection rkey recordJson swapCommit o with
  | .error error => .failed s error
  | .ok rkey =>
    let conflicts := backlinkConflicts lib s collection rkey recordJson o
    if conflicts ≠ [] then
      createRecordWithBacklinkCleanup lib s collection rkey recordJson conflicts o
    else
      match planCreate lib s collection rkey recordJson o with
      | .error error => .failed s error
      | .ok commit => landRecord lib s collection rkey recordJson commit .create none o

/-! ## putRecord -/

/-- What a put comes to before anything changes: no change, or a new commit, with the record
that was there. -/
inductive PutPlan where
  | unchanged (cid : Cid)
  | write (existing : Option Cid) (commit : RepoCommit)

/-- The CID of the record to overwrite, if there is one. -/
def existingRecord (lib : RepoLibrary) (s : RepoStore) (collection rkey : String) :
    Except WfError (Option Cid) :=
  match getRecordCbor lib s collection rkey with
  | .ok cid => .ok (some cid)
  | .error error => if error = .notFound then .ok none else .error error

/-- The check of `swap_record` against the record to overwrite. -/
def checkSwapRecord (swapRecord : Option String) (existing : Option Cid) :
    Except WfError Unit :=
  if (swapRecord.filter (· ≠ "")).isSome then
    match existing with
    | none => .error .conflict
    | some cid => checkSwap swapRecord cid
  else .ok ()

/-- The part of `put_record_locked` before `commit_persist`. -/
def planPut (lib : RepoLibrary) (s : RepoStore) (collection rkey recordJson : String)
    (swapCommit swapRecord : Option String) (o : WriteOutcomes) : Except WfError PutPlan := do
  refuseIf (collection = "" ∨ rkey = "") .invalidArg
  refuseIf (lib.recordKeyIsValid rkey = false) .invalidArg
  refuseIf (recordTypeMatches lib recordJson collection = false) .invalidArg
  let existing ← existingRecord lib s collection rkey
  checkSwap swapCommit s.head
  checkSwapRecord swapRecord existing
  let cbor ← encodeRecordJson lib recordJson
  match existing with
  | some cid =>
    if lib.cidOfBlock cbor = some cid then .ok (.unchanged cid)
    else do
      let commit ← lib.repoUpdateRecord o.clock s.car s.head collection rkey cbor
      pure (.write (some cid) commit)
  | none => do
    let commit ← lib.repoCreateRecord o.clock s.car s.head collection rkey cbor
    pure (.write none commit)

/-- `put_record_locked`. -/
def putRecordLocked (lib : RepoLibrary) (s : RepoStore) (collection rkey recordJson : String)
    (swapCommit swapRecord : Option String) (o : WriteOutcomes) :
    WriteResult (String × String) :=
  match planPut lib s collection rkey recordJson swapCommit swapRecord o with
  | .error error => .failed s error
  | .ok (.unchanged cid) =>
    if o.allocates 0 = false then .failed s .alloc
    else ⟨s, .ok (makeUri s.did collection rkey, cid), none⟩
  | .ok (.write existing commit) =>
    landRecord lib s collection rkey recordJson commit
      (if existing.isSome then .update else .create) existing o

/-! ## deleteRecord -/

/-- The part of `delete_record_locked` before `commit_persist`. -/
def planDelete (lib : RepoLibrary) (s : RepoStore) (collection rkey : String)
    (swapCommit swapRecord : Option String) (o : WriteOutcomes) :
    Except WfError (Cid × RepoCommit) := do
  refuseIf (collection = "" ∨ rkey = "") .invalidArg
  refuseIf (lib.recordKeyIsValid rkey = false) .invalidArg
  let cid ← getRecordCbor lib s collection rkey
  checkSwap swapCommit s.head
  checkSwap swapRecord cid
  let commit ← lib.repoDeleteRecord o.clock s.car s.head collection rkey
  pure (cid, commit)

/-- `delete_record_locked`. -/
def deleteRecordLocked (lib : RepoLibrary) (s : RepoStore) (collection rkey : String)
    (swapCommit swapRecord : Option String) (o : WriteOutcomes) : WriteResult Unit :=
  match planDelete lib s collection rkey swapCommit swapRecord o with
  | .error error => .failed s error
  | .ok (cid, commit) =>
    match commitPersist lib.toBlockLibrary { s with car := s.car ++ commit.blocks } commit.commit
        o.persist with
    | (s', some error) => .failed s' error
    | (s', none) =>
      let s' := indexDeleteRecord s' collection rkey (o.indexes 0)
      let event := emitCommitEventOps lib s' s.head
        [⟨.delete, collection, rkey, none, some cid⟩] o.exportOutcome
      ⟨s', .ok (), event⟩

/-! ## Staged batches -/

/-- A step of a plan that succeeds. -/
theorem except_bind_ok {ε α β : Type} {x : Except ε α} {f : α → Except ε β} {b : β}
    (h : x >>= f = .ok b) : ∃ a, x = .ok a ∧ f a = .ok b := by
  cases x with
  | error error => cases h
  | ok a => exact ⟨a, rfl, h⟩

/-- The element names the action and the collection of the write. -/
structure Stages (op : Json) (write : RepoWrite) : Prop where
  type : op.getString "$type" = some write.action.type
  collection : op.getString "collection" = some write.collection

theorem writeActionOf_eq_some {type : String} {action : WriteAction}
    (h : writeActionOf type = some action) : type = action.type := by
  unfold writeActionOf at h
  split at h
  · next heq => cases h; exact heq
  · split at h
    · next heq => cases h; exact heq
    · split at h
      · next heq => cases h; exact heq
      · cases h

theorem writeActionOf_type (action : WriteAction) : writeActionOf action.type = some action := by
  cases action <;> decide

theorem WriteAction.type_injective {a b : WriteAction} (h : a.type = b.type) : a = b := by
  have hsame : writeActionOf a.type = writeActionOf b.type := by rw [h]
  rw [writeActionOf_type, writeActionOf_type] at hsame
  exact Option.some.inj hsame

theorem stageWrite_stages {lib : RepoLibrary} {tid : Option String} {op : Json}
    {write : RepoWrite} (h : stageWrite lib tid op = .ok write) : Stages op write := by
  unfold stageWrite at h
  split at h
  · next type collection htype hcollection =>
    split at h
    · cases h
    · next action haction =>
      obtain ⟨_, -, h⟩ := except_bind_ok h
      obtain ⟨rkey, -, h⟩ := except_bind_ok h
      rw [writeActionOf_eq_some haction] at htype
      split at h
      · cases h
        exact ⟨htype, hcollection⟩
      · split at h
        · cases h
        · obtain ⟨_, -, h⟩ := except_bind_ok h
          obtain ⟨cbor, -, h⟩ := except_bind_ok h
          cases h
          exact ⟨htype, hcollection⟩
  · cases h

theorem stageWrites_stages {lib : RepoLibrary} {tids : Nat → Option String} {i : Nat}
    {ops : List Json} {writes : List RepoWrite} (h : stageWrites lib tids i ops = .ok writes) :
    List.Forall₂ Stages ops writes := by
  induction ops generalizing i writes with
  | nil =>
    cases h
    exact .nil
  | cons op ops ih =>
    obtain ⟨write, hwrite, h⟩ := except_bind_ok h
    obtain ⟨rest, hrest, h⟩ := except_bind_ok h
    cases h
    exact .cons (stageWrite_stages hwrite) (ih hrest)

/-- The writes of a planned batch are those of its text, in their order. -/
theorem planApplyWrites_stages {lib : RepoLibrary} {s : RepoStore} {writesJson : String}
    {swapCommit : Option String} {o : WriteOutcomes} {writes : List RepoWrite}
    {commit : RepoCommit}
    (h : planApplyWrites lib s writesJson swapCommit o = .ok (writes, commit)) :
    ∃ ops, lib.parseJson writesJson = some (.array ops) ∧ List.Forall₂ Stages ops writes := by
  unfold planApplyWrites at h
  split at h
  · next ops hparse =>
    obtain ⟨_, -, h⟩ := except_bind_ok h
    obtain ⟨_, -, h⟩ := except_bind_ok h
    obtain ⟨staged, hstaged, h⟩ := except_bind_ok h
    obtain ⟨built, -, h⟩ := except_bind_ok h
    cases h
    exact ⟨ops, hparse, stageWrites_stages hstaged⟩
  · cases h

end MetalBear.Repo
