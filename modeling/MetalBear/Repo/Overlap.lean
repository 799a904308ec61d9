import MetalBear.Library.Replacement
import MetalBear.Repo.BlobTracking

/-!
# Overlapping writes of one record

The handlers of `putRecord` and `deleteRecord` in four steps: read the old record, write the
repository, associate the blobs of the new value, dissociate those of the old one. No lock
is held across them, so the steps of two requests for one record interleave.
-/

namespace MetalBear.Repo

open Machine RefCount Replacement

/-! ## Requests in steps -/

/-- A request for one record. -/
inductive KeyCall where
  | put (req : RepoRequest) (o : RouteOutcomes)
  | delete (req : RepoRequest) (o : RouteOutcomes)

/-- What a handler has read: its request, and the record before the write. -/
structure HandlerLocals where
  input : RecordInput
  old : Option (String × Cid)

/-- Where a request stands. -/
inductive Phase where
  | reads
  | writes (l : HandlerLocals)
  | links (l : HandlerLocals) (uri cid : String)
  | unlinks (l : HandlerLocals) (uri cid : String)
  | answered (response : XrpcResponse)
  | refused (response : XrpcResponse)

namespace KeyCall

def outcomes : KeyCall → RouteOutcomes
  | put _ o => o
  | delete _ o => o

/-- The part of the handler before the old record is read. -/
def readInput (lib : RouteLibrary) : KeyCall → Except XrpcResponse RecordInput
  | put req o => readPut lib req o
  | delete req o => readDelete req o

/-- `rec_json`. -/
def newJson (input : RecordInput) : KeyCall → Option String
  | put _ _ => some input.recordJson
  | delete _ _ => none

/-- The call of the repository store, with the URI and the CID that follow it. -/
def write (lib : RouteLibrary) (s : RepoStore) (input : RecordInput) :
    KeyCall → WriteResult (String × String)
  | put _ o => putRecordLocked lib.toRepoLibrary s input.collection (input.rkey.getD "")
      input.recordJson input.swapCommit input.swapRecord o.write
  | delete _ o =>
    let r := deleteRecordLocked lib.toRepoLibrary s input.collection (input.rkey.getD "")
      input.swapCommit input.swapRecord o.write
    ⟨r.store, r.returned.map fun _ => (makeUri s.did input.collection (input.rkey.getD ""), ""),
      r.event⟩

/-- The response to a write that has failed. -/
def failure (lib : RouteLibrary) (error : WfError) : KeyCall → XrpcResponse
  | put _ _ => setWriteError error "record put failed"
  | delete _ _ =>
    if error.status = .notFound then .body (lib.printJson (.object []))
    else setWriteError error "record could not be deleted"

/-- The response to a write that has succeeded. -/
def success (lib : RouteLibrary) (s : RepoStore) (l : HandlerLocals) (uri cid : String) :
    KeyCall → XrpcResponse
  | put _ _ =>
    .body <| lib.printJson <| .object <| [("uri", .string uri), ("cid", .string cid)] ++
      validationMember l.input.status ++
      (if l.old.map Prod.snd = some cid then [] else [commitMeta lib s])
  | delete _ _ => .body (lib.printJson (.object [commitMeta lib s]))

/-- The next step of a request. -/
def advance (lib : RouteLibrary) (call : KeyCall) (a : AccountStores) :
    Phase → AccountStores × Phase
  | .reads =>
    match call.readInput lib with
    | .error response => (a, .refused response)
    | .ok input =>
      (a, .writes ⟨input, (storeGetRecord lib.toRepoLibrary a.repo input.collection
        (input.rkey.getD "")).toOption⟩)
  | .writes l =>
    let r := call.write lib a.repo l.input
    match r.returned with
    | .error error => (⟨r.store, a.blobs⟩, .refused (call.failure lib error))
    | .ok (uri, cid) => (⟨r.store, a.blobs⟩, .links l uri cid)
  | .links l uri cid =>
    let tracked := (call.newJson l.input).bind fun json =>
      trackWrittenBlobs lib (some a.blobs) uri json (call.outcomes.grows 0)
    (⟨a.repo, tracked.getD a.blobs⟩, .unlinks l uri cid)
  | .unlinks l uri cid =>
    let untracked := untrackSupersededBlobs lib (some a.blobs) uri (l.old.map Prod.fst)
      (call.newJson l.input) (call.outcomes.keeps 0) call.outcomes.removes
    (⟨a.repo, untracked.getD a.blobs⟩, .answered (call.success lib a.repo l uri cid))
  | phase => (a, phase)

/-- The whole request, with nothing in between. -/
def handle (lib : RouteLibrary) (call : KeyCall) (a : AccountStores) : RouteResult :=
  match call with
  | put req o => hPutRecord lib a.repo (some a.blobs) req o
  | delete req o => hDeleteRecord lib a.repo (some a.blobs) req o

end KeyCall

/-- The response of a request that has ended. -/
def Phase.response? : Phase → Option XrpcResponse
  | .answered response => some response
  | .refused response => some response
  | _ => none

/-- Four steps in a row are the handler. -/
theorem advance_eq_handle (lib : RouteLibrary) (call : KeyCall) (a : AccountStores) :
    let r := (fun x : AccountStores × Phase => call.advance lib x.1 x.2)^[4] (a, .reads)
    r.1 = a.handled (call.handle lib a) ∧ r.2.response? = some (call.handle lib a).response := by
  cases call with
  | put req o =>
    simp only [KeyCall.handle, hPutRecord, Function.iterate_succ, Function.iterate_zero,
      Function.comp_apply, id_eq, KeyCall.advance, KeyCall.readInput]
    cases readPut lib req o with
    | error response => exact ⟨rfl, rfl⟩
    | ok input =>
      simp only [KeyCall.write]
      generalize (storeGetRecord lib.toRepoLibrary a.repo input.collection
        (input.rkey.getD "")).toOption = old
      generalize putRecordLocked lib.toRepoLibrary a.repo input.collection (input.rkey.getD "")
        input.recordJson input.swapCommit input.swapRecord o.write = w
      rcases w with ⟨store, error | ⟨uri, cid⟩, event⟩
      · exact ⟨rfl, rfl⟩
      · cases old <;> exact ⟨rfl, rfl⟩
  | delete req o =>
    simp only [KeyCall.handle, hDeleteRecord, Function.iterate_succ, Function.iterate_zero,
      Function.comp_apply, id_eq, KeyCall.advance, KeyCall.readInput]
    cases readDelete req o with
    | error response => exact ⟨rfl, rfl⟩
    | ok input =>
      simp only [KeyCall.write]
      generalize (storeGetRecord lib.toRepoLibrary a.repo input.collection
        (input.rkey.getD "")).toOption = old
      generalize deleteRecordLocked lib.toRepoLibrary a.repo input.collection
        (input.rkey.getD "") input.swapCommit input.swapRecord o.write = w
      rcases w with ⟨store, error | _, event⟩
      · simp only [Except.map, KeyCall.failure, Phase.response?]
        split <;> exact ⟨rfl, rfl⟩
      · cases old <;> exact ⟨rfl, rfl⟩

/-! ## Two requests -/

/-- Two requests for one record, the stores they share, and the steps that have been taken,
the latest first. A write counts as a step if it has succeeded. -/
structure Overlap where
  stores : AccountStores
  phase : Bool → Phase
  history : List Event

/-- Both requests are about to start. -/
def Overlap.start (a : AccountStores) : Overlap := ⟨a, fun _ => .reads, []⟩

/-- The step that a request has taken, by where it stood and where it stands. -/
def Phase.stepTo : Phase → Phase → Option Step
  | .reads, .writes _ => some .read
  | .writes _, .links _ _ _ => some .write
  | .links _ _ _, .unlinks _ _ _ => some .link
  | .unlinks _ _ _, .answered _ => some .unlink
  | _, _ => none

/-- One of the requests takes its next step. -/
def Overlap.step (lib : RouteLibrary) (calls : Bool → KeyCall) (s : Overlap) (p : Bool) :
    Overlap :=
  let next := (calls p).advance lib s.stores (s.phase p)
  { stores := next.1
    phase := Function.update s.phase p next.2
    history := (((s.phase p).stepTo next.2).map (p, ·)).toList ++ s.history }

/-! ## What is claimed, and when it holds -/

/-- The blobs that the JSON text of a record names. -/
def textBlobs (lib : RouteLibrary) (text : String) : List String :=
  ((lib.parseJson text).map blobWalkRefs).getD []

/-- The blobs that the record of that key names, if there is one. -/
def recordBlobs (lib : RouteLibrary) (s : RepoStore) (collection rkey : String) : List String :=
  match storeGetRecord lib.toRepoLibrary s collection rkey with
  | .ok (text, _) => textBlobs lib text
  | .error _ => []

/-- The blobs that the value of a request names; a delete has none. -/
def KeyCall.newBlobs (lib : RouteLibrary) (call : KeyCall) : List String :=
  match call.readInput lib with
  | .ok input => ((call.newJson input).map (textBlobs lib)).getD []
  | .error _ => []

/-- The request is for the record of that key. -/
def KeyCall.Targets (lib : RouteLibrary) (collection rkey : String) (call : KeyCall) : Prop :=
  ∀ input, call.readInput lib = .ok input →
    input.collection = collection ∧ input.rkey.getD "" = rkey

/-- A record of another URI names the blob. -/
def NamedElsewhere (lib : RouteLibrary) (s : RepoStore) (uri cid : String) : Prop :=
  ∃ collection rkey, makeUri s.did collection rkey ≠ uri ∧
    cid ∈ recordBlobs lib s collection rkey

/-- The associations of every stored blob are those of the records that name it. -/
structure Mirrored (lib : RouteLibrary) (a : AccountStores) : Prop where
  mem_iff : ∀ cid refs, a.blobs.table cid = some refs → ∀ collection rkey,
    makeUri a.repo.did collection rkey ∈ refs ↔ cid ∈ recordBlobs lib a.repo collection rkey
  exists_key : ∀ cid refs, a.blobs.table cid = some refs → ∀ uri ∈ refs,
    ∃ collection rkey, uri = makeUri a.repo.did collection rkey

/-- Between the two states of the stores, no blob that the surviving record names is deleted,
and a blob of another of the values that no other record names has no association left. -/
structure BlobsSettled (lib : RouteLibrary) (calls : Bool → KeyCall) (collection rkey : String)
    (a a' : AccountStores) : Prop where
  kept : ∀ cid ∈ recordBlobs lib a'.repo collection rkey, a.blobs.Stores cid →
    a'.blobs.Stores cid
  released : ∀ cid, (cid ∈ recordBlobs lib a.repo collection rkey ∨
      ∃ p, cid ∈ (calls p).newBlobs lib) →
    cid ∉ recordBlobs lib a'.repo collection rkey →
    ¬ NamedElsewhere lib a'.repo (makeUri a'.repo.did collection rkey) cid →
    ∀ refs, a'.blobs.table cid = some refs → refs = ∅

/-- The first of two writes takes away a blob that the value before it and the value after it
name, or leaves an association of its own that the second one does not take back. -/
def Clashes (lib : RouteLibrary) (calls : Bool → KeyCall) (old : List String)
    (history : List Event) (first : Bool) (cid : String) : Prop :=
  let last := !first
  (cid ∈ old ∧ cid ∉ (calls first).newBlobs lib ∧ cid ∈ (calls last).newBlobs lib ∧
      (calls first).outcomes.removes cid = true) ∨
    (cid ∈ (calls first).newBlobs lib ∧ cid ∉ (calls last).newBlobs lib ∧
      ((cid ∉ old ∧ Before history (last, .read) (first, .write)) ∨
        (Before history (last, .unlink) (first, .link) ∧
          (cid ∉ old ∨ (calls last).outcomes.removes cid = false))))

/-- What the repository library has under a key. -/
def recordCid (lib : RepoLibrary) (car : List Cid) (head : Cid) (collection rkey : String) :
    Option Cid :=
  if head = "" then none else (lib.repoGetRecord car head collection rkey).toOption

/-- The new commit is readable, and has the other records as they were. -/
structure KeepsOthers (lib : RepoLibrary) (car : List Cid) (head : Cid) (commit : RepoCommit)
    (collection rkey : String) : Prop where
  ne : commit.commit ≠ ""
  others : ∀ c r, (c, r) ≠ (collection, rkey) →
    recordCid lib (car ++ commit.blocks) commit.commit c r = recordCid lib car head c r

/-- The repository library gives back the record that it has written, and does not give back
one that it has deleted. A CID stands for one block. -/
structure KeepsRecords (lib : RepoLibrary) : Prop where
  put : ∀ clock car head collection rkey body commit,
    lib.repoCreateRecord clock car head collection rkey body = .ok commit ∨
      lib.repoUpdateRecord clock car head collection rkey body = .ok commit →
    KeepsOthers lib car head commit collection rkey ∧
      ∃ cid, recordCid lib (car ++ commit.blocks) commit.commit collection rkey = some cid ∧
        lib.content cid = body
  delete : ∀ clock car head collection rkey commit,
    lib.repoDeleteRecord clock car head collection rkey = .ok commit →
    KeepsOthers lib car head commit collection rkey ∧
      recordCid lib (car ++ commit.blocks) commit.commit collection rkey = none
  cid : ∀ body cid, lib.cidOfBlock body = some cid → lib.content cid = body

/-- The blobs that the record of a block names. -/
def blockBlobs (lib : RouteLibrary) (data : List UInt8) : List String :=
  match (lib.cborParse data).bind (cborToJson lib.toCborText) with
  | none => []
  | some j => textBlobs lib (lib.printJson j)

/-- The record that a text is encoded as names the blobs of the text. -/
def NamesKept (lib : RouteLibrary) (recordJson : String) : Prop :=
  ∀ cbor, encodeRecordJson lib.toRepoLibrary recordJson = .ok cbor →
    ∀ cid, cid ∈ blockBlobs lib cbor ↔ cid ∈ textBlobs lib recordJson

/-- The call of the repository store. -/
def KeyCall.storeCall (input : RecordInput) : KeyCall → WriteCall
  | put _ _ => .putRecord input.collection (input.rkey.getD "") input.recordJson input.swapCommit
      input.swapRecord
  | delete _ _ => .deleteRecord input.collection (input.rkey.getD "") input.swapCommit
      input.swapRecord

/-- There is memory for the associations, and a write that gets as far as `commit_persist`
does not fail from there on. -/
structure Undisturbed (lib : RouteLibrary) (calls : Bool → KeyCall) (s : Overlap) (p : Bool) :
    Prop where
  grows : ∀ i, (calls p).outcomes.grows 0 i = true
  keeps : ∀ i, (calls p).outcomes.keeps 0 i = true
  writes : ∀ l, s.phase p = .writes l →
    NotLate lib.toRepoLibrary s.stores.repo (calls p).outcomes.write
      ((calls p).storeCall l.input)

/-! ## The write of the repository -/

theorem recordCid_eq (lib : RepoLibrary) (s : RepoStore) (collection rkey : String) :
    recordCid lib s.car s.head collection rkey =
      (getRecordCbor lib s collection rkey).toOption := by
  rw [recordCid, getRecordCbor]
  split <;> rfl

theorem recordBlobs_eq (lib : RouteLibrary) (s : RepoStore) (collection rkey : String) :
    recordBlobs lib s collection rkey =
      if collection = "" ∨ rkey = "" then []
      else ((recordCid lib.toRepoLibrary s.car s.head collection rkey).map fun cid =>
        blockBlobs lib (lib.content cid)).getD [] := by
  rw [recordBlobs, storeGetRecord, recordCid_eq]
  by_cases hempty : collection = "" ∨ rkey = ""
  · rw [if_pos hempty, if_pos hempty]
  · rw [if_neg hempty, if_neg hempty]
    cases getRecordCbor lib.toRepoLibrary s collection rkey with
    | error error => rfl
    | ok cid =>
      simp only [Except.toOption, Option.map_some, Option.getD_some, blockBlobs]
      cases (lib.cborParse (lib.content cid)).bind (cborToJson lib.toCborText) <;> rfl

theorem recordBlobs_congr {lib : RouteLibrary} {s s' : RepoStore} {collection rkey : String}
    (h : recordCid lib.toRepoLibrary s'.car s'.head collection rkey =
      recordCid lib.toRepoLibrary s.car s.head collection rkey) :
    recordBlobs lib s' collection rkey = recordBlobs lib s collection rkey := by
  rw [recordBlobs_eq, recordBlobs_eq, h]

/-- The record of the key names exactly these blobs now, and the others are as they were. -/
structure Wrote (lib : RouteLibrary) (s s' : RepoStore) (collection rkey : String)
    (blobs : List String) : Prop where
  did : s'.did = s.did
  record : ∀ cid, cid ∈ recordBlobs lib s' collection rkey ↔ cid ∈ blobs
  others : ∀ c r, (c, r) ≠ (collection, rkey) → recordBlobs lib s' c r = recordBlobs lib s c r

/-- What the later part of a write of one record leaves. -/
theorem landRecord_frame (lib : RepoLibrary) (s : RepoStore) (collection rkey recordJson : String)
    (commit : RepoCommit) (action : WriteAction) (prev : Option Cid) (o : WriteOutcomes) :
    let r := landRecord lib s collection rkey recordJson commit action prev o
    r.store.car = s.car ++ commit.blocks ∧ r.store.did = s.did ∧
      ∀ uri cid, r.returned = .ok (uri, cid) → uri = makeUri s.did collection rkey := by
  obtain ⟨-, -, hcar, hdid⟩ := commitPersist_frame lib.toBlockLibrary
    { s with car := s.car ++ commit.blocks } commit.commit o.persist
  rw [landRecord]
  generalize commitPersist lib.toBlockLibrary { s with car := s.car ++ commit.blocks }
    commit.commit o.persist = w at hcar hdid
  obtain ⟨s', error⟩ := w
  cases error with
  | some error =>
    refine ⟨hcar, hdid, fun uri cid h => ?_⟩
    cases h
  | none =>
    cases ha : o.allocates 0 with
    | false => simpa [WriteResult.failed] using ⟨hcar, hdid⟩
    | true =>
      have hindex : ∀ cid value writes,
          (indexUpsertRecord lib s' collection rkey cid value writes).car = s'.car ∧
            (indexUpsertRecord lib s' collection rkey cid value writes).did = s'.did := by
        intro cid value writes
        cases writes <;> exact ⟨rfl, rfl⟩
      simp only [Bool.true_eq_false, if_false, hindex]
      refine ⟨hcar, hdid, fun uri cid h => ?_⟩
      cases h
      rfl

theorem refuseIf_ok {p : Prop} [Decidable p] {error : WfError} {u : Unit}
    (h : refuseIf p error = .ok u) : ¬ p := by
  intro hp
  rw [refuseIf, if_pos hp] at h
  cases h

/-- What the plan of a put says of the library. -/
theorem planPut_spec {lib : RepoLibrary} {s : RepoStore} {collection rkey recordJson : String}
    {swapCommit swapRecord : Option String} {o : WriteOutcomes} {plan : PutPlan}
    (h : planPut lib s collection rkey recordJson swapCommit swapRecord o = .ok plan) :
    (collection ≠ "" ∧ rkey ≠ "") ∧
      ∃ cbor, encodeRecordJson lib recordJson = .ok cbor ∧
        match plan with
        | .unchanged cid =>
          getRecordCbor lib s collection rkey = .ok cid ∧ lib.cidOfBlock cbor = some cid
        | .write _ commit =>
          lib.repoCreateRecord o.clock s.car s.head collection rkey cbor = .ok commit ∨
            lib.repoUpdateRecord o.clock s.car s.head collection rkey cbor = .ok commit := by
  unfold planPut at h
  obtain ⟨_, hkey, h⟩ := except_bind_ok h
  obtain ⟨_, -, h⟩ := except_bind_ok h
  obtain ⟨_, -, h⟩ := except_bind_ok h
  obtain ⟨existing, hexisting, h⟩ := except_bind_ok h
  obtain ⟨_, -, h⟩ := except_bind_ok h
  obtain ⟨_, -, h⟩ := except_bind_ok h
  obtain ⟨cbor, hcbor, h⟩ := except_bind_ok h
  refine ⟨by simpa [not_or] using refuseIf_ok hkey, cbor, hcbor, ?_⟩
  cases existing with
  | some cid =>
    have hfound : getRecordCbor lib s collection rkey = .ok cid := by
      rw [existingRecord] at hexisting
      split at hexisting
      · next hcid =>
        cases hexisting
        exact hcid
      · split at hexisting <;> cases hexisting
    dsimp only at h
    split at h
    · next hsame =>
      cases h
      exact ⟨hfound, hsame⟩
    · obtain ⟨commit, hcommit, h⟩ := except_bind_ok h
      cases h
      exact Or.inr hcommit
  | none =>
    obtain ⟨commit, hcommit, h⟩ := except_bind_ok h
    cases h
    exact Or.inl hcommit

/-- A commit that the library has built on the store, once it is the head. -/
theorem wrote_of_commit {lib : RouteLibrary} {s s' : RepoStore} {collection rkey : String}
    {commit : RepoCommit} {blobs : List String}
    (hkept : KeepsOthers lib.toRepoLibrary s.car s.head commit collection rkey)
    (hcar : s'.car = s.car ++ commit.blocks) (hhead : s'.head = commit.commit)
    (hdid : s'.did = s.did)
    (hrecord : ∀ cid, cid ∈ recordBlobs lib s' collection rkey ↔ cid ∈ blobs) :
    Wrote lib s s' collection rkey blobs where
  did := hdid
  record := hrecord
  others c r hne := recordBlobs_congr (by rw [hcar, hhead]; exact hkept.others c r hne)

/-- A put that succeeds leaves a record that names the blobs of its text; one that fails
leaves the store. -/
theorem putRecordLocked_spec {lib : RouteLibrary} (hlib : KeepsRecords lib.toRepoLibrary)
    {s : RepoStore} {collection rkey recordJson : String} {swapCommit swapRecord : Option String}
    {o : WriteOutcomes} (hnames : NamesKept lib recordJson)
    (hlate : NotLate lib.toRepoLibrary s o
      (.putRecord collection rkey recordJson swapCommit swapRecord)) :
    let r := putRecordLocked lib.toRepoLibrary s collection rkey recordJson swapCommit swapRecord o
    (∀ uri cid, r.returned = .ok (uri, cid) → uri = makeUri s.did collection rkey ∧
        Wrote lib s r.store collection rkey (textBlobs lib recordJson)) ∧
      ∀ error, r.returned = .error error → r.store = s := by
  rw [putRecordLocked]
  cases hplan : planPut lib.toRepoLibrary s collection rkey recordJson swapCommit swapRecord o with
  | error error =>
    refine ⟨fun uri cid h => ?_, fun _ _ => rfl⟩
    cases h
  | ok plan =>
    obtain ⟨⟨hcollection, hrkey⟩, cbor, hcbor, hcase⟩ := planPut_spec hplan
    have hne : ¬ (collection = "" ∨ rkey = "") := by simp [hcollection, hrkey]
    have hnamed : ∀ {s' : RepoStore} {cid : Cid},
        recordCid lib.toRepoLibrary s'.car s'.head collection rkey = some cid →
        lib.content cid = cbor → ∀ b,
          b ∈ recordBlobs lib s' collection rkey ↔ b ∈ textBlobs lib recordJson := by
      intro s' cid hcid hcontent b
      rw [recordBlobs_eq, if_neg hne, hcid, Option.map_some, Option.getD_some, hcontent]
      exact hnames cbor hcbor b
    cases plan with
    | unchanged cid =>
      obtain ⟨hfound, hsame⟩ := hcase
      cases ha : o.allocates 0 with
      | false => simp [WriteResult.failed]
      | true =>
        simp only [Bool.true_eq_false, if_false, Except.ok.injEq, Prod.mk.injEq, and_imp,
          reduceCtorEq, implies_true, and_true]
        rintro uri _ rfl -
        refine ⟨rfl, rfl, ?_, fun _ _ _ => rfl⟩
        exact hnamed (by rw [recordCid_eq, hfound]; rfl) (hlib.cid cbor cid hsame)
    | write existing commit =>
      dsimp only
      obtain ⟨hkept, cid, hcid, hcontent⟩ := hlib.put _ _ _ _ _ _ _ hcase
      obtain ⟨hhead, hstatus⟩ := landRecord_spec lib.toRepoLibrary s collection rkey recordJson
        commit (if existing.isSome then .update else .create) existing o
      obtain ⟨hcar, hdid, huri⟩ := landRecord_frame lib.toRepoLibrary s collection rkey recordJson
        commit (if existing.isSome then .update else .create) existing o
      have hok := hstatus.mpr (hlate existing commit hplan)
      refine ⟨fun uri cid' hr => ⟨huri uri cid' hr, ?_⟩, fun error herror => ?_⟩
      · exact wrote_of_commit hkept hcar hhead hdid
          (hnamed (by rw [hcar, hhead]; exact hcid) hcontent)
      · rw [WriteResult.status, herror] at hok
        exact absurd hok error.ne_ok

/-- A delete that succeeds leaves no record; one that fails leaves the store. -/
theorem deleteRecordLocked_wrote {lib : RouteLibrary} (hlib : KeepsRecords lib.toRepoLibrary)
    {s : RepoStore} {collection rkey : String} {swapCommit swapRecord : Option String}
    {o : WriteOutcomes}
    (hlate : NotLate lib.toRepoLibrary s o (.deleteRecord collection rkey swapCommit swapRecord)) :
    let r := deleteRecordLocked lib.toRepoLibrary s collection rkey swapCommit swapRecord o
    (r.returned = .ok () → Wrote lib s r.store collection rkey []) ∧
      ∀ error, r.returned = .error error → r.store = s := by
  cases hplan : planDelete lib.toRepoLibrary s collection rkey swapCommit swapRecord o with
  | error error =>
    rw [deleteRecordLocked, hplan]
    refine ⟨fun h => ?_, fun _ _ => rfl⟩
    cases h
  | ok planned =>
    obtain ⟨cid, commit⟩ := planned
    obtain ⟨hhead, hstatus⟩ := deleteRecordLocked_spec hplan
    have hok := hstatus.mpr (hlate cid commit hplan)
    obtain ⟨hkept, hgone⟩ : KeepsOthers lib.toRepoLibrary s.car s.head commit collection rkey ∧
        recordCid lib.toRepoLibrary (s.car ++ commit.blocks) commit.commit collection rkey =
          none := by
      unfold planDelete at hplan
      obtain ⟨_, -, hplan⟩ := except_bind_ok hplan
      obtain ⟨_, -, hplan⟩ := except_bind_ok hplan
      obtain ⟨current, -, hplan⟩ := except_bind_ok hplan
      obtain ⟨_, -, hplan⟩ := except_bind_ok hplan
      obtain ⟨_, -, hplan⟩ := except_bind_ok hplan
      obtain ⟨built, hbuilt, hplan⟩ := except_bind_ok hplan
      cases hplan
      exact hlib.delete _ _ _ _ _ _ hbuilt
    obtain ⟨hcar, hdid⟩ : (deleteRecordLocked lib.toRepoLibrary s collection rkey swapCommit
          swapRecord o).store.car = s.car ++ commit.blocks ∧
        (deleteRecordLocked lib.toRepoLibrary s collection rkey swapCommit
          swapRecord o).store.did = s.did := by
      obtain ⟨-, -, hcar, hdid⟩ := commitPersist_frame lib.toBlockLibrary
        { s with car := s.car ++ commit.blocks } commit.commit o.persist
      rw [deleteRecordLocked, hplan]
      dsimp only
      generalize commitPersist lib.toBlockLibrary { s with car := s.car ++ commit.blocks }
        commit.commit o.persist = w at hcar hdid
      obtain ⟨s', error⟩ := w
      cases error with
      | some error => exact ⟨hcar, hdid⟩
      | none => cases ho : o.indexes 0 <;> exact ⟨hcar, hdid⟩
    refine ⟨fun _ => wrote_of_commit hkept hcar hhead hdid fun b => ?_, fun error herror => ?_⟩
    · rw [recordBlobs_eq, hcar, hhead, hgone]
      simp
    · rw [WriteResult.status, herror] at hok
      exact absurd hok error.ne_ok

/-- The write of a request. -/
theorem KeyCall.write_spec {lib : RouteLibrary} (hlib : KeepsRecords lib.toRepoLibrary)
    {call : KeyCall} {s : RepoStore} {input : RecordInput} (hread : call.readInput lib = .ok input)
    (hnames : ∀ json, call.newJson input = some json → NamesKept lib json)
    (hlate : NotLate lib.toRepoLibrary s call.outcomes.write (call.storeCall input)) :
    (∀ uri cid, (call.write lib s input).returned = .ok (uri, cid) →
        uri = makeUri s.did input.collection (input.rkey.getD "") ∧
          Wrote lib s (call.write lib s input).store input.collection (input.rkey.getD "")
            (call.newBlobs lib)) ∧
      ∀ error, (call.write lib s input).returned = .error error →
        (call.write lib s input).store = s := by
  rw [KeyCall.newBlobs, hread]
  cases call with
  | put req o => exact putRecordLocked_spec hlib (hnames _ rfl) hlate
  | delete req o =>
    obtain ⟨hok, herror⟩ := deleteRecordLocked_wrote hlib (o := o.write) hlate
    simp only [KeyCall.write]
    revert hok herror
    generalize deleteRecordLocked lib.toRepoLibrary s input.collection (input.rkey.getD "")
      input.swapCommit input.swapRecord o.write = w
    rcases w with ⟨store, error | _, event⟩
    · exact fun _ herror => ⟨nofun, fun _ _ => herror error rfl⟩
    · intro hok _
      refine ⟨fun uri cid h => ?_, nofun⟩
      cases h
      exact ⟨rfl, hok rfl⟩

/-! ## The steps of the blob store -/

/-- The blobs of the record that a handler has read. -/
def HandlerLocals.oldBlobs (lib : RouteLibrary) (l : HandlerLocals) : List String :=
  ((l.old.map Prod.fst).map (textBlobs lib)).getD []

theorem makeUri_ne (did collection rkey : String) : makeUri did collection rkey ≠ "" := by
  intro h
  have hlength := congrArg String.length h
  simp [makeUri, String.length_append] at hlength

/-- References for which there is always memory. -/
theorem map_zipIdx_filter {grows : Nat → Bool} (hgrows : ∀ i, grows i = true)
    (refs : List String) :
    (refs.zipIdx.filter fun r : String × Nat => grows r.2).map Prod.fst = refs := by
  have hall : refs.zipIdx.filter (fun r : String × Nat => grows r.2) = refs.zipIdx := by
    rw [List.filter_eq_self]
    exact fun r _ => hgrows r.2
  rw [hall, List.zipIdx_map_fst]

theorem trackedPairs_eq {lib : RouteLibrary} {grows : Nat → Bool} (hgrows : ∀ i, grows i = true)
    (uri json : String) :
    trackedPairs lib uri json grows = (textBlobs lib json).map (·, uri) := by
  rw [trackedPairs, textBlobs]
  cases lib.parseJson json with
  | none => rfl
  | some value =>
    have hrefs := congrArg (List.map (·, uri)) (map_zipIdx_filter hgrows (blobWalkRefs value))
    rw [List.map_map] at hrefs
    exact hrefs

theorem untrackedPairs_eq {lib : RouteLibrary} {keeps : Nat → Bool} (hkeeps : ∀ i, keeps i = true)
    (uri oldJson : String) (newJson : Option String) :
    untrackedPairs lib uri oldJson newJson keeps =
      ((textBlobs lib oldJson).filter fun cid =>
        cid ∉ (newJson.map (textBlobs lib)).getD []).map (·, uri) := by
  have hkeep : (match newJson.bind lib.parseJson with
      | none => []
      | some value => ((blobWalkRefs value).zipIdx.filter fun r : String × Nat =>
          keeps r.2).map Prod.fst) = (newJson.map (textBlobs lib)).getD [] := by
    cases newJson with
    | none => rfl
    | some json =>
      rw [Option.bind_some, Option.map_some, Option.getD_some, textBlobs]
      cases lib.parseJson json with
      | none => rfl
      | some value => exact map_zipIdx_filter hkeeps _
  rw [untrackedPairs, textBlobs]
  cases lib.parseJson oldJson with
  | none => rfl
  | some old =>
    rw [← hkeep]
    rfl

theorem filter_map_uri {uri : String} (huri : uri ≠ "") (cids : List String) :
    (cids.map (·, uri)).filter (·.2 ≠ "") = cids.map (·, uri) := by
  rw [List.filter_eq_self]
  intro pair hpair
  obtain ⟨cid, -, rfl⟩ := List.mem_map.mp hpair
  simpa using huri

/-- The associations of a blob once those of the new value are made. -/
theorem table_trackWrittenBlobs {lib : RouteLibrary} {grows : Nat → Bool}
    (hgrows : ∀ i, grows i = true) {uri : String} (huri : uri ≠ "") (b : BlobStore)
    (json cid : String) :
    ((trackWrittenBlobs lib (some b) uri json grows).getD b).table cid =
      if cid ∈ textBlobs lib json then (b.table cid).map (insert uri) else b.table cid := by
  rw [trackWrittenBlobs, trackedPairs_eq hgrows, associateAll, Option.map_some, Option.getD_some,
    table_associateAll, filter_map_uri huri, linkAll_of_one_referrer]

/-- The associations of a blob once those of the old value are taken back. -/
theorem table_untrackSupersededBlobs {lib : RouteLibrary} {keeps : Nat → Bool}
    (hkeeps : ∀ i, keeps i = true) {uri : String} (huri : uri ≠ "") (b : BlobStore)
    (old newJson : Option String) (removes : String → Bool) (cid : String) :
    ((untrackSupersededBlobs lib (some b) uri old newJson keeps removes).getD b).table cid =
      if cid ∈ (old.map (textBlobs lib)).getD [] ∧ cid ∉ (newJson.map (textBlobs lib)).getD [] then
        (b.table cid).bind (drop (removes cid) uri)
      else b.table cid := by
  cases old with
  | none => simp [untrackSupersededBlobs]
  | some oldJson =>
    rw [untrackSupersededBlobs, untrackedPairs_eq hkeeps, dissociateAll, Option.map_some,
      Option.getD_some, table_dissociateAll, filter_map_uri huri, unlinkAll_of_one_referrer]
    simp only [List.mem_filter, decide_eq_true_eq, Option.map_some, Option.getD_some]

/-! ## The steps replayed -/

/-- What the values say of one blob. -/
def blobSetting (lib : RouteLibrary) (calls : Bool → KeyCall) (old : List String) (cid : String) :
    Setting where
  old := decide (cid ∈ old)
  new p := decide (cid ∈ (calls p).newBlobs lib)
  removes p := (calls p).outcomes.removes cid

section Replay

variable (lib : RouteLibrary) (calls : Bool → KeyCall) (collection rkey : String)
  (a : AccountStores)

/-- The setting of a blob in the overlap that starts with these stores. -/
abbrev startSetting (cid : String) : Setting :=
  blobSetting lib calls (recordBlobs lib a.repo collection rkey) cid

/-- What a handler has read: its own request, and the value that was there. -/
structure LocalsFit (p : Bool) (h : List Event) (l : HandlerLocals) : Prop where
  input : (calls p).readInput lib = .ok l.input
  old : ∀ cid, cid ∈ l.oldBlobs lib ↔
    (startSetting lib calls collection rkey a cid).readNames p h = true

/-- The steps that a request has taken, by where it stands. -/
def PhaseFits (p : Bool) (h : List Event) : Phase → Prop
  | .reads => ∀ s, (p, s) ∉ h
  | .writes l => LocalsFit lib calls collection rkey a p h l ∧ (p, .read) ∈ h ∧ (p, .write) ∉ h
  | .links l uri _ => LocalsFit lib calls collection rkey a p h l ∧
      uri = makeUri a.repo.did collection rkey ∧ (p, .write) ∈ h ∧ (p, .link) ∉ h
  | .unlinks l uri _ => LocalsFit lib calls collection rkey a p h l ∧
      uri = makeUri a.repo.did collection rkey ∧ (p, .link) ∈ h ∧ (p, .unlink) ∉ h
  | .answered _ => (p, .unlink) ∈ h
  | .refused _ => (p, .write) ∉ h

/-- The stores are what the steps taken so far make of those at the start. -/
structure Replays (s : Overlap) : Prop where
  did : s.stores.repo.did = a.repo.did
  others : ∀ c r, (c, r) ≠ (collection, rkey) →
    recordBlobs lib s.stores.repo c r = recordBlobs lib a.repo c r
  history : History s.history
  phases : ∀ p, PhaseFits lib calls collection rkey a p s.history (s.phase p)
  value : ∀ cid, cid ∈ recordBlobs lib s.stores.repo collection rkey ↔
    (startSetting lib calls collection rkey a cid).valueNames s.history = true
  table : ∀ cid, s.stores.blobs.table cid =
    (startSetting lib calls collection rkey a cid).entry (makeUri a.repo.did collection rkey)
      (a.blobs.table cid) s.history

variable {lib calls collection rkey a} {s : Overlap} {p q : Bool} {h : List Event}

theorem replays_start : Replays lib calls collection rkey a (.start a) where
  did := rfl
  others _ _ _ := rfl
  history := .nil
  phases _ _ := List.not_mem_nil
  value cid := by simp [blobSetting, Setting.valueNames, Overlap.start]
  table _ := rfl

/-- A step of the other request does not change where this one stands. -/
theorem PhaseFits.cons_of_ne {x : Phase} {e : Step}
    (hfits : PhaseFits lib calls collection rkey a q h x) (hne : q ≠ p) :
    PhaseFits lib calls collection rkey a q ((p, e) :: h) x := by
  have hmem : ∀ r, (q, r) ∈ (p, e) :: h ↔ (q, r) ∈ h := by
    intro r
    simp [hne]
  have hlocals : ∀ {l}, LocalsFit lib calls collection rkey a q h l →
      LocalsFit lib calls collection rkey a q ((p, e) :: h) l := by
    intro l hl
    refine ⟨hl.input, fun cid => ?_⟩
    rw [Setting.readNames_cons_of_ne fun heq => hne (congrArg Prod.fst heq).symm]
    exact hl.old cid
  cases x with
  | reads => exact fun r => (hmem r).not.mpr (hfits r)
  | writes l =>
    simp only [PhaseFits, hmem] at hfits ⊢
    exact ⟨hlocals hfits.1, hfits.2⟩
  | links l uri cid =>
    simp only [PhaseFits, hmem] at hfits ⊢
    exact ⟨hlocals hfits.1, hfits.2⟩
  | unlinks l uri cid =>
    simp only [PhaseFits, hmem] at hfits ⊢
    exact ⟨hlocals hfits.1, hfits.2⟩
  | answered response => exact (hmem _).mpr hfits
  | refused response => exact (hmem _).not.mpr hfits

/-- A request moves on without a step that counts. -/
theorem Replays.move (hs : Replays lib calls collection rkey a s) {x : Phase}
    (hx : PhaseFits lib calls collection rkey a p s.history x) :
    Replays lib calls collection rkey a ⟨s.stores, Function.update s.phase p x, s.history⟩ := by
  refine ⟨hs.did, hs.others, hs.history, fun q => ?_, hs.value, hs.table⟩
  by_cases hq : q = p
  · subst hq
    simpa using hx
  · simpa [hq] using hs.phases q

/-- A request takes a step. -/
theorem Replays.take (hs : Replays lib calls collection rkey a s) {e : Step} {x : Phase}
    {stores : AccountStores} (hnew : (p, e) ∉ s.history)
    (hprior : ∀ r ∈ e.prior, (p, r) ∈ s.history)
    (hx : PhaseFits lib calls collection rkey a p ((p, e) :: s.history) x)
    (hdid : stores.repo.did = s.stores.repo.did)
    (hothers : ∀ c r, (c, r) ≠ (collection, rkey) →
      recordBlobs lib stores.repo c r = recordBlobs lib s.stores.repo c r)
    (hvalue : ∀ cid, cid ∈ recordBlobs lib stores.repo collection rkey ↔
      (startSetting lib calls collection rkey a cid).valueNames ((p, e) :: s.history) = true)
    (htable : ∀ cid, stores.blobs.table cid =
      (startSetting lib calls collection rkey a cid).act (makeUri a.repo.did collection rkey)
        (fun q => (startSetting lib calls collection rkey a cid).readNames q s.history) (p, e)
        (s.stores.blobs.table cid)) :
    Replays lib calls collection rkey a
      ⟨stores, Function.update s.phase p x, (p, e) :: s.history⟩ := by
  refine ⟨hdid.trans hs.did, fun c r hne => (hothers c r hne).trans (hs.others c r hne),
    .cons hs.history hnew hprior, fun q => ?_, hvalue, fun cid => ?_⟩
  · by_cases hq : q = p
    · subst hq
      simpa using hx
    · simpa [hq] using (hs.phases q).cons_of_ne hq
  · rw [htable, hs.table]
    rfl

/-- The blobs of what a handler reads are those of the record. -/
theorem oldBlobs_eq (lib : RouteLibrary) (s : RepoStore) (input : RecordInput) :
    HandlerLocals.oldBlobs lib ⟨input, (storeGetRecord lib.toRepoLibrary s input.collection
        (input.rkey.getD "")).toOption⟩ =
      recordBlobs lib s input.collection (input.rkey.getD "") := by
  rw [HandlerLocals.oldBlobs, recordBlobs]
  cases storeGetRecord lib.toRepoLibrary s input.collection (input.rkey.getD "") <;> rfl

theorem newBlobs_eq {input : RecordInput} {call : KeyCall}
    (hread : call.readInput lib = .ok input) :
    call.newBlobs lib = ((call.newJson input).map (textBlobs lib)).getD [] := by
  rw [KeyCall.newBlobs, hread]

theorem replays_read (hs : Replays lib calls collection rkey a s)
    (htargets : (calls p).Targets lib collection rkey) (hphase : s.phase p = .reads) :
    Replays lib calls collection rkey a (s.step lib calls p) := by
  have hfits := hs.phases p
  rw [hphase] at hfits
  rw [Overlap.step, hphase, KeyCall.advance]
  cases hread : (calls p).readInput lib with
  | error response => exact hs.move (x := .refused response) (hfits .write)
  | ok input =>
    obtain ⟨hcollection, hrkey⟩ := htargets input hread
    refine hs.take (e := .read) (hfits .read) nofun ?_ rfl (fun _ _ _ => rfl) hs.value
      fun _ => rfl
    refine ⟨⟨hread, fun cid => ?_⟩, List.mem_cons_self, ?_⟩
    · rw [oldBlobs_eq, hcollection, hrkey, hs.value]
      simp [Setting.readNames]
    · simpa using hfits .write

theorem replays_write (hlib : KeepsRecords lib.toRepoLibrary)
    (hnames : ∀ input json, (calls p).readInput lib = .ok input →
      (calls p).newJson input = some json → NamesKept lib json)
    (hs : Replays lib calls collection rkey a s)
    (htargets : (calls p).Targets lib collection rkey) (hund : Undisturbed lib calls s p)
    {l : HandlerLocals} (hphase : s.phase p = .writes l) :
    Replays lib calls collection rkey a (s.step lib calls p) := by
  have hfits := hs.phases p
  rw [hphase] at hfits
  obtain ⟨hlocals, hread, hnot⟩ := hfits
  obtain ⟨hcollection, hrkey⟩ := htargets l.input hlocals.input
  obtain ⟨hok, herror⟩ := KeyCall.write_spec hlib hlocals.input
    (fun json => hnames l.input json hlocals.input) (hund.writes l hphase)
  rw [Overlap.step, hphase, KeyCall.advance]
  cases hreturned : ((calls p).write lib s.stores.repo l.input).returned with
  | error error =>
    rw [herror error hreturned]
    exact hs.move (x := .refused _) hnot
  | ok result =>
    obtain ⟨uri, cid⟩ := result
    obtain ⟨huri, hwrote⟩ := hok uri cid hreturned
    rw [hcollection, hrkey] at huri hwrote
    refine hs.take (e := .write) hnot (by simpa [Step.prior] using hread) ?_ hwrote.did
      hwrote.others (fun b => ?_) fun _ => rfl
    · refine ⟨⟨hlocals.input, fun b => ?_⟩, by rw [huri, hs.did], List.mem_cons_self, ?_⟩
      · rw [Setting.readNames_cons_of_ne (by simp)]
        exact hlocals.old b
      · have hlink : (p, Step.link) ∉ s.history := fun hmem => hnot (hs.history.prior hmem rfl)
        simpa using hlink
    · rw [hwrote.record b]
      simp [Setting.valueNames, blobSetting]

theorem replays_link (hs : Replays lib calls collection rkey a s)
    (hund : Undisturbed lib calls s p) {l : HandlerLocals} {uri cid : String}
    (hphase : s.phase p = .links l uri cid) :
    Replays lib calls collection rkey a (s.step lib calls p) := by
  have hfits := hs.phases p
  rw [hphase] at hfits
  obtain ⟨hlocals, huri, hwrite, hnot⟩ := hfits
  have hne : uri ≠ "" := huri ▸ makeUri_ne _ _ _
  rw [Overlap.step, hphase, KeyCall.advance]
  refine hs.take (e := .link) hnot (by simpa [Step.prior] using hwrite) ?_ rfl (fun _ _ _ => rfl)
    hs.value fun b => ?_
  · refine ⟨⟨hlocals.input, fun b => ?_⟩, huri, List.mem_cons_self, ?_⟩
    · rw [Setting.readNames_cons_of_ne (by simp)]
      exact hlocals.old b
    · have hunlink : (p, Step.unlink) ∉ s.history := fun hmem => hnot (hs.history.prior hmem rfl)
      simpa using hunlink
  · simp only [Setting.act, blobSetting, newBlobs_eq hlocals.input, decide_eq_true_eq, ← huri]
    cases (calls p).newJson l.input with
    | none => simp
    | some json =>
      simp only [Option.bind_some, Option.map_some, Option.getD_some]
      exact table_trackWrittenBlobs hund.grows hne s.stores.blobs json b

theorem replays_unlink (hs : Replays lib calls collection rkey a s)
    (hund : Undisturbed lib calls s p) {l : HandlerLocals} {uri cid : String}
    (hphase : s.phase p = .unlinks l uri cid) :
    Replays lib calls collection rkey a (s.step lib calls p) := by
  have hfits := hs.phases p
  rw [hphase] at hfits
  obtain ⟨hlocals, huri, hlink, hnot⟩ := hfits
  have hne : uri ≠ "" := huri ▸ makeUri_ne _ _ _
  rw [Overlap.step, hphase, KeyCall.advance]
  refine hs.take (e := .unlink) hnot (by simpa [Step.prior] using hlink) List.mem_cons_self rfl
    (fun _ _ _ => rfl) hs.value fun b => ?_
  have holds := hlocals.old b
  rw [HandlerLocals.oldBlobs] at holds
  have hnew : (startSetting lib calls collection rkey a b).new p = false ↔
      b ∉ (((calls p).newJson l.input).map (textBlobs lib)).getD [] := by
    simp only [blobSetting, newBlobs_eq hlocals.input, decide_eq_false_iff_not]
  simp only [Setting.act, ← holds, hnew, ← huri]
  exact table_untrackSupersededBlobs hund.keeps hne s.stores.blobs (l.old.map Prod.fst)
    ((calls p).newJson l.input) (calls p).outcomes.removes b

/-- Every step of a request is replayed. -/
theorem replays_step (hlib : KeepsRecords lib.toRepoLibrary)
    (hnames : ∀ p input json, (calls p).readInput lib = .ok input →
      (calls p).newJson input = some json → NamesKept lib json)
    (htargets : ∀ p, (calls p).Targets lib collection rkey)
    (hs : Replays lib calls collection rkey a s) (hund : Undisturbed lib calls s p) :
    Replays lib calls collection rkey a (s.step lib calls p) := by
  cases hphase : s.phase p with
  | reads => exact replays_read hs (htargets p) hphase
  | writes l => exact replays_write hlib (hnames p) hs (htargets p) hund hphase
  | links l uri cid => exact replays_link hs hund hphase
  | unlinks l uri cid => exact replays_unlink hs hund hphase
  | answered response =>
    have hfits := hs.phases p
    rw [hphase] at hfits
    rw [Overlap.step, hphase]
    exact hs.move (x := .answered response) hfits
  | refused response =>
    have hfits := hs.phases p
    rw [hphase] at hfits
    rw [Overlap.step, hphase]
    exact hs.move (x := .refused response) hfits

end Replay

/-! ## The main result -/

section Settled

variable {lib : RouteLibrary} {calls : Bool → KeyCall} {collection rkey : String}
  {a : AccountStores} {s : Overlap}

/-- Records under other URIs are as they were. -/
theorem namedElsewhere_iff (hs : Replays lib calls collection rkey a s) (cid : String) :
    NamedElsewhere lib s.stores.repo (makeUri s.stores.repo.did collection rkey) cid ↔
      NamedElsewhere lib a.repo (makeUri a.repo.did collection rkey) cid := by
  rw [hs.did]
  refine exists_congr fun c => exists_congr fun r => ?_
  rw [hs.did]
  refine and_congr_right fun hne => ?_
  rw [hs.others c r]
  intro heq
  cases heq
  exact hne rfl

/-- A stored blob that no other record names has no other association. -/
theorem sole_of_mirrored (ha : Mirrored lib a) {cid : String} (hstored : a.blobs.Stores cid)
    (hnot : ¬ NamedElsewhere lib a.repo (makeUri a.repo.did collection rkey) cid) :
    (startSetting lib calls collection rkey a cid).Sole (makeUri a.repo.did collection rkey)
      (a.blobs.table cid) := by
  obtain ⟨refs, hrefs⟩ := Option.isSome_iff_exists.mp (BlobStore.stores_iff.mp hstored)
  have hown := ha.mem_iff cid refs hrefs collection rkey
  have hsub : ∀ uri ∈ refs, uri = makeUri a.repo.did collection rkey := by
    intro uri huri
    by_contra hne
    obtain ⟨c, r, rfl⟩ := ha.exists_key cid refs hrefs uri huri
    exact hnot ⟨c, r, hne, (ha.mem_iff cid refs hrefs c r).mp huri⟩
  rw [Setting.Sole, hrefs, Option.some.injEq]
  simp only [blobSetting, decide_eq_true_eq]
  split
  · next hold =>
    ext uri
    rw [Finset.mem_singleton]
    exact ⟨hsub uri, fun h => h ▸ hown.mpr hold⟩
  · next hold =>
    rw [Finset.eq_empty_iff_forall_notMem]
    exact fun uri huri => hold (hown.mp (hsub uri huri ▸ huri))

/-- A stored blob that another record names has another association. -/
theorem other_of_mirrored (ha : Mirrored lib a) {cid : String} (hstored : a.blobs.Stores cid)
    (helse : NamedElsewhere lib a.repo (makeUri a.repo.did collection rkey) cid) :
    ∃ refs, a.blobs.table cid = some refs ∧ ∃ uri ∈ refs,
      uri ≠ makeUri a.repo.did collection rkey := by
  obtain ⟨refs, hrefs⟩ := Option.isSome_iff_exists.mp (BlobStore.stores_iff.mp hstored)
  obtain ⟨c, r, hne, hmem⟩ := helse
  exact ⟨refs, hrefs, _, (ha.mem_iff cid refs hrefs c r).mpr hmem, hne⟩

theorem clashes_iff (h : List Event) (first : Bool) (cid : String) :
    Clashes lib calls (recordBlobs lib a.repo collection rkey) h first cid ↔
      (startSetting lib calls collection rkey a cid).Removed first ∨
        (startSetting lib calls collection rkey a cid).Leaked h first := by
  rw [Clashes]
  refine or_congr ⟨fun hr => ?_, fun hr => ?_⟩ ⟨fun hl => ?_, fun hl => ?_⟩
  · exact ⟨by simpa [blobSetting] using hr.1, by simpa [blobSetting] using hr.2.1,
      by simpa [blobSetting] using hr.2.2.1, hr.2.2.2⟩
  · obtain ⟨hold, hfirst, hlast, hremoves⟩ := hr
    simp only [blobSetting, decide_eq_true_eq, decide_eq_false_iff_not] at hold hfirst hlast
    exact ⟨hold, hfirst, hlast, hremoves⟩
  · exact ⟨by simpa [blobSetting] using hl.1, by simpa [blobSetting] using hl.2.1,
      by simpa [blobSetting] using hl.2.2⟩
  · obtain ⟨hfirst, hlast, hmissed⟩ := hl
    simp only [blobSetting, decide_eq_true_eq, decide_eq_false_iff_not] at hfirst hlast hmissed
    exact ⟨hfirst, hlast, hmissed⟩

/-- A request that has ended has taken all its steps, or has not written. -/
theorem ended_cases (hs : Replays lib calls collection rkey a s) {p : Bool}
    (hdone : (s.phase p).response?.isSome = true) :
    (p, Step.unlink) ∈ s.history ∨ (p, Step.write) ∉ s.history := by
  have hfits := hs.phases p
  cases hphase : s.phase p with
  | answered response =>
    rw [hphase] at hfits
    exact Or.inl hfits
  | refused response =>
    rw [hphase] at hfits
    exact Or.inr hfits
  | reads => rw [hphase] at hdone; cases hdone
  | writes l => rw [hphase] at hdone; cases hdone
  | links l uri cid => rw [hphase] at hdone; cases hdone
  | unlinks l uri cid => rw [hphase] at hdone; cases hdone

/-- The blobs are settled when two requests have ended, if and only if no sole blob clashes. -/
theorem settled_iff (ha : Mirrored lib a) (hs : Replays lib calls collection rkey a s)
    (hdone : ∀ p, (s.phase p).response?.isSome = true) :
    BlobsSettled lib calls collection rkey a s.stores ↔
      ∀ first, Before s.history (first, .write) ((!first), .write) →
        ∀ cid, a.blobs.Stores cid →
          ¬ NamedElsewhere lib a.repo (makeUri a.repo.did collection rkey) cid →
          ¬ Clashes lib calls (recordBlobs lib a.repo collection rkey) s.history first cid := by
  have hend := fun p => ended_cases hs (hdone p)
  have hsole : ∀ cid, a.blobs.Stores cid →
      ¬ NamedElsewhere lib a.repo (makeUri a.repo.did collection rkey) cid →
      (startSetting lib calls collection rkey a cid).Sole (makeUri a.repo.did collection rkey)
        (a.blobs.table cid) := fun _ hstored hnot => sole_of_mirrored ha hstored hnot
  have hfinal : ∀ cid, a.blobs.Stores cid →
      ¬ NamedElsewhere lib a.repo (makeUri a.repo.did collection rkey) cid → _ :=
    fun cid hstored hnot => Setting.entry_at_end hs.history hend (hsole cid hstored hnot)
  constructor
  · intro hsettled first hw cid hstored hnot hclash
    obtain ⟨hkept, hreleased⟩ := hfinal cid hstored hnot
    have hlast : (startSetting lib calls collection rkey a cid).valueNames s.history =
        (startSetting lib calls collection rkey a cid).new (!first) := by
      refine Setting.valueNames_of_last hw.right ?_
      rw [Bool.not_not]
      exact hw.asymm hs.history.nodup
    rcases (clashes_iff s.history first cid).mp hclash with hremoved | hleaked
    · have hnames := hlast.trans hremoved.last
      have hgone := (hkept hnames).mpr ⟨first, hw, hremoved⟩
      have hstill := hsettled.kept cid ((hs.value cid).mpr hnames) hstored
      rw [BlobStore.stores_iff, hs.table, hgone] at hstill
      cases hstill
    · have hnames := hlast.trans hleaked.last
      obtain ⟨refs, hrefs, hmem⟩ := (hreleased hnames).mpr ⟨first, hw, hleaked⟩
      have hnew : cid ∈ (calls first).newBlobs lib := by
        have := hleaked.first
        simpa [blobSetting] using this
      have hnot' : cid ∉ recordBlobs lib s.stores.repo collection rkey := by
        rw [hs.value, hnames]
        exact Bool.false_ne_true
      have hempty := hsettled.released cid (Or.inr ⟨first, hnew⟩) hnot'
        (mt (namedElsewhere_iff hs cid).mp hnot) refs (by rw [hs.table, hrefs])
      rw [hempty] at hmem
      cases hmem
  · intro hclean
    refine ⟨fun cid hmem hstored => ?_, fun cid hvalue hmem hnot refs hrefs => ?_⟩
    · rw [BlobStore.stores_iff, hs.table]
      by_cases helse : NamedElsewhere lib a.repo (makeUri a.repo.did collection rkey) cid
      · obtain ⟨refs, hrefs, -⟩ := Setting.entry_of_other
          (S := startSetting lib calls collection rkey a cid) (h := s.history)
          (other_of_mirrored ha hstored helse)
        rw [hrefs]
        rfl
      · rw [Option.isSome_iff_ne_none, Ne, (hfinal cid hstored helse).1 ((hs.value cid).mp hmem)]
        rintro ⟨first, hw, hremoved⟩
        exact hclean first hw cid hstored helse
          ((clashes_iff s.history first cid).mpr (Or.inl hremoved))
    · rw [namedElsewhere_iff hs] at hnot
      rw [hs.table] at hrefs
      have hstored : a.blobs.Stores cid := by
        rw [BlobStore.stores_iff, Option.isSome_iff_ne_none]
        intro habsent
        rw [Setting.entry_of_absent habsent] at hrefs
        cases hrefs
      have hnames : (startSetting lib calls collection rkey a cid).valueNames s.history = false := by
        rw [← Bool.not_eq_true, ← hs.value]
        exact hmem
      have hsub := Setting.entry_subset (hsole cid hstored hnot) hrefs
      have hfree : ¬ Setting.Holds (makeUri a.repo.did collection rkey) (some refs) := by
        rw [← hrefs, (hfinal cid hstored hnot).2 hnames]
        rintro ⟨first, hw, hleaked⟩
        exact hclean first hw cid hstored hnot
          ((clashes_iff s.history first cid).mpr (Or.inr hleaked))
      rw [Finset.eq_empty_iff_forall_notMem]
      intro uri huri
      rw [Finset.mem_singleton.mp (hsub huri)] at huri
      exact hfree ⟨refs, rfl, huri⟩

end Settled

/-- For every interleaving of two puts or deletes of one record, with any blob references, in
stores whose associations mirror the records: no blob of the surviving record is deleted and
no other blob of the two requests or of the old record keeps an association, if and only if,
where both writes succeed, no stored blob that no other record names is removed or leaked by
the first of the two writers. -/
theorem overlappingWrites_settled_iff (lib : RouteLibrary) (hlib : KeepsRecords lib.toRepoLibrary)
    (calls : Bool → KeyCall) (collection rkey : String)
    (htargets : ∀ p, (calls p).Targets lib collection rkey)
    (hnames : ∀ p input json, (calls p).readInput lib = .ok input →
      (calls p).newJson input = some json → NamesKept lib json)
    (a : AccountStores) (ha : Mirrored lib a) (run : List Bool)
    (hund : Steps (Overlap.step lib calls) (Undisturbed lib calls) (.start a) run)
    (hdone : ∀ p, ((exec (Overlap.step lib calls) (.start a) run).phase p).response?.isSome =
      true) :
    BlobsSettled lib calls collection rkey a
        (exec (Overlap.step lib calls) (.start a) run).stores ↔
      ∀ first, Before (exec (Overlap.step lib calls) (.start a) run).history (first, .write)
          ((!first), .write) →
        ∀ cid, a.blobs.Stores cid →
          ¬ NamedElsewhere lib a.repo (makeUri a.repo.did collection rkey) cid →
          ¬ Clashes lib calls (recordBlobs lib a.repo collection rkey)
            (exec (Overlap.step lib calls) (.start a) run).history first cid := by
  have hreplays : Replays lib calls collection rkey a
      (exec (Overlap.step lib calls) (.start a) run) :=
    exec_of_steps replays_start (fun _ _ hs => replays_step hlib hnames htargets hs) hund
  exact settled_iff ha hreplays hdone

/-! ## A delete that overlaps a put -/

section Examples

/-- The libraries, as far as writes of the one record need them. -/
def oneRecordLibrary : RouteLibrary :=
  { imageLibrary with
    content := fun cid => if cid = "c1" then [1] else if cid = "c2" then [2] else
      if cid = "c3" then [4] else if cid = "n1" then [3] else if cid = "n0" then [5] else imageCbor
    commitParse := fun data => if data = [1] then some ⟨"rev1", "n1"⟩ else
      if data = [2] then some ⟨"rev2", "n0"⟩ else if data = [4] then some ⟨"rev3", "n1"⟩ else none
    repoGetRecord := fun _ head collection rkey =>
      if (head = "c1" ∨ head = "c3") ∧ collection = "app.example" ∧ rkey = "a" then .ok "r1"
      else .error .notFound
    repoCreateRecord := fun _ _ head collection rkey body =>
      if collection = "app.example" ∧ rkey = "a" ∧ body = imageCbor then
        if head = "" then .ok ⟨["r1", "n1", "c1"], "c1", ["r1"]⟩
        else if head = "c2" then .ok ⟨["c3"], "c3", ["r1"]⟩
        else .error .internal
      else .error .internal
    repoDeleteRecord := fun _ _ head collection rkey =>
      if collection = "app.example" ∧ rkey = "a" ∧ head = "c1" then .ok ⟨["n0", "c2"], "c2", []⟩
      else .error .internal }

theorem keepsRecords_oneRecord : KeepsRecords oneRecordLibrary.toRepoLibrary where
  put clock car head collection rkey body commit h := by
    rcases h with h | h
    · simp only [oneRecordLibrary] at h
      split at h
      · next hkey =>
        obtain ⟨rfl, rfl, rfl⟩ := hkey
        split at h
        · next hhead =>
          cases h
          refine ⟨⟨by decide, fun c r hne => ?_⟩, "r1", by simp [recordCid, oneRecordLibrary, Except.toOption],
            rfl⟩
          have hnot : ¬ (c = "app.example" ∧ r = "a") := fun hc => hne (by rw [hc.1, hc.2])
          simp [recordCid, oneRecordLibrary, hhead, hnot, Except.toOption]
        · split at h
          · next hhead =>
            cases h
            refine ⟨⟨by decide, fun c r hne => ?_⟩, "r1",
              by simp [recordCid, oneRecordLibrary, Except.toOption], rfl⟩
            have hnot : ¬ (c = "app.example" ∧ r = "a") := fun hc => hne (by rw [hc.1, hc.2])
            simp [recordCid, oneRecordLibrary, hhead, hnot, Except.toOption]
          · cases h
      · cases h
    · cases h
  delete clock car head collection rkey commit h := by
    simp only [oneRecordLibrary] at h
    split at h
    · next hkey =>
      obtain ⟨rfl, rfl, rfl⟩ := hkey
      cases h
      refine ⟨⟨by decide, fun c r hne => ?_⟩, by simp [recordCid, oneRecordLibrary, Except.toOption]⟩
      have hnot : ¬ (c = "app.example" ∧ r = "a") := fun hc => hne (by rw [hc.1, hc.2])
      simp [recordCid, oneRecordLibrary, hnot, Except.toOption]
    · cases h
  cid body cid h := by
    simp only [oneRecordLibrary, imageLibrary] at h ⊢
    split at h
    · next hbody =>
      cases h
      rw [hbody]
      rfl
    · cases h

/-- Requests that put the record and delete it. -/
def putImage : KeyCall :=
  .put ⟨some (.object [("collection", .string "app.example"), ("rkey", .string "a"),
    ("record", imageRecord)]), 200⟩ .good

def deleteImage : KeyCall :=
  .delete ⟨some (.object [("collection", .string "app.example"), ("rkey", .string "a")]), 50⟩ .good

/-- An account that has uploaded the blob, and one that has created the record too. -/
def imageUploaded : AccountStores :=
  exec (AccountStores.step oneRecordLibrary) ⟨.new "did", .empty⟩ [uploadImage]

def imageCreated : AccountStores :=
  exec (AccountStores.step oneRecordLibrary) ⟨.new "did", .empty⟩ [uploadImage, createImage]

/-- A put, and after it a delete. -/
def putThenDelete : Bool → KeyCall := fun p => if p then deleteImage else putImage

theorem readInput_putThenDelete (p : Bool) (input : RecordInput)
    (h : (putThenDelete p).readInput oneRecordLibrary = .ok input) :
    input.collection = "app.example" ∧ input.rkey.getD "" = "a" ∧
      ∀ json, (putThenDelete p).newJson input = some json → json = imageText := by
  have hall : ∀ p, ((putThenDelete p).readInput oneRecordLibrary).toOption.map (fun input =>
      (input.collection, input.rkey.getD "", (putThenDelete p).newJson input)) =
        some ("app.example", "a", if p then none else some imageText) := by decide +kernel
  have hp := hall p
  rw [h, Except.toOption, Option.map_some, Option.some.injEq, Prod.mk.injEq, Prod.mk.injEq] at hp
  refine ⟨hp.1, hp.2.1, fun json hjson => ?_⟩
  rw [hp.2.2] at hjson
  cases p with
  | false => exact (Option.some.inj hjson).symm
  | true => cases hjson

theorem namesKept_image : NamesKept oneRecordLibrary imageText := by
  have hencode : (encodeRecordJson oneRecordLibrary.toRepoLibrary imageText).toOption =
      some imageCbor := by decide
  intro cbor hcbor cid
  rw [hcbor, Except.toOption, Option.some.injEq] at hencode
  have hsame : blockBlobs oneRecordLibrary imageCbor = textBlobs oneRecordLibrary imageText := by
    decide
  rw [hencode, hsame]

theorem mirrored_imageUploaded : Mirrored oneRecordLibrary imageUploaded := by
  have hrefs : ∀ cid refs, imageUploaded.blobs.table cid = some refs → refs = ∅ := by
    have hall : ∀ n ∈ imageUploaded.blobs.nodes, n.refs = ∅ := by decide
    intro cid refs h
    obtain ⟨n, hn, rfl⟩ := Option.map_eq_some_iff.mp h
    exact hall n (List.mem_of_find?_eq_some hn)
  refine ⟨fun cid refs h collection rkey => ?_, fun cid refs h uri huri => ?_⟩
  · have hnone : recordBlobs oneRecordLibrary imageUploaded.repo collection rkey = [] := by
      have hhead : imageUploaded.repo.head = "" := by decide
      rw [recordBlobs_eq, recordCid, if_pos hhead]
      simp
    rw [hrefs cid refs h, hnone]
    simp
  · rw [hrefs cid refs h] at huri
    cases huri

/-- The requests, one after the other. -/
def oneAfterTheOther : List Bool := [false, false, false, false, true, true, true, true]

/-- A write for which everything gets through does not fail late outside of a transaction. -/
theorem undisturbed_of_canBegin {s : Overlap} (p : Bool)
    (h : s.stores.repo.db.canBegin = true) :
    Undisturbed oneRecordLibrary putThenDelete s p := by
  have hlands : ∀ commit, Lands s.stores.repo commit .good :=
    fun commit => ⟨⟨rfl, h, fun _ _ _ => rfl⟩, rfl⟩
  cases p with
  | false => exact ⟨fun _ => rfl, fun _ => rfl, fun l _ _ commit _ => ⟨hlands commit, rfl⟩⟩
  | true => exact ⟨fun _ => rfl, fun _ => rfl, fun l _ _ commit _ => hlands commit⟩

theorem sequential_requests_settled :
    BlobsSettled oneRecordLibrary putThenDelete "app.example" "a" imageUploaded
      (exec (Overlap.step oneRecordLibrary putThenDelete) (.start imageUploaded)
        oneAfterTheOther).stores := by
  have hund : Steps (Overlap.step oneRecordLibrary putThenDelete)
      (Undisturbed oneRecordLibrary putThenDelete) (.start imageUploaded) oneAfterTheOther := by
    refine ⟨?_, ?_, ?_, ?_, ?_, ?_, ?_, ?_, trivial⟩ <;>
      exact undisturbed_of_canBegin _ (by decide +kernel)
  refine (overlappingWrites_settled_iff oneRecordLibrary keepsRecords_oneRecord putThenDelete
    "app.example" "a" (fun p input h => ?_) (fun p input json h hjson => ?_) imageUploaded
    mirrored_imageUploaded oneAfterTheOther hund (by decide +kernel)).mpr ?_
  · obtain ⟨hcollection, hrkey, -⟩ := readInput_putThenDelete p input h
    exact ⟨hcollection, hrkey⟩
  · rw [(readInput_putThenDelete p input h).2.2 json hjson]
    exact namesKept_image
  · intro first _ cid hstored _
    have hcid : cid = imageCid := by
      have hnodes : imageUploaded.blobs.nodes.map BlobNode.cid = [imageCid] := by decide
      rw [BlobStore.Stores, hnodes] at hstored
      exact List.mem_singleton.mp hstored
    subst hcid
    unfold Clashes
    revert first
    decide +kernel

/-- A put after the record is deleted, by which the delete takes its blob away. -/
def deleteAroundPut : List Bool := [false, true, false, true, true, true, false, false]

/-- The delete reads the record, a put of the same value lands after it, and then the delete
takes back the association that the put relies on: the blob of the record is gone. -/
theorem overlapping_delete_takes_blob :
    let s := exec (Overlap.step oneRecordLibrary fun p => if p then putImage else deleteImage)
      (.start imageCreated) deleteAroundPut
    (∀ p, (s.phase p).response?.isSome = true) ∧
      ¬ BlobsSettled oneRecordLibrary (fun p => if p then putImage else deleteImage) "app.example"
        "a" imageCreated s.stores := by
  refine ⟨by decide +kernel, fun hsettled => ?_⟩
  have hkept := hsettled.kept imageCid (by decide +kernel) (by decide +kernel)
  revert hkept
  decide +kernel

end Examples

end MetalBear.Repo
