import MetalBear.Repo.FailedWrite
import MetalBear.Repo.Routes

/-!
# Confinement of record writes

The gate decides on a write from the envelope of its request, the handler from the rest of
the body. For an OAuth grant short of full access, the operations that the handler performs
are compared with those that the scopes of the grant allow.
-/

namespace MetalBear.Server

open OAuth Repo

/-! ## What a request performs -/

/-- The flag of the action of a write. -/
def repoAction : WriteAction → RepoAction
  | .create => .create
  | .update => .update
  | .delete => .delete

/-- The call of the repository store that the handler of a route comes to. -/
def recordCall (lib : RouteLibrary) (nsid : String) (req : RepoRequest) (o : RouteOutcomes) :
    Option WriteCall :=
  if nsid = "com.atproto.repo.createRecord" then
    (readCreate lib req o).toOption.map fun i =>
      .createRecord i.collection i.rkey i.recordJson i.swapCommit
  else if nsid = "com.atproto.repo.putRecord" then
    (readPut lib req o).toOption.map fun i =>
      .putRecord i.collection (i.rkey.getD "") i.recordJson i.swapCommit i.swapRecord
  else if nsid = "com.atproto.repo.deleteRecord" then
    (readDelete req o).toOption.map fun i =>
      .deleteRecord i.collection (i.rkey.getD "") i.swapCommit i.swapRecord
  else if nsid = "com.atproto.repo.applyWrites" then
    (readApply lib req o).toOption.map fun i =>
      .applyWrites (lib.printJson (.array i.writes)) i.swapCommit
  else none

/-- The handler of a route that writes records. -/
def recordHandler (lib : RouteLibrary) (nsid : String) (s : RepoStore) (blobs : Option BlobStore)
    (req : RepoRequest) (o : RouteOutcomes) : Option RouteResult :=
  if nsid = "com.atproto.repo.createRecord" then some (hCreateRecord lib s blobs req o)
  else if nsid = "com.atproto.repo.putRecord" then some (hPutRecord lib s blobs req o)
  else if nsid = "com.atproto.repo.deleteRecord" then some (hDeleteRecord lib s blobs req o)
  else if nsid = "com.atproto.repo.applyWrites" then some (hApplyWrites lib s blobs req o)
  else none

/-- The operations of a batch that gets as far as `commit_persist`. -/
def batchOperations (lib : RepoLibrary) (s : RepoStore) (writesJson : String)
    (swapCommit : Option String) (o : WriteOutcomes) : List (WriteAction × String) :=
  match planApplyWrites lib s writesJson swapCommit o with
  | .ok (writes, _) => writes.map fun w => (w.action, w.collection)
  | .error _ => []

/-- The operations that a write performs on the repository, with their collections: those of
the commit that it hands to `commit_persist`. -/
def performedOps (lib : RepoLibrary) (s : RepoStore) (o : WriteOutcomes) :
    WriteCall → List (WriteAction × String)
  | .createRecord collection rkey recordJson swapCommit =>
    match checkCreate lib s collection rkey recordJson swapCommit o with
    | .error _ => []
    | .ok key =>
      let conflicts := backlinkConflicts lib s collection key recordJson o
      if conflicts ≠ [] then
        match lib.parseJson recordJson with
        | none => []
        | some value =>
          batchOperations lib s (lib.printJson (cleanupWrites collection key value conflicts)) none o
      else
        match planCreate lib s collection key recordJson o with
        | .ok _ => [(.create, collection)]
        | .error _ => []
  | .putRecord collection rkey recordJson swapCommit swapRecord =>
    match planPut lib s collection rkey recordJson swapCommit swapRecord o with
    | .ok (.write existing _) => [(if existing.isSome then .update else .create, collection)]
    | _ => []
  | .deleteRecord collection rkey swapCommit swapRecord =>
    match planDelete lib s collection rkey swapCommit swapRecord o with
    | .ok _ => [(.delete, collection)]
    | .error _ => []
  | .applyWrites writesJson swapCommit => batchOperations lib s writesJson swapCommit o

/-- Every operation that the request performs is within the scopes. -/
def Confines (lib : RouteLibrary) (set : ScopeSet) (s : RepoStore) (o : RouteOutcomes)
    (call : WriteCall) : Prop :=
  ∀ op ∈ performedOps lib.toRepoLibrary s o.write call, allowsRepo set op.2 (repoAction op.1) = true

/-- What the envelope does not show is within the scopes as well: the deletes that clear the
way for a new record, the creation of a record that a put does not find, and every element of
a batch. -/
def HiddenAllowed (lib : RepoLibrary) (set : ScopeSet) (s : RepoStore) (o : WriteOutcomes) :
    WriteCall → Prop
  | .createRecord collection rkey recordJson swapCommit =>
    ∀ key value planned, checkCreate lib s collection rkey recordJson swapCommit o = .ok key →
      backlinkConflicts lib s collection key recordJson o ≠ [] →
      lib.parseJson recordJson = some value →
      planApplyWrites lib s (lib.printJson (cleanupWrites collection key value
        (backlinkConflicts lib s collection key recordJson o))) none o = .ok planned →
      allowsRepo set collection .delete = true
  | .putRecord collection rkey recordJson swapCommit swapRecord =>
    ∀ commit, planPut lib s collection rkey recordJson swapCommit swapRecord o =
        .ok (.write none commit) →
      allowsRepo set collection .create = true
  | .deleteRecord _ _ _ _ => True
  | .applyWrites writesJson swapCommit =>
    ∀ ops planned, lib.parseJson writesJson = some (.array ops) →
      planApplyWrites lib s writesJson swapCommit o = .ok planned →
      ∀ op ∈ ops, ∀ action collection, op.getString "$type" = some (WriteAction.type action) →
        op.getString "collection" = some collection →
        allowsRepo set collection (repoAction action) = true

/-- What is relied on of the JSON parser: a printed text that can be read at all reads back
as it was, its numbers perhaps apart. -/
structure ReadsBack (lib : RepoLibrary) (number : Double → Json) : Prop where
  plain : ∀ d, (number d).isObject = false ∧ (number d).valueString = none
  reads : ∀ j j', lib.parseJson (lib.printJson j) = some j' → j' = j.reread number

/-! ## Handlers and their calls -/

section Handlers

variable {lib : RouteLibrary} {s : RepoStore} {blobs : Option BlobStore} {req : RepoRequest}
  {o : RouteOutcomes}

theorem store_hCreateRecord : (hCreateRecord lib s blobs req o).store =
    match recordCall lib "com.atproto.repo.createRecord" req o with
    | some call => (s.write lib.toRepoLibrary call o.write).store
    | none => s := by
  simp only [hCreateRecord, recordCall, if_true]
  cases readCreate lib req o with
  | error response => rfl
  | ok input =>
    simp only [Except.toOption, Option.map_some, RepoStore.write, WriteResult.forget]
    generalize createRecordLocked lib.toRepoLibrary s input.collection input.rkey input.recordJson
      input.swapCommit o.write = r
    rcases r with ⟨store, error | ⟨uri, cid⟩, event⟩ <;> rfl

theorem store_hPutRecord : (hPutRecord lib s blobs req o).store =
    match recordCall lib "com.atproto.repo.putRecord" req o with
    | some call => (s.write lib.toRepoLibrary call o.write).store
    | none => s := by
  simp only [hPutRecord, recordCall, String.reduceEq, if_false, if_true]
  cases readPut lib req o with
  | error response => rfl
  | ok input =>
    simp only [Except.toOption, Option.map_some, RepoStore.write, WriteResult.forget]
    generalize putRecordLocked lib.toRepoLibrary s input.collection (input.rkey.getD "")
      input.recordJson input.swapCommit input.swapRecord o.write = r
    rcases r with ⟨store, error | ⟨uri, cid⟩, event⟩ <;> rfl

theorem store_hDeleteRecord : (hDeleteRecord lib s blobs req o).store =
    match recordCall lib "com.atproto.repo.deleteRecord" req o with
    | some call => (s.write lib.toRepoLibrary call o.write).store
    | none => s := by
  simp only [hDeleteRecord, recordCall, String.reduceEq, if_false, if_true]
  cases readDelete req o with
  | error response => rfl
  | ok input =>
    simp only [Except.toOption, Option.map_some, RepoStore.write, WriteResult.forget]
    generalize deleteRecordLocked lib.toRepoLibrary s input.collection (input.rkey.getD "")
      input.swapCommit input.swapRecord o.write = r
    rcases r with ⟨store, error | _, event⟩
    · dsimp only
      split <;> rfl
    · rfl

theorem store_hApplyWrites : (hApplyWrites lib s blobs req o).store =
    match recordCall lib "com.atproto.repo.applyWrites" req o with
    | some call => (s.write lib.toRepoLibrary call o.write).store
    | none => s := by
  simp only [hApplyWrites, recordCall, String.reduceEq, if_false, if_true]
  cases readApply lib req o with
  | error response => rfl
  | ok input =>
    simp only [Except.toOption, Option.map_some, RepoStore.write, WriteResult.forget]
    generalize applyWritesLocked lib.toRepoLibrary s (lib.printJson (.array input.writes))
      input.swapCommit o.write = r
    rcases r with ⟨store, error | applied, event⟩
    · rfl
    · dsimp only
      split <;> rfl

/-- A handler leaves the store as its call of the repository store does. -/
theorem store_recordHandler {nsid : String} {result : RouteResult}
    (h : recordHandler lib nsid s blobs req o = some result) :
    result.store =
      match recordCall lib nsid req o with
      | some call => (s.write lib.toRepoLibrary call o.write).store
      | none => s := by
  unfold recordHandler at h
  split at h
  · next hn => cases h; rw [hn]; exact store_hCreateRecord
  · split at h
    · next hn => cases h; rw [hn]; exact store_hPutRecord
    · split at h
      · next hn => cases h; rw [hn]; exact store_hDeleteRecord
      · split at h
        · next hn => cases h; rw [hn]; exact store_hApplyWrites
        · cases h

end Handlers

/-! ## Events -/

theorem ops_emitCommitEventOps {lib : RepoLibrary} {s : RepoStore} {oldHead : Cid}
    {ops : List RepoOp} {o : ExportOutcome} {event : CommitEvent}
    (h : emitCommitEventOps lib s oldHead ops o = some event) : event.ops = ops := by
  simp only [emitCommitEventOps, Option.bind_eq_bind, Option.bind_eq_some_iff] at h
  obtain ⟨current, -, blocks, -, h⟩ := h
  cases h
  rfl

/-- What the event of a write of one record tells. -/
theorem ops_landRecord {lib : RepoLibrary} {s : RepoStore} {collection rkey recordJson : String}
    {commit : RepoCommit} {action : WriteAction} {prev : Option Cid} {o : WriteOutcomes}
    {event : CommitEvent}
    (h : (landRecord lib s collection rkey recordJson commit action prev o).event = some event)
    {op : RepoOp} (hop : op ∈ event.ops) : (op.action, op.collection) = (action, collection) := by
  unfold landRecord at h
  split at h
  · cases h
  · split at h
    · cases h
    · rw [ops_emitCommitEventOps h, List.mem_singleton] at hop
      rw [hop]

/-- What the event of a batch tells. -/
theorem ops_applyWrites {lib : RepoLibrary} {s : RepoStore} {writesJson : String}
    {swapCommit : Option String} {o : WriteOutcomes} {event : CommitEvent}
    (h : (applyWritesLocked lib s writesJson swapCommit o).event = some event)
    {op : RepoOp} (hop : op ∈ event.ops) :
    (op.action, op.collection) ∈ batchOperations lib s writesJson swapCommit o := by
  cases hplan : planApplyWrites lib s writesJson swapCommit o with
  | error error =>
    rw [applyWritesLocked_error hplan] at h
    cases h
  | ok planned =>
    obtain ⟨writes, commit⟩ := planned
    rw [applyWritesLocked, hplan] at h
    simp only [batchOperations, hplan]
    have hops : ∀ {s' : RepoStore}, emitCommitEventOps lib s' s.head
        ((writes.zip commit.records).map fun w => batchOp w.1 w.2) o.exportOutcome = some event →
        (op.action, op.collection) ∈ writes.map fun w => (w.action, w.collection) := by
      intro s' hevent
      rw [ops_emitCommitEventOps hevent, List.mem_map] at hop
      obtain ⟨w, hw, rfl⟩ := hop
      exact List.mem_map.mpr ⟨w.1, (List.of_mem_zip hw).1, rfl⟩
    dsimp only at h
    split at h
    · cases h
    · split at h
      · cases h
      · split at h
        · exact hops h
        · exact hops h

/-- The operations that the event callback is told of are performed. -/
theorem event_ops_performed {lib : RepoLibrary} {s : RepoStore} {call : WriteCall}
    {o : WriteOutcomes} {event : CommitEvent} (h : (s.write lib call o).event = some event)
    {op : RepoOp} (hop : op ∈ event.ops) :
    (op.action, op.collection) ∈ performedOps lib s o call := by
  cases call with
  | createRecord collection rkey recordJson swapCommit =>
    simp only [RepoStore.write, WriteResult.forget, createRecordLocked] at h
    simp only [performedOps]
    cases hcheck : checkCreate lib s collection rkey recordJson swapCommit o with
    | error error => rw [hcheck] at h; cases h
    | ok key =>
      simp only [hcheck] at h ⊢
      split at h
      · next hconflicts =>
        rw [if_pos hconflicts]
        cases hvalue : lib.parseJson recordJson with
        | none =>
          rw [createRecordWithBacklinkCleanup, hvalue] at h
          cases h
        | some value =>
          rw [createRecordWithBacklinkCleanup, hvalue] at h
          apply ops_applyWrites _ hop
          dsimp only at h
          split at h
          · exact h
          · split at h
            · exact h
            · split at h <;> exact h
      · next hconflicts =>
        rw [if_neg hconflicts]
        cases hplan : planCreate lib s collection key recordJson o with
        | error error => rw [hplan] at h; cases h
        | ok commit =>
          rw [hplan] at h
          exact List.mem_singleton.mpr (ops_landRecord h hop)
  | putRecord collection rkey recordJson swapCommit swapRecord =>
    simp only [RepoStore.write, WriteResult.forget, putRecordLocked] at h
    simp only [performedOps]
    cases hplan : planPut lib s collection rkey recordJson swapCommit swapRecord o with
    | error error => rw [hplan] at h; cases h
    | ok plan =>
      rw [hplan] at h
      cases plan with
      | unchanged cid =>
        dsimp only at h
        split at h <;> cases h
      | write existing commit => exact List.mem_singleton.mpr (ops_landRecord h hop)
  | deleteRecord collection rkey swapCommit swapRecord =>
    simp only [RepoStore.write, WriteResult.forget, deleteRecordLocked] at h
    simp only [performedOps]
    cases hplan : planDelete lib s collection rkey swapCommit swapRecord o with
    | error error => rw [hplan] at h; cases h
    | ok planned =>
      rw [hplan] at h
      dsimp only at h
      split at h
      · cases h
      · rw [ops_emitCommitEventOps h, List.mem_singleton] at hop
        rw [hop]
        exact List.mem_singleton.mpr rfl
  | applyWrites writesJson swapCommit => exact ops_applyWrites h hop

/-! ## What the gate has checked -/

/-- The scope of a token that is let through contains the word `atproto`. -/
theorem oauthVerifyRequest_scope {auth : AuthLibrary} {issuer : String} {req : XrpcRequest}
    {method uri : String} {token : VerifiedToken}
    (h : oauthVerifyRequest auth issuer req method uri = .ok token) :
    (token.scope.any fun s => decide ("atproto".toList <:+: s.toList)) = true := by
  obtain ⟨verified, -, h⟩ := except_bind_ok h
  dsimp only at h
  split at h
  · next hall =>
    cases h
    exact hall.2.2.2.1
  · cases h

/-- A grant that the OAuth verifier lets through carries a scope. -/
theorem authenticateOauth_scope {auth : AuthLibrary} {server : MetalbearServer}
    {req : XrpcRequest} {sub scope : String}
    (h : authenticateOauth auth server req = .ok (sub, some scope)) : scope ≠ "" := by
  rintro rfl
  unfold authenticateOauth at h
  split at h
  · cases h
  · dsimp only at h
    split at h
    · cases h
    · obtain ⟨token, htoken, h⟩ := except_bind_ok h
      have hatproto := oauthVerifyRequest_scope htoken
      split at h
      · cases h
      · split at h
        · cases h
        · have hscope : token.scope = some "" := congrArg Prod.snd (Except.ok.inj h)
          rw [hscope] at hatproto
          revert hatproto
          decide

/-- What the gate has checked of a request that it lets through with an OAuth grant. -/
theorem granted_scopeAdmits {auth : AuthLibrary} {server : MetalbearServer} {o : AuthOutcomes}
    {req : XrpcRequest} {sub scope : String} (hadmin : isAdminRoute req.nsid = false)
    (hpublic : isPublicRoute req.nsid = false)
    (hdpop : isDpopRequest req.authHeader req.dpopHeader = true)
    (htoken : authenticateOauth auth server req = .ok (sub, some scope))
    (hshort : isFullAccess (scopeSetParse auth.toSyntax scope) = false)
    (hgrant : (authenticateRequest auth server o req).status = .ok) :
    scopeAdmits server (scopeSetParse auth.toSyntax scope) req = true := by
  simp only [authenticateRequest, hadmin, hpublic, Bool.false_eq_true, if_false] at hgrant
  split at hgrant
  · exact absurd hgrant (by decide)
  · simp only [authenticateBearer, hdpop, if_true, htoken] at hgrant
    split at hgrant
    · exact absurd hgrant (by decide)
    · split at hgrant
      · next hadmits =>
        simpa [oauthScopeAdmits, authenticateOauth_scope htoken, hshort] using hadmits
      · exact absurd hgrant (by decide)

theorem nsid_of_writeAction {nsid : String} {action : RepoAction}
    (h : writeAction nsid = some action) :
    nsid = "com.atproto.repo.createRecord" ∨ nsid = "com.atproto.repo.putRecord" ∨
      nsid = "com.atproto.repo.deleteRecord" := by
  unfold writeAction at h
  split at h
  · next hn => exact Or.inl hn
  · split at h
    · next hn => exact Or.inr (Or.inl hn)
    · split at h
      · next hn => exact Or.inr (Or.inr hn)
      · cases h

/-- Routes that write records are neither admin nor public, nor are they proxied. -/
theorem routes_of_writeAction {nsid : String} {action : RepoAction}
    (h : writeAction nsid = some action) :
    isAdminRoute nsid = false ∧ isPublicRoute nsid = false := by
  rcases nsid_of_writeAction h with rfl | rfl | rfl <;> decide

theorem proxied_of_writeAction {nsid : String} {action : RepoAction}
    (h : writeAction nsid = some action) : proxiedAppviewRpcRoute nsid = false := by
  rcases nsid_of_writeAction h with rfl | rfl | rfl <;> decide

/-- On a route that writes records the scopes are asked for the collection of the envelope. -/
theorem scopeAdmits_write {server : MetalbearServer} {set : ScopeSet} {req : XrpcRequest}
    {action : RepoAction} {collection : String} (haction : writeAction req.nsid = some action)
    (hcollection : paramString req "collection" = some collection)
    (h : scopeAdmits server set req = true) : allowsRepo set collection action = true := by
  have hproxied := proxied_of_writeAction haction
  rcases nsid_of_writeAction haction with hn | hn | hn
  all_goals
    rw [hn] at hproxied haction
    simpa [scopeAdmits, hn, hproxied, haction, hcollection] using h

/-! ## What a handler reads -/

theorem requestBody_eq_ok {req : RepoRequest} {body : Json} (h : requestBody req = .ok body) :
    req.params = some body := by
  unfold requestBody at h
  split at h
  · next hparams =>
    split at h
    · cases h
      exact hparams
    · cases h
  · cases h

theorem readCreate_collection {lib : RouteLibrary} {req : RepoRequest} {o : RouteOutcomes}
    {input : RecordInput} (h : readCreate lib req o = .ok input) :
    req.params.bind (·.getString "collection") = some input.collection := by
  obtain ⟨_, -, h⟩ := except_bind_ok h
  obtain ⟨_, -, h⟩ := except_bind_ok h
  obtain ⟨body, hbody, h⟩ := except_bind_ok h
  rw [requestBody_eq_ok hbody]
  split at h
  · next hcollection _ =>
    obtain ⟨_, -, h⟩ := except_bind_ok h
    obtain ⟨status, -, h⟩ := except_bind_ok h
    cases h
    exact hcollection
  · cases h

theorem readPut_collection {lib : RouteLibrary} {req : RepoRequest} {o : RouteOutcomes}
    {input : RecordInput} (h : readPut lib req o = .ok input) :
    req.params.bind (·.getString "collection") = some input.collection := by
  obtain ⟨_, -, h⟩ := except_bind_ok h
  obtain ⟨_, -, h⟩ := except_bind_ok h
  obtain ⟨body, hbody, h⟩ := except_bind_ok h
  rw [requestBody_eq_ok hbody]
  split at h
  · next hcollection _ _ =>
    obtain ⟨_, -, h⟩ := except_bind_ok h
    obtain ⟨status, -, h⟩ := except_bind_ok h
    cases h
    exact hcollection
  · cases h

theorem readDelete_collection {req : RepoRequest} {o : RouteOutcomes} {input : RecordInput}
    (h : readDelete req o = .ok input) :
    req.params.bind (·.getString "collection") = some input.collection := by
  obtain ⟨_, -, h⟩ := except_bind_ok h
  obtain ⟨body, hbody, h⟩ := except_bind_ok h
  rw [requestBody_eq_ok hbody]
  split at h
  · next hcollection _ =>
    cases h
    exact hcollection
  · cases h

/-! ## Batches -/

/-- Every write of a staged batch comes from an element, and every element gives one. -/
theorem stages_mem {ops : List Json} {writes : List RepoWrite}
    (h : List.Forall₂ Stages ops writes) :
    (∀ write ∈ writes, ∃ op ∈ ops, Stages op write) ∧
      ∀ op ∈ ops, ∃ write ∈ writes, Stages op write := by
  induction h with
  | nil => exact ⟨nofun, nofun⟩
  | @cons op write ops writes hstages _ ih =>
    constructor
    · intro w hw
      rcases List.mem_cons.mp hw with rfl | hw
      · exact ⟨op, List.mem_cons_self, hstages⟩
      · obtain ⟨op', hop', hs⟩ := ih.1 w hw
        exact ⟨op', List.mem_cons_of_mem _ hop', hs⟩
    · intro op' hop'
      rcases List.mem_cons.mp hop' with rfl | hop'
      · exact ⟨write, List.mem_cons_self, hstages⟩
      · obtain ⟨w, hw, hs⟩ := ih.2 op' hop'
        exact ⟨w, List.mem_cons_of_mem _ hw, hs⟩

/-- The operations of a planned batch are those that its elements name. -/
theorem mem_batchOperations {lib : RepoLibrary} {s : RepoStore} {writesJson : String}
    {swapCommit : Option String} {o : WriteOutcomes} {planned : List RepoWrite × RepoCommit}
    (h : planApplyWrites lib s writesJson swapCommit o = .ok planned) :
    ∃ ops, lib.parseJson writesJson = some (.array ops) ∧
      ∀ action collection, (action, collection) ∈ batchOperations lib s writesJson swapCommit o ↔
        ∃ op ∈ ops, op.getString "$type" = some (WriteAction.type action) ∧
          op.getString "collection" = some collection := by
  obtain ⟨writes, commit⟩ := planned
  obtain ⟨ops, hparse, hstages⟩ := planApplyWrites_stages h
  obtain ⟨hback, hforth⟩ := stages_mem hstages
  refine ⟨ops, hparse, fun action collection => ?_⟩
  simp only [batchOperations, h, List.mem_map, Prod.mk.injEq]
  constructor
  · rintro ⟨write, hwrite, rfl, rfl⟩
    obtain ⟨op, hop, hs⟩ := hback write hwrite
    exact ⟨op, hop, hs.type, hs.collection⟩
  · rintro ⟨op, hop, htype, hcollection⟩
    obtain ⟨write, hwrite, hs⟩ := hforth op hop
    refine ⟨write, hwrite, ?_, ?_⟩
    · exact WriteAction.type_injective (Option.some.inj (hs.type.symm.trans htype))
    · exact Option.some.inj (hs.collection.symm.trans hcollection)

/-- The batch that makes way for a new record deletes in its collection and creates there. -/
theorem mem_cleanupOperations {lib : RepoLibrary} {number : Double → Json}
    (hlib : ReadsBack lib number) {s : RepoStore} {collection key : String} {value : Json}
    {conflicts : List String} {o : WriteOutcomes} {planned : List RepoWrite × RepoCommit}
    (hconflicts : conflicts ≠ [])
    (h : planApplyWrites lib s (lib.printJson (cleanupWrites collection key value conflicts)) none
      o = .ok planned) (op : WriteAction × String) :
    op ∈ batchOperations lib s (lib.printJson (cleanupWrites collection key value conflicts)) none
        o ↔ op = (.delete, collection) ∨ op = (.create, collection) := by
  obtain ⟨ops, hparse, hops⟩ := mem_batchOperations h
  have hread := hlib.reads _ _ hparse
  rw [cleanupWrites, Json.reread, Json.array.injEq, Json.rereadItems_eq_map] at hread
  obtain ⟨action, c⟩ := op
  rw [hops, hread]
  simp only [List.mem_map, exists_exists_and_eq_and, Json.getString_reread hlib.plain,
    Prod.mk.injEq]
  -- every element of the batch is one or the other
  have helement : ∀ j ∈ conflicts.map (fun conflict => Json.object
      [("$type", .string WriteAction.delete.type), ("collection", .string collection),
        ("rkey", .string conflict)]) ++
      [.object [("$type", .string WriteAction.create.type), ("collection", .string collection),
        ("rkey", .string key), ("value", value)]],
      j.getString "collection" = some collection ∧
        (j.getString "$type" = some WriteAction.delete.type ∨
          j.getString "$type" = some WriteAction.create.type) := by
    intro j hj
    rcases List.mem_append.mp hj with hj | hj
    · obtain ⟨conflict, -, rfl⟩ := List.mem_map.mp hj
      exact ⟨rfl, Or.inl rfl⟩
    · rw [List.mem_singleton.mp hj]
      exact ⟨rfl, Or.inr rfl⟩
  constructor
  · rintro ⟨j, hj, htype, hcollection⟩
    obtain ⟨hc, ht⟩ := helement j hj
    have hsame : c = collection := Option.some.inj (hcollection.symm.trans hc)
    rcases ht with ht | ht
    · exact Or.inl ⟨WriteAction.type_injective (Option.some.inj (htype.symm.trans ht)), hsame⟩
    · exact Or.inr ⟨WriteAction.type_injective (Option.some.inj (htype.symm.trans ht)), hsame⟩
  · rintro (⟨rfl, rfl⟩ | ⟨rfl, rfl⟩)
    · obtain ⟨conflict, hconflict⟩ := List.exists_mem_of_ne_nil conflicts hconflicts
      exact ⟨_, List.mem_append_left _ (List.mem_map.mpr ⟨conflict, hconflict, rfl⟩), rfl, rfl⟩
    · exact ⟨_, List.mem_append_right _ (List.mem_singleton.mpr rfl), rfl, rfl⟩

/-! ## The main result -/

/-- A create is confined exactly if the deletes that make way for it are allowed. -/
theorem confines_createRecord_iff {lib : RouteLibrary} {number : Double → Json}
    (hlib : ReadsBack lib.toRepoLibrary number) {set : ScopeSet} {s : RepoStore}
    {o : RouteOutcomes} {collection : String} {rkey : Option String} {recordJson : String}
    {swapCommit : Option String} (hset : allowsRepo set collection .create = true) :
    Confines lib set s o (.createRecord collection rkey recordJson swapCommit) ↔
      HiddenAllowed lib.toRepoLibrary set s o.write
        (.createRecord collection rkey recordJson swapCommit) := by
  simp only [Confines, performedOps, HiddenAllowed]
  cases hcheck : checkCreate lib.toRepoLibrary s collection rkey recordJson swapCommit
      o.write with
  | error error => simp
  | ok key =>
    dsimp only
    by_cases hconflicts : backlinkConflicts lib.toRepoLibrary s collection key recordJson
        o.write = []
    · rw [if_neg (not_not_intro hconflicts)]
      refine iff_of_true ?_ ?_
      · cases planCreate lib.toRepoLibrary s collection key recordJson o.write with
        | error error => exact nofun
        | ok commit =>
          intro op hop
          rw [List.mem_singleton.mp hop]
          exact hset
      · intro key' value planned heq hne
        cases heq
        exact absurd hconflicts hne
    · rw [if_pos hconflicts]
      cases hvalue : lib.parseJson recordJson with
      | none => exact iff_of_true nofun fun _ _ _ _ _ hv => nomatch hv
      | some value =>
        dsimp only
        cases hplan : planApplyWrites lib.toRepoLibrary s (lib.printJson (cleanupWrites collection
            key value (backlinkConflicts lib.toRepoLibrary s collection key recordJson o.write)))
            none o.write with
        | error error =>
          simp only [batchOperations, hplan]
          refine iff_of_true nofun ?_
          intro key' value' planned heq _ hv hplan'
          cases heq
          cases hv
          rw [hplan] at hplan'
          cases hplan'
        | ok planned =>
          have hops := mem_cleanupOperations hlib hconflicts hplan
          constructor
          · intro hall _ _ _ _ _ _ _
            exact hall (.delete, collection) ((hops _).mpr (Or.inl rfl))
          · intro hdelete op hop
            rcases (hops op).mp hop with rfl | rfl
            · exact hdelete key value planned rfl hconflicts rfl hplan
            · exact hset

/-- A put is confined exactly if it finds the record or may create it. -/
theorem confines_putRecord_iff {lib : RouteLibrary} {set : ScopeSet} {s : RepoStore}
    {o : RouteOutcomes} {collection rkey recordJson : String}
    {swapCommit swapRecord : Option String} (hset : allowsRepo set collection .update = true) :
    Confines lib set s o (.putRecord collection rkey recordJson swapCommit swapRecord) ↔
      HiddenAllowed lib.toRepoLibrary set s o.write
        (.putRecord collection rkey recordJson swapCommit swapRecord) := by
  simp only [Confines, performedOps, HiddenAllowed]
  cases planPut lib.toRepoLibrary s collection rkey recordJson swapCommit swapRecord o.write with
  | error error => simp
  | ok plan =>
    cases plan with
    | unchanged cid => simp
    | write existing commit =>
      cases existing with
      | none => simp [repoAction]
      | some cid => simp [repoAction, hset]

theorem confines_deleteRecord {lib : RouteLibrary} {set : ScopeSet} {s : RepoStore}
    {o : RouteOutcomes} {collection rkey : String} {swapCommit swapRecord : Option String}
    (hset : allowsRepo set collection .delete = true) :
    Confines lib set s o (.deleteRecord collection rkey swapCommit swapRecord) := by
  simp only [Confines, performedOps]
  cases planDelete lib.toRepoLibrary s collection rkey swapCommit swapRecord o.write with
  | error error => exact nofun
  | ok planned =>
    intro op hop
    rw [List.mem_singleton.mp hop]
    exact hset

/-- A batch is confined exactly if each of its elements is allowed. -/
theorem confines_applyWrites_iff {lib : RouteLibrary} {set : ScopeSet} {s : RepoStore}
    {o : RouteOutcomes} {writesJson : String} {swapCommit : Option String} :
    Confines lib set s o (.applyWrites writesJson swapCommit) ↔
      HiddenAllowed lib.toRepoLibrary set s o.write (.applyWrites writesJson swapCommit) := by
  simp only [Confines, performedOps, HiddenAllowed]
  cases hplan : planApplyWrites lib.toRepoLibrary s writesJson swapCommit o.write with
  | error error => simp [batchOperations, hplan]
  | ok planned =>
    obtain ⟨ops, hparse, hops⟩ := mem_batchOperations hplan
    constructor
    · intro hall ops' _ hparse' _ op hop action collection htype hcollection
      rw [hparse] at hparse'
      cases hparse'
      exact hall (action, collection) ((hops _ _).mpr ⟨op, hop, htype, hcollection⟩)
    · rintro hall ⟨action, collection⟩ hop
      obtain ⟨op, hmem, htype, hcollection⟩ := (hops _ _).mp hop
      exact hall ops planned hparse rfl op hmem action collection htype hcollection

/-- The operations of a request that the gate lets through with an OAuth grant short of full
access are within its scopes exactly if what the envelope does not show is. -/
theorem oauthWrites_confined_iff (auth : AuthLibrary) (lib : RouteLibrary)
    (number : Double → Json) (hlib : ReadsBack lib.toRepoLibrary number)
    (server : MetalbearServer) (o : AuthOutcomes) (req : XrpcRequest) (sub scope : String)
    (hdpop : isDpopRequest req.authHeader req.dpopHeader = true)
    (htoken : authenticateOauth auth server req = .ok (sub, some scope))
    (hshort : isFullAccess (scopeSetParse auth.toSyntax scope) = false)
    (hgrant : (authenticateRequest auth server o req).status = .ok)
    (bodyLen : Nat) (routes : RouteOutcomes) (s : RepoStore) :
    (∀ call, recordCall lib req.nsid ⟨req.params, bodyLen⟩ routes = some call →
        Confines lib (scopeSetParse auth.toSyntax scope) s routes call) ↔
      ∀ call, recordCall lib req.nsid ⟨req.params, bodyLen⟩ routes = some call →
        HiddenAllowed lib.toRepoLibrary (scopeSetParse auth.toSyntax scope) s routes.write call := by
  apply forall_congr'
  intro call
  apply imp_congr_right
  intro hcall
  have hadmits : ∀ {action collection}, writeAction req.nsid = some action →
      paramString req "collection" = some collection →
      allowsRepo (scopeSetParse auth.toSyntax scope) collection action = true := by
    intro action collection haction hcollection
    obtain ⟨hadmin, hpublic⟩ := routes_of_writeAction haction
    exact scopeAdmits_write haction hcollection
      (granted_scopeAdmits hadmin hpublic hdpop htoken hshort hgrant)
  unfold recordCall at hcall
  split at hcall
  · next hnsid =>
    cases hread : readCreate lib ⟨req.params, bodyLen⟩ routes with
    | error response => rw [hread] at hcall; cases hcall
    | ok input =>
      rw [hread] at hcall
      cases hcall
      exact confines_createRecord_iff hlib
        (hadmits (by rw [hnsid]; rfl) (readCreate_collection hread))
  · split at hcall
    · next hnsid =>
      cases hread : readPut lib ⟨req.params, bodyLen⟩ routes with
      | error response => rw [hread] at hcall; cases hcall
      | ok input =>
        rw [hread] at hcall
        cases hcall
        exact confines_putRecord_iff (hadmits (by rw [hnsid]; rfl) (readPut_collection hread))
    · split at hcall
      · next hnsid =>
        cases hread : readDelete ⟨req.params, bodyLen⟩ routes with
        | error response => rw [hread] at hcall; cases hcall
        | ok input =>
          rw [hread] at hcall
          cases hcall
          exact iff_of_true (confines_deleteRecord
            (hadmits (by rw [hnsid]; rfl) (readDelete_collection hread))) trivial
      · split at hcall
        · cases hread : readApply lib ⟨req.params, bodyLen⟩ routes with
          | error response => rw [hread] at hcall; cases hcall
          | ok input =>
            rw [hread] at hcall
            cases hcall
            exact confines_applyWrites_iff
        · cases hcall

end MetalBear.Server
