import MetalBear.Repo.FailedWrite
import MetalBear.Repo.Routes

/-!
# Importing a repository

The handler of `com.atproto.repo.importRepo`. An import adopts a foreign commit as it is, and
notes a fresh rev beside it, which is not the one inside the commit: the rev override. The
parser and the verifiers of CAR files are parameters.
-/

namespace MetalBear.Repo

open Transaction

/-- `wf_car`: the roots and the blocks. -/
structure Car where
  roots : List Cid
  blocks : List Cid
  deriving DecidableEq, Repr

/-- `wf_repo_diff`, as far as the handler reads it. -/
structure RepoDiff where
  operations : List (WriteAction × Cid)
  newBlocks : List Cid
  commit : Cid
  deriving DecidableEq, Repr

/-- The library functions that an import calls. -/
structure ImportLibrary extends BlockLibrary where
  /-- `wf_car_parse`. -/
  carParse : List UInt8 → Option Car
  /-- `wf_repo_verify`, for a DID and a key. -/
  repoVerify : Car → String → String → Bool
  /-- `wf_repo_diff_verify`: the live blocks and head, the imported CAR, the DID and the
  account's own key. -/
  repoDiffVerify : List Cid → Cid → Car → String → String → Option RepoDiff

/-- What an import is decided on beside the store. -/
structure ImportRequest where
  acceptingImports : Bool
  maxImportSize : Int
  body : List UInt8
  signingKeyDidkey : String

/-- What the outside decides while a repository is imported. -/
structure ImportOutcomes where
  /-- What `resolve_repo` answers, if it gives no store. -/
  refusal : Option XrpcResponse
  /-- `wf_xrpc_client_new` gives a client. -/
  connects : Bool
  /-- `wf_did_resolve_verification_key`, for the key that the DID document names. -/
  publishedKey : Option String
  /-- There is memory for the block at that index. -/
  grows : Nat → Bool
  persist : PersistOutcomes
  /-- What the statements of `reindex_all` make of the table. -/
  reindex : List RecordRow → List RecordRow
  /-- `wf_tid_now`. -/
  freshRev : Option String
  /-- The head row with the override gets through. -/
  writesOverride : Bool
  /-- There is memory for the response. -/
  prints : Bool

/-- The end of an import. -/
structure ImportResult where
  store : RepoStore
  returned : Except WfError XrpcResponse
  /-- What `set_rev_override` was called with, if it was. -/
  setRev : Option String

/-- An import that ends without an override. -/
def ImportResult.stop (s : RepoStore) (returned : Except WfError XrpcResponse) : ImportResult :=
  ⟨s, returned, none⟩

/-- The loop that adds the blocks the store lacks, until memory runs out. -/
def mergeBlocks (grows : Nat → Bool) : Nat → List Cid → List Cid → List Cid × Bool
  | _, [], car => (car, true)
  | i, cid :: rest, car =>
    if cid ∈ car then mergeBlocks grows (i + 1) rest car
    else if grows i then mergeBlocks grows (i + 1) rest (car ++ [cid])
    else (car, false)

/-- The empty object that an import answers with. -/
def emptyBody (o : ImportOutcomes) : Except WfError XrpcResponse :=
  if o.prints then .ok (.body "\x7b\x7d") else .error .alloc

/-- The end of both branches once the blocks are merged: the imported commit is persisted as
the head, and the fresh rev is set over it. -/
def adoptCommit (lib : ImportLibrary) (s : RepoStore) (newHead : Cid) (o : ImportOutcomes) :
    ImportResult :=
  match commitPersist lib.toBlockLibrary s newHead o.persist with
  | (s, some _) => .stop s (.ok (.error 500 "InternalError" "failed to persist imported repo"))
  | (s, none) =>
    let s := { s with db := s.db.write fun t => { t with records := o.reindex t.records } }
    let s := match o.freshRev with
      | some rev => (setRevOverride s rev o.writesOverride).1
      | none => s
    ⟨s, emptyBody o, o.freshRev⟩

/-- A 400 response that finds fault with the CAR. -/
def invalidCar (message : String) : Except WfError XrpcResponse :=
  .ok (.error 400 "InvalidCAR" message)

/-- The branch for a repository without a commit. -/
def importOntoEmpty (lib : ImportLibrary) (s : RepoStore) (imported : Car) (o : ImportOutcomes) :
    ImportResult :=
  if o.connects = false then .stop s (.error .alloc)
  else
    match o.publishedKey with
    | none =>
      .stop s (invalidCar "could not resolve this DID's currently published signing key")
    | some key =>
      if lib.repoVerify imported s.did key = false then
        .stop s (invalidCar "imported CAR failed verification")
      else
        let (car, merged) := mergeBlocks o.grows 0 imported.blocks s.car
        if merged then adoptCommit lib { s with car } (imported.roots.headD "") o
        else .stop { s with car } (.error .alloc)

/-- The branch for a repository that has a commit. -/
def importOntoHead (lib : ImportLibrary) (s : RepoStore) (req : ImportRequest) (imported : Car)
    (o : ImportOutcomes) : ImportResult :=
  match lib.repoDiffVerify s.car s.head imported s.did req.signingKeyDidkey with
  | none => .stop s (invalidCar "imported CAR failed verification")
  | some diff =>
    if diff.operations = [] then .stop s (emptyBody o)
    else if diff.operations.any fun op => op.1 ≠ .delete ∧ op.2 ∉ diff.newBlocks then
      .stop s (invalidCar "imported CAR is missing a referenced record block")
    else
      let (car, merged) := mergeBlocks o.grows 0 diff.newBlocks s.car
      if merged then adoptCommit lib { s with car } diff.commit o
      else .stop { s with car } (.error .alloc)

/-- `h_import_repo`. -/
def importRepo (lib : ImportLibrary) (s : RepoStore) (req : ImportRequest) (o : ImportOutcomes) :
    ImportResult :=
  if req.acceptingImports = false then
    .stop s (.ok (invalidRequest "Service is not accepting repo imports"))
  else
    match o.refusal with
    | some response => .stop s (.ok response)
    | none =>
      if req.body = [] then .stop s (.ok (invalidRequest "CAR body required"))
      else if 0 < req.maxImportSize ∧ req.maxImportSize < req.body.length then
        .stop s (.ok (invalidRequest "CAR body exceeds maximum import size"))
      else
        match lib.carParse req.body with
        | none => .stop s (invalidCar "imported CAR failed to parse")
        | some imported =>
          if imported.roots.length ≠ 1 then .stop s (.ok (invalidRequest "expected one root"))
          else if s.head = "" then importOntoEmpty lib s imported o
          else importOntoHead lib s req imported o

/-! ## Head rows -/

/-- Every head row that the database may come to show: the durable one and the one of an open
transaction. -/
def HeadRows (p : Option HeadRow → Prop) (db : Db Tables) : Prop :=
  p db.durable.head ∧ ∀ t ∈ db.pending, p t.head

section HeadRows

variable {p : Option HeadRow → Prop} {db : Db Tables}

theorem HeadRows.write (h : HeadRows p db) {f : Tables → Tables}
    (hf : ∀ t, p t.head → p (f t).head) : HeadRows p (db.write f) := by
  obtain ⟨hd, hp⟩ := h
  cases hpend : db.pending with
  | none => simpa [HeadRows, Db.write, hpend] using hf _ hd
  | some t => exact ⟨by simpa [Db.write, hpend] using hd, by
      simpa [Db.write, hpend] using hf t (hp t hpend)⟩

theorem HeadRows.commit (h : HeadRows p db) (outcome : CommitOutcome) :
    HeadRows p (db.commit outcome) := by
  obtain ⟨hd, hp⟩ := h
  cases hpend : db.pending with
  | none => cases outcome <;> simpa [HeadRows, Db.commit, hpend] using hd
  | some t =>
    have := hp t hpend
    cases outcome <;> simp [HeadRows, Db.commit, hpend, this, hd]

theorem HeadRows.start (h : HeadRows p db) : HeadRows p db.start :=
  ⟨h.1, by simpa [Db.start] using h.1⟩

theorem HeadRows.rollback (h : HeadRows p db) : HeadRows p db.rollback :=
  ⟨h.1, by simp [Db.rollback]⟩

theorem HeadRows.insertBlocks (h : HeadRows p db) (revision : String)
    (insertError : Nat → Option WfError) (i : Nat) (cids : List Cid) :
    HeadRows p (insertBlocks revision insertError i cids db).1 := by
  induction cids generalizing i db with
  | nil => exact h
  | cons cid cids ih =>
    simp only [Repo.insertBlocks]
    cases insertError i with
    | some error => exact h
    | none => exact ih (h.write fun t ht => by simpa using ht) (i + 1)

/-- `commit_persist` writes no head row but that of the new head without an override. -/
theorem HeadRows.commitPersist {s : RepoStore} (h : HeadRows p s.db) (lib : BlockLibrary)
    (newHead : Cid) (o : PersistOutcomes)
    (hnew : p (some ⟨if newHead = "" then none else some newHead, none⟩)) :
    HeadRows p (commitPersist lib s newHead o).1.db := by
  simp only [Repo.commitPersist, persistNewBlocks, persistHead]
  split
  · have hins := h.start.insertBlocks
      ((((lib.findBlock s.car newHead).bind lib.commitParse).map Commit.rev).getD "")
      o.insertError s.persistedBlocks (s.car.drop s.persistedBlocks)
    revert hins
    generalize Repo.insertBlocks _ o.insertError s.persistedBlocks
      (s.car.drop s.persistedBlocks) s.db.start = out
    rcases out with ⟨db, _ | error⟩ <;> intro hins
    · have hput : HeadRows p (db.write (.putHead ⟨if newHead = "" then none else some newHead,
          none⟩)) := hins.write fun t _ => by simpa using hnew
      cases o.writesHead with
      | true => exact hput.commit o.commit
      | false =>
        cases o.rollsBack
        · exact hins
        · exact hins.rollback
    · cases o.rollsBack
      · exact hins
      · exact hins.rollback
  · exact h

theorem HeadRows.indexUpsertRecord {s : RepoStore} (h : HeadRows p s.db) (lib : RepoLibrary)
    (collection rkey : String) (cid : Cid) (value : String) (writes : Bool) :
    HeadRows p (indexUpsertRecord lib s collection rkey cid value writes).db := by
  cases writes with
  | true => exact h.write fun t ht => ht
  | false => exact h

theorem HeadRows.indexDeleteRecord {s : RepoStore} (h : HeadRows p s.db)
    (collection rkey : String) (writes : Bool) :
    HeadRows p (indexDeleteRecord s collection rkey writes).db := by
  cases writes with
  | true => exact h.write fun t ht => ht
  | false => exact h

end HeadRows

/-! ## What an import leaves -/

/-- An adopted commit is the head, and the override is the fresh rev if that was set. -/
theorem adoptCommit_frame (lib : ImportLibrary) (s : RepoStore) (newHead : Cid)
    (o : ImportOutcomes) :
    (adoptCommit lib s newHead o).store.head = newHead ∧
      (adoptCommit lib s newHead o).store.revOverride = (adoptCommit lib s newHead o).setRev := by
  obtain ⟨hhead, hover, -, -⟩ := commitPersist_frame lib.toBlockLibrary s newHead o.persist
  rw [adoptCommit]
  generalize commitPersist lib.toBlockLibrary s newHead o.persist = r at hhead hover ⊢
  rcases r with ⟨s', _ | error⟩
  · cases o.freshRev with
    | none => exact ⟨hhead, hover⟩
    | some rev =>
      have hhead : s'.head = newHead := hhead
      cases o.writesOverride <;> simp [setRevOverride, persistHead, hhead]
  · exact ⟨hhead, hover⟩

/-- The head rows after an adoption: those from before, the new head's, and the new head's
with the override. -/
theorem HeadRows.adoptCommit {p : Option HeadRow → Prop} {s : RepoStore} (h : HeadRows p s.db)
    (lib : ImportLibrary) (newHead : Cid) (o : ImportOutcomes)
    (hnew : p (some ⟨if newHead = "" then none else some newHead, none⟩))
    (hset : ∀ rev, (adoptCommit lib s newHead o).setRev = some rev →
      p (some ⟨if newHead = "" then none else some newHead, some rev⟩)) :
    HeadRows p (adoptCommit lib s newHead o).store.db := by
  obtain ⟨hhead, -, -, -⟩ := commitPersist_frame lib.toBlockLibrary s newHead o.persist
  have hdb := h.commitPersist lib.toBlockLibrary newHead o.persist hnew
  rw [Repo.adoptCommit] at hset ⊢
  generalize Repo.commitPersist lib.toBlockLibrary s newHead o.persist = r at hhead hdb hset ⊢
  rcases r with ⟨s', _ | error⟩
  · have hhead : s'.head = newHead := hhead
    have hindexed : HeadRows p (s'.db.write fun t => { t with records := o.reindex t.records }) :=
      hdb.write fun t ht => ht
    cases hfresh : o.freshRev with
    | none => simpa only [hfresh] using hindexed
    | some rev =>
      have hrow := hset rev hfresh
      simp only [setRevOverride, persistHead, headRow]
      cases o.writesOverride with
      | false => exact hindexed
      | true =>
        refine hindexed.write fun t _ => ?_
        simpa [hhead] using hrow
  · exact hdb

/-- An import adds blocks at most, or adopts a commit on top of them. -/
theorem importRepo_cases (lib : ImportLibrary) (s : RepoStore) (req : ImportRequest)
    (o : ImportOutcomes) :
    (∃ car, (importRepo lib s req o).store = { s with car } ∧
        (importRepo lib s req o).setRev = none) ∨
      ∃ car newHead, importRepo lib s req o = adoptCommit lib { s with car } newHead o := by
  have hstop : ∀ car returned, (∃ car', (ImportResult.stop { s with car } returned).store =
      { s with car := car' } ∧ (ImportResult.stop { s with car } returned).setRev = none) :=
    fun car _ => ⟨car, rfl, rfl⟩
  rw [importRepo]
  split
  · exact Or.inl (hstop s.car _)
  split
  · exact Or.inl (hstop s.car _)
  split
  · exact Or.inl (hstop s.car _)
  split
  · exact Or.inl (hstop s.car _)
  split
  · exact Or.inl (hstop s.car _)
  next imported _ =>
    split
    · exact Or.inl (hstop s.car _)
    split
    · rw [importOntoEmpty]
      split
      · exact Or.inl (hstop s.car _)
      split
      · exact Or.inl (hstop s.car _)
      split
      · exact Or.inl (hstop s.car _)
      dsimp only
      split
      · exact Or.inr ⟨_, _, rfl⟩
      · exact Or.inl (hstop _ _)
    · rw [importOntoHead]
      split
      · exact Or.inl (hstop s.car _)
      split
      · exact Or.inl (hstop s.car _)
      split
      · exact Or.inl (hstop s.car _)
      dsimp only
      split
      · exact Or.inr ⟨_, _, rfl⟩
      · exact Or.inl (hstop _ _)

end MetalBear.Repo
