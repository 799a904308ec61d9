import MetalBear.Repo.AnnouncedRev
import MetalBear.Repo.Overlap

/-!
# Batches of one write

The repository store has two ways to the same end: a function for every kind of write, and a
batch. Here a batch of one element is put beside the write that it stands for, in every state
that a store can reach and with nothing failing on the way, and it is settled for which writes
the two leave the same contents, the same `records` table and the same event.
-/

namespace MetalBear.Repo

open Machine Transaction

/-! ## One write, written twice -/

/-- A write of one record, as its caller gives it. -/
structure SingleWrite where
  action : WriteAction
  collection : String
  rkey : Option String
  value : Json

/-- The element of a batch that asks for the write. -/
structure SingleWrite.Denotes (w : SingleWrite) (element : Json) : Prop where
  type : element.getString "$type" = some w.action.type
  collection : element.getString "collection" = some w.collection
  rkey : element.getString "rkey" = w.rkey
  value : w.action ≠ .delete → element.getObjectItem "value" = some w.value

/-- The call of the function for that kind of write. -/
def SingleWrite.call (lib : RepoLibrary) (w : SingleWrite) (swapCommit : Option String) :
    WriteCall :=
  match w.action with
  | .create => .createRecord w.collection w.rkey (lib.printJson w.value) swapCommit
  | .update =>
    .putRecord w.collection (w.rkey.getD "") (lib.printJson w.value) swapCommit none
  | .delete => .deleteRecord w.collection (w.rkey.getD "") swapCommit none

/-- The record key of a create: the given one, or the one that is minted. -/
def SingleWrite.key (w : SingleWrite) (o : WriteOutcomes) : String :=
  (w.rkey.filter (· ≠ "")).getD ((o.tids 0).getD "")

/-- Every statement and every allocation gets through. -/
structure WriteOutcomes.NothingFails (o : WriteOutcomes) : Prop where
  begins : o.persist.begins = true
  inserts : ∀ i, o.persist.insertError i = none
  writesHead : o.persist.writesHead = true
  commit : o.persist.commit = .committed
  indexes : ∀ i, o.indexes i = true
  allocates : ∀ i, o.allocates i = true
  prepares : o.exportOutcome.prepares = true
  exportsAll : o.exportOutcome.failsAfter = none

/-! ## The same effect -/

/-- A row of `records`, less the rev. -/
def RecordRow.lessRev (row : RecordRow) : RecordRow := { row with repoRev := none }

/-- Two events of one write, less the rev and the signed commit. -/
structure SameEvent (e e' : CommitEvent) : Prop where
  since : e'.since = e.since
  prevData : e'.prevData = e.prevData
  ops : e'.ops = e.ops
  blocks : ∀ cid, cid ≠ e.commitCid → cid ≠ e'.commitCid → (cid ∈ e'.blocks ↔ cid ∈ e.blocks)

/-- Two writes lead to the same contents, the same index and the same event. -/
structure SameEffect (lib : RepoLibrary) (r r' : WriteResult Unit) : Prop where
  contents : ∀ collection rkey,
    recordCid lib r'.store.car r'.store.head collection rkey =
      recordCid lib r.store.car r.store.head collection rkey
  records : r'.store.db.view.records.map RecordRow.lessRev =
    r.store.db.view.records.map RecordRow.lessRev
  event : (r.event = none ∧ r'.event = none) ∨
    ∃ e e', r.event = some e ∧ r'.event = some e' ∧ SameEvent e e'

/-- Both succeed, and to the same effect. -/
structure Agrees (lib : RepoLibrary) (r r' : WriteResult Unit) : Prop where
  single : r.status = .ok
  batch : r'.status = .ok
  effect : SameEffect lib r r'

/-! ## What is relied on -/

/-- A new commit is a block of its own, and its rev is later than that of the commit below. -/
structure Signed (lib : RepoLibrary) (head : Cid) (built : RepoCommit) : Prop where
  ne : built.commit ≠ ""
  mem : built.commit ∈ built.blocks
  later : ∃ commit, lib.commitParse (lib.content built.commit) = some commit ∧
    ∀ previous, lib.commitParse (lib.content head) = some previous → previous.rev < commit.rev

/-- Two new commits over the same tree. -/
structure SameTree (lib : RepoLibrary) (car : List Cid) (c c' : RepoCommit) : Prop where
  records : c'.records = c.records
  contents : ∀ collection rkey,
    recordCid lib (car ++ c'.blocks) c'.commit collection rkey =
      recordCid lib (car ++ c.blocks) c.commit collection rkey
  blocks : ∀ cid, cid ≠ c.commit → cid ≠ c'.commit → (cid ∈ c'.blocks ↔ cid ∈ c.blocks)

/-- What is relied on of the repository library and of the JSON printer: every commit is
signed, a batch gives a CID for every write, a batch of one create builds what the create
builds, and a printed array reads back with all its elements. -/
structure BatchLaws (lib : RepoLibrary) : Prop where
  create : ∀ clock car head collection rkey body c,
    lib.repoCreateRecord clock car head collection rkey body = .ok c → Signed lib head c
  update : ∀ clock car head collection rkey body c,
    lib.repoUpdateRecord clock car head collection rkey body = .ok c → Signed lib head c
  delete : ∀ clock car head collection rkey c,
    lib.repoDeleteRecord clock car head collection rkey = .ok c → Signed lib head c
  apply : ∀ clock car head writes c, lib.repoApplyWrites clock car head writes = .ok c →
    Signed lib head c ∧ c.records.length = writes.length
  single : ∀ clock car head collection rkey body value,
    (∃ c c', lib.repoCreateRecord clock car head collection rkey body = .ok c ∧
        lib.repoApplyWrites clock car head [⟨.create, collection, rkey, body, value⟩] = .ok c' ∧
        SameTree lib car c c') ∨
      ∃ error error', lib.repoCreateRecord clock car head collection rkey body = .error error ∧
        lib.repoApplyWrites clock car head [⟨.create, collection, rkey, body, value⟩] =
          .error error'
  array : ∀ ops j, lib.parseJson (lib.printJson (.array ops)) = some j →
    ∃ ops', j = .array ops' ∧ ops'.length = ops.length

/-! ## Rows and blocks in every reachable state -/

/-- Every row of `blocks` stands for a block in memory. -/
structure Held (s : RepoStore) : Prop where
  rows : ∀ cid ∈ s.db.durable.cids, cid ∈ s.car
  mark : s.persistedBlocks ≤ s.car.length

theorem held_storeOpen (did : String) (t : Tables) : Held (storeOpen did t) :=
  ⟨fun _ h => h, le_refl _⟩

theorem Held.of_same {s s' : RepoStore} (h : Held s) (hcar : s'.car = s.car)
    (hmark : s'.persistedBlocks = s.persistedBlocks ∨ s'.persistedBlocks = s.car.length)
    (hdur : s'.db.durable.cids = s.db.durable.cids) : Held s' := by
  refine ⟨fun cid hcid => ?_, ?_⟩
  · rw [hdur] at hcid
    rw [hcar]
    exact h.rows cid hcid
  · rw [hcar]
    rcases hmark with hmark | hmark
    · rw [hmark]
      exact h.mark
    · rw [hmark]

theorem held_commitPersist {lib : BlockLibrary} {s : RepoStore} (h : Held s) (newHead : Cid)
    (o : PersistOutcomes) : Held (commitPersist lib s newHead o).1 := by
  obtain ⟨-, -, hcar, -⟩ := commitPersist_frame lib s newHead o
  have hcase := commitPersist_cases lib s newHead o
  revert hcar hcase
  generalize commitPersist lib s newHead o = r
  intro hcar hcase
  cases hcase with
  | notInserted _ hmark hdur => exact h.of_same hcar (.inl hmark) (by rw [hdur])
  | headNotWritten _ _ hmark hdur => exact h.of_same hcar (.inr hmark) (by rw [hdur])
  | notCommitted _ _ _ hmark hdur => exact h.of_same hcar (.inr hmark) (by rw [hdur])
  | committed _ _ _ hmark hdb =>
    refine ⟨fun cid hcid => ?_, ?_⟩
    · rw [hdb, Db.durable_fresh, persistedTables, Tables.cids_putHead,
        Tables.cids_insertAll] at hcid
      rw [hcar]
      rcases hcid with hcid | hcid
      · exact h.rows cid hcid
      · exact List.mem_of_mem_drop hcid
    · rw [hcar, hmark]

theorem Held.step {lib : BlockLibrary} {s : RepoStore} (h : Held s) (call : StoreCall) :
    Held (s.step lib call) := by
  cases call with
  | stage blocks =>
    refine ⟨fun cid hcid => List.mem_append_left _ (h.rows cid hcid), ?_⟩
    have hmark := h.mark
    simp only [RepoStore.step, List.length_append]
    omega
  | commitPersist newHead o => exact held_commitPersist h newHead o
  | index statement =>
    refine h.of_same rfl (.inl rfl) ?_
    exact Db.durable_write_of_keeps s.db (p := Tables.cids) fun _ => rfl
  | setRevOverride rev writes =>
    cases writes with
    | false => exact h.of_same rfl (.inl rfl) rfl
    | true =>
      refine h.of_same rfl (.inl rfl) ?_
      exact Db.durable_write_of_keeps s.db (p := Tables.cids) fun _ => Tables.cids_putHead
  | reopen => exact held_storeOpen s.did s.db.durable

/-- In every state that a store reaches its rows stand for blocks in memory. -/
theorem held_exec (lib : BlockLibrary) (did : String) (t : Tables) (run : List StoreCall) :
    Held (exec (RepoStore.step lib) (storeOpen did t) run) :=
  exec_of_invariant (held_storeOpen did t) fun _ call h => h.step call

/-! ## What a write that gets through leaves -/

theorem Tables.mem_insertBlock {revision : String} {cid : Cid} {t : Tables} {row : BlockRow} :
    row ∈ (t.insertBlock revision cid).blocks ↔
      row ∈ t.blocks ∨ (row.cid ∉ t.cids ∧ row.cid = cid ∧ row.repoRev = some revision) := by
  obtain ⟨c, rev⟩ := row
  unfold insertBlock
  split
  · next h =>
    constructor
    · exact Or.inl
    · rintro (hrow | ⟨hnot, rfl, -⟩)
      · exact hrow
      · exact absurd h hnot
  · next h =>
    simp only [List.mem_append, List.mem_singleton, BlockRow.mk.injEq]
    constructor
    · rintro (hrow | ⟨rfl, rfl⟩)
      · exact Or.inl hrow
      · exact Or.inr ⟨h, rfl, rfl⟩
    · rintro (hrow | ⟨-, rfl, rfl⟩)
      · exact Or.inl hrow
      · exact Or.inr ⟨rfl, rfl⟩

/-- The rows after some blocks are inserted: the old ones, and one for each new block. -/
theorem Tables.mem_insertAll {revision : String} {cids : List Cid} {t : Tables}
    {row : BlockRow} :
    row ∈ (t.insertAll revision cids).blocks ↔
      row ∈ t.blocks ∨ (row.cid ∉ t.cids ∧ row.cid ∈ cids ∧ row.repoRev = some revision) := by
  induction cids generalizing t with
  | nil => simp [insertAll]
  | cons cid cids ih =>
    have h := ih (t := t.insertBlock revision cid)
    simp only [insertAll, List.foldl_cons] at h ⊢
    rw [h, mem_insertBlock, cids_insertBlock, List.mem_cons]
    constructor
    · rintro ((hrow | ⟨hnot, heq, hrev⟩) | ⟨hnot, hmem, hrev⟩)
      · exact Or.inl hrow
      · exact Or.inr ⟨hnot, Or.inl heq, hrev⟩
      · exact Or.inr ⟨fun hc => hnot (Or.inl hc), Or.inr hmem, hrev⟩
    · rintro (hrow | ⟨hnot, heq | hmem, hrev⟩)
      · exact Or.inl (Or.inl hrow)
      · exact Or.inl (Or.inr ⟨hnot, heq, hrev⟩)
      · by_cases heq : row.cid = cid
        · exact Or.inl (Or.inr ⟨hnot, heq, hrev⟩)
        · exact Or.inr ⟨fun hc => hc.elim hnot heq, hmem, hrev⟩

/-- The row comes with an export of what is newer than the given rev. -/
def exportsAfter (since : Option String) (row : BlockRow) : Prop :=
  ∀ rev ∈ since.filter (· ≠ ""), row.repoRev.any (rev < ·) = true

theorem mem_exportRows {t : Tables} {since : Option String} {row : BlockRow} :
    row ∈ exportRows t since ↔ row ∈ t.blocks ∧ exportsAfter since row := by
  unfold exportRows exportsAfter
  cases h : since.filter (· ≠ "") with
  | none => simp
  | some rev => simp

section Landing

variable {lib : RepoLibrary} {s : RepoStore} {o : WriteOutcomes}

/-- The store and the event after a write that got through: the new commit is the head, and
its blocks are in the table. -/
structure LandsAs (lib : RepoLibrary) (s : RepoStore) (built : RepoCommit) (ops : List RepoOp)
    (r : WriteResult Unit) : Prop where
  status : r.status = .ok
  head : r.store.head = built.commit
  car : r.store.car = s.car ++ built.blocks
  blocks : r.store.db.view.blocks = (s.db.durable.insertAll
    (((lib.findBlock (s.car ++ built.blocks) built.commit).bind lib.commitParse).map
      Commit.rev |>.getD "") ((s.car ++ built.blocks).drop s.persistedBlocks)).blocks
  event : r.event = emitCommitEventOps lib r.store s.head ops ⟨true, none⟩

variable (lib) in
/-- `commit_persist` with nothing failing, on a connection without an open transaction. -/
theorem commitPersist_nothingFails (ho : o.NothingFails) (hbegin : s.db.canBegin = true)
    (newHead : Cid) :
    ∃ s', commitPersist lib.toBlockLibrary s newHead o.persist = (s', none) ∧
      s'.head = newHead ∧ s'.car = s.car ∧
      s'.db = .fresh (persistedTables lib.toBlockLibrary s newHead) := by
  obtain ⟨hhead, -, hcar, -⟩ := commitPersist_frame lib.toBlockLibrary s newHead o.persist
  have hins : o.persist.Inserts s := ⟨ho.begins, hbegin, fun i _ _ => ho.inserts i⟩
  have hcase := commitPersist_cases lib.toBlockLibrary s newHead o.persist
  revert hhead hcar hcase
  generalize commitPersist lib.toBlockLibrary s newHead o.persist = r
  intro hhead hcar hcase
  cases hcase with
  | notInserted hnot => exact absurd hins hnot
  | headNotWritten _ hnot => rw [ho.writesHead] at hnot; cases hnot
  | notCommitted _ _ hnot => exact absurd ho.commit hnot
  | committed _ _ _ _ hdb => exact ⟨_, rfl, hhead, hcar, hdb⟩

variable (lib) in
/-- In an open transaction `commit_persist` fails. -/
theorem commitPersist_cannotBegin (hbegin : s.db.canBegin = false) (newHead : Cid) :
    ∃ s' error, commitPersist lib.toBlockLibrary s newHead o.persist = (s', some error) := by
  refine ⟨{ s with head := newHead, revOverride := none }, .internal, ?_⟩
  simp [commitPersist, hbegin]

theorem exportOutcome_of_nothingFails (ho : o.NothingFails) : o.exportOutcome = ⟨true, none⟩ := by
  cases h : o.exportOutcome with
  | mk prepares failsAfter =>
    have hprepares := ho.prepares
    have hall := ho.exportsAll
    rw [h] at hprepares hall
    exact congrArg₂ ExportOutcome.mk hprepares hall

variable (lib) in
/-- The tables of a persisted commit keep its index. -/
theorem records_persistedTables (hbegin : s.db.canBegin = true) (car : List Cid) (newHead : Cid) :
    (persistedTables lib.toBlockLibrary { s with car } newHead).records = s.db.view.records := by
  rw [persistedTables, Tables.records_putHead, Tables.head_insertAll.2, Db.view_of_canBegin hbegin]

variable (lib) in
/-- A write of one record that reaches `commit_persist`. -/
theorem landRecord_landsAs (ho : o.NothingFails) (collection rkey recordJson : String)
    (built : RepoCommit) (action : WriteAction) (prev : Option Cid) :
    let r := (landRecord lib s collection rkey recordJson built action prev o).forget
    (s.db.canBegin = false → r.status ≠ .ok) ∧
      (s.db.canBegin = true →
        LandsAs lib s built [⟨action, collection, rkey, some (built.records.headD ""), prev⟩] r ∧
          ∃ rev, r.store.db.view.records = (s.db.view.upsertRecord
            ⟨collection, rkey, built.records.headD "", recordJson, rev⟩).records) := by
  intro r
  constructor
  · intro hbegin
    obtain ⟨s', error, hpersist⟩ := commitPersist_cannotBegin lib (o := o)
      (s := { s with car := s.car ++ built.blocks }) hbegin built.commit
    have hr : r = (WriteResult.failed s' error : WriteResult (String × String)).forget := by
      simp only [r, landRecord, hpersist]
    rw [hr, status_forget]
    exact status_failed s' error
  · intro hbegin
    obtain ⟨s', hpersist, hhead, hcar, hdb⟩ := commitPersist_nothingFails lib ho
      (s := { s with car := s.car ++ built.blocks }) hbegin built.commit
    have hrecords := records_persistedTables lib hbegin (s.car ++ built.blocks)
      built.commit
    have hr : r = WriteResult.forget ⟨indexUpsertRecord lib s' collection rkey
        (built.records.headD "") recordJson true,
        .ok (makeUri s.did collection rkey, built.records.headD ""),
        emitCommitEventOps lib (indexUpsertRecord lib s' collection rkey
          (built.records.headD "") recordJson true) s.head
          [⟨action, collection, rkey, some (built.records.headD ""), prev⟩] ⟨true, none⟩⟩ := by
      simp only [r, landRecord, hpersist, ho.allocates, ho.indexes,
        exportOutcome_of_nothingFails ho, Bool.true_eq_false, if_false]
    rw [hr]
    refine ⟨⟨rfl, hhead, hcar, ?_, rfl⟩, ?_⟩
    · simp [WriteResult.forget, indexUpsertRecord, hdb, Tables.upsertRecord, Tables.deleteRecord,
        persistedTables, Tables.putHead]
    · refine ⟨((parseCommitAt lib.toBlockLibrary s' s'.head).map Commit.rev).filter (· ≠ ""), ?_⟩
      simp only [WriteResult.forget, indexUpsertRecord, if_true, Db.view_write, hdb,
        Db.view_fresh, Tables.upsertRecord, Tables.deleteRecord, hrecords]

/-- A delete that reaches `commit_persist`. -/
theorem deleteRecordLocked_landsAs (ho : o.NothingFails) {collection rkey : String}
    {swapCommit swapRecord : Option String} {cid : Cid} {built : RepoCommit}
    (hplan : planDelete lib s collection rkey swapCommit swapRecord o = .ok (cid, built)) :
    let r := (deleteRecordLocked lib s collection rkey swapCommit swapRecord o).forget
    (s.db.canBegin = false → r.status ≠ .ok) ∧
      (s.db.canBegin = true →
        LandsAs lib s built [⟨.delete, collection, rkey, none, some cid⟩] r) := by
  intro r
  constructor
  · intro hbegin
    obtain ⟨s', error, hpersist⟩ := commitPersist_cannotBegin lib (o := o)
      (s := { s with car := s.car ++ built.blocks }) hbegin built.commit
    have hr : r = (WriteResult.failed s' error : WriteResult Unit).forget := by
      simp only [r, deleteRecordLocked, hplan, hpersist]
    rw [hr, status_forget]
    exact status_failed s' error
  · intro hbegin
    obtain ⟨s', hpersist, hhead, hcar, hdb⟩ := commitPersist_nothingFails lib ho
      (s := { s with car := s.car ++ built.blocks }) hbegin built.commit
    have hr : r = WriteResult.forget ⟨indexDeleteRecord s' collection rkey true, .ok (),
        emitCommitEventOps lib (indexDeleteRecord s' collection rkey true) s.head
          [⟨.delete, collection, rkey, none, some cid⟩] ⟨true, none⟩⟩ := by
      simp only [r, deleteRecordLocked, hplan, hpersist, ho.indexes,
        exportOutcome_of_nothingFails ho]
    rw [hr]
    refine ⟨rfl, hhead, hcar, ?_, rfl⟩
    simp [WriteResult.forget, indexDeleteRecord, hdb, Tables.deleteRecord, persistedTables,
      Tables.putHead]

/-- The index statements of a batch leave the blocks. -/
theorem indexWrites_keeps (lib : RepoLibrary) (indexes : Nat → Bool) (i : Nat)
    (writes : List (RepoWrite × Cid)) (s : RepoStore) :
    (indexWrites lib indexes i writes s).car = s.car ∧
      (indexWrites lib indexes i writes s).db.view.blocks = s.db.view.blocks := by
  induction writes generalizing i s with
  | nil => exact ⟨rfl, rfl⟩
  | cons w writes ih =>
    rw [indexWrites]
    obtain ⟨hcar, hblocks⟩ := ih (i + 1) (if w.1.action = .delete then
      indexDeleteRecord s w.1.collection w.1.rkey (indexes i)
      else indexUpsertRecord lib s w.1.collection w.1.rkey w.2 w.1.value (indexes i))
    rw [hcar, hblocks]
    split <;> cases indexes i <;>
      simp [indexDeleteRecord, indexUpsertRecord, Tables.deleteRecord, Tables.upsertRecord]

/-- A batch that reaches `commit_persist`. -/
theorem applyWritesLocked_landsAs (ho : o.NothingFails) {writesJson : String}
    {swapCommit : Option String} {writes : List RepoWrite} {built : RepoCommit}
    (hplan : planApplyWrites lib s writesJson swapCommit o = .ok (writes, built)) :
    let r := (applyWritesLocked lib s writesJson swapCommit o).forget
    (s.db.canBegin = false → r.status ≠ .ok) ∧
      (s.db.canBegin = true →
        LandsAs lib s built ((writes.zip built.records).map fun w => batchOp w.1 w.2) r ∧
          ∃ s', s'.db.view.records = s.db.view.records ∧
            r.store = indexWrites lib o.indexes 0 (writes.zip built.records) s') := by
  intro r
  constructor
  · intro hbegin
    obtain ⟨s', error, hpersist⟩ := commitPersist_cannotBegin lib (o := o)
      (s := { s with car := s.car ++ built.blocks }) hbegin built.commit
    have hr : r = (WriteResult.failed s' error : WriteResult ApplyReturn).forget := by
      simp only [r, applyWritesLocked, hplan, hpersist]
    rw [hr, status_forget]
    exact status_failed s' error
  · intro hbegin
    obtain ⟨s', hpersist, hhead, hcar, hdb⟩ := commitPersist_nothingFails lib ho
      (s := { s with car := s.car ++ built.blocks }) hbegin built.commit
    have hrecords := records_persistedTables lib hbegin (s.car ++ built.blocks)
      built.commit
    obtain ⟨hcar', hblocks⟩ := indexWrites_keeps lib o.indexes 0 (writes.zip built.records) s'
    have hr : r.store = indexWrites lib o.indexes 0 (writes.zip built.records) s' ∧
        r.returned = .ok () ∧ r.event = emitCommitEventOps lib
          (indexWrites lib o.indexes 0 (writes.zip built.records) s') s.head
          ((writes.zip built.records).map fun w => batchOp w.1 w.2) ⟨true, none⟩ := by
      simp only [r, applyWritesLocked, hplan, hpersist, ho.allocates,
        exportOutcome_of_nothingFails ho, Bool.true_eq_false, if_false]
      exact ⟨rfl, rfl, rfl⟩
    obtain ⟨hstore, hreturned, hevent⟩ := hr
    refine ⟨⟨?_, ?_, ?_, ?_, ?_⟩, s', ?_, hstore⟩
    · rw [WriteResult.status, hreturned]
    · rw [hstore, head_indexWrites, hhead]
    · rw [hstore, hcar', hcar]
    · rw [hstore, hblocks, hdb]
      rfl
    · rw [hevent, hstore]
    · rw [hdb, Db.view_fresh, hrecords]

/-- What the event of a write that got through says, and what comes with it. -/
structure EventOf (lib : RepoLibrary) (s : RepoStore) (built : RepoCommit) (ops : List RepoOp)
    (store : RepoStore) (e : CommitEvent) : Prop where
  commitCid : e.commitCid = built.commit
  ops : e.ops = ops
  since : e.since = (parseCommitAt lib.toBlockLibrary store s.head).map Commit.rev
  prevData : e.prevData = (parseCommitAt lib.toBlockLibrary store s.head).map Commit.data
  blocks : ∀ cid, cid ∈ e.blocks ↔
    ∃ row ∈ store.db.view.blocks, row.cid = cid ∧ exportsAfter e.since row

/-- A write that got through has its event. -/
theorem LandsAs.emits (hheld : Held s) {built : RepoCommit} (hsigned : Signed lib s.head built)
    {ops : List RepoOp} {r : WriteResult Unit} (h : LandsAs lib s built ops r) :
    ∃ e, r.event = some e ∧ EventOf lib s built ops r.store e := by
  obtain ⟨commit, hparse, -⟩ := hsigned.later
  have hmem : built.commit ∈ r.store.car := by
    rw [h.car]
    exact List.mem_append_right _ hsigned.mem
  have hcurrent : parseCommitAt lib.toBlockLibrary r.store r.store.head = some commit := by
    rw [h.head, parseCommitAt_of_mem hsigned.ne hmem, hparse]
  have hne : r.store.head ≠ "" := by
    rw [h.head]
    exact hsigned.ne
  -- Every row stands for a block of the list, so that no block is missing from the CAR.
  have hrows : ∀ row ∈ r.store.db.view.blocks, row.cid ∈ r.store.car := by
    intro row hrow
    rw [h.blocks, Tables.mem_insertAll] at hrow
    rw [h.car]
    rcases hrow with hrow | ⟨-, hrow, -⟩
    · exact List.mem_append_left _ (hheld.rows _ (List.mem_map_of_mem hrow))
    · exact List.mem_of_mem_drop hrow
  have hexport : ∀ since, exportLocked r.store since ⟨true, none⟩ =
      .ok ((exportRows r.store.db.view since).map BlockRow.cid) := by
    intro since
    have hall : (exportRows r.store.db.view since).all (fun row => row.cid ∈ r.store.car) =
        true := by
      rw [List.all_eq_true]
      intro row hrow
      exact decide_eq_true (hrows row (mem_exportRows.mp hrow).1)
    simp only [exportLocked, hne, Bool.true_eq_false, if_false, hall, if_true]
  let previous := parseCommitAt lib.toBlockLibrary r.store s.head
  refine ⟨⟨r.store.head, commit.rev, previous.map Commit.rev, previous.map Commit.data, ops,
    (exportRows r.store.db.view (previous.map Commit.rev)).map BlockRow.cid⟩, ?_, h.head, rfl, rfl,
    rfl, ?_⟩
  · rw [h.event]
    simp only [emitCommitEventOps, hcurrent, hexport, Option.bind_eq_bind, Option.bind_some,
      Except.toOption, previous]
  · intro cid
    simp only [List.mem_map, mem_exportRows]
    constructor
    · rintro ⟨row, ⟨hrow, hafter⟩, hcid⟩
      exact ⟨row, hrow, hcid, hafter⟩
    · rintro ⟨row, hrow, hcid, hafter⟩
      exact ⟨row, ⟨hrow, hafter⟩, hcid⟩

/-- The new commit has a rev that its blocks are written under. -/
theorem Signed.rev_eq {built : RepoCommit} (hsigned : Signed lib s.head built) :
    ∃ commit : Commit, (((lib.findBlock (s.car ++ built.blocks) built.commit).bind
        lib.commitParse).map Commit.rev).getD "" = commit.rev ∧
      ∀ previous, lib.commitParse (lib.content s.head) = some previous →
        previous.rev < commit.rev := by
  obtain ⟨commit, hparse, hlater⟩ := hsigned.later
  refine ⟨commit, ?_, hlater⟩
  simp [BlockLibrary.findBlock, hsigned.mem, hparse]

/-- The commit below is another one. -/
theorem Signed.ne_head {built : RepoCommit} (hsigned : Signed lib s.head built) {commit : Commit}
    (hparse : lib.commitParse (lib.content s.head) = some commit) : s.head ≠ built.commit := by
  intro heq
  obtain ⟨commit', hparse', hlater⟩ := hsigned.later
  rw [← heq, hparse] at hparse'
  cases hparse'
  exact lt_irrefl _ (hlater commit hparse)

/-- The commit below is read the same from two stores with the same other blocks. -/
theorem parseCommitAt_below {c c' : RepoCommit} (hc : Signed lib s.head c)
    (hc' : Signed lib s.head c') (htree : SameTree lib s.car c c') {store store' : RepoStore}
    (hcar : store.car = s.car ++ c.blocks) (hcar' : store'.car = s.car ++ c'.blocks) :
    parseCommitAt lib.toBlockLibrary store' s.head =
      parseCommitAt lib.toBlockLibrary store s.head := by
  by_cases hempty : s.head = ""
  · simp [parseCommitAt, hempty]
  · cases hparse : lib.commitParse (lib.content s.head) with
    | none =>
      simp only [parseCommitAt, hempty, if_false, BlockLibrary.findBlock]
      split <;> split <;> simp [hparse]
    | some commit =>
      have hmem : s.head ∈ store'.car ↔ s.head ∈ store.car := by
        rw [hcar, hcar', List.mem_append, List.mem_append,
          htree.blocks s.head (hc.ne_head hparse) (hc'.ne_head hparse)]
      simp only [parseCommitAt, hempty, if_false, BlockLibrary.findBlock, hmem]

/-- A row that is new comes with the event: its rev is later than that of the commit below. -/
theorem exportsAfter_new {store : RepoStore} {row : BlockRow} {rev : String}
    (hrev : ∀ previous, lib.commitParse (lib.content s.head) = some previous →
      previous.rev < rev) (hrow : row.repoRev = some rev) :
    exportsAfter ((parseCommitAt lib.toBlockLibrary store s.head).map Commit.rev) row := by
  intro since hsince
  obtain ⟨hsince, -⟩ := Option.filter_eq_some_iff.mp hsince
  obtain ⟨previous, hprevious, rfl⟩ := Option.map_eq_some_iff.mp hsince
  rw [hrow]
  exact decide_eq_true (hrev previous (parseCommitAt_eq_some hprevious).2.2)

/-- The blocks that come with the event: those in the table that are newer than the commit
below, and those that were not in the table. -/
theorem LandsAs.mem_event_blocks {built : RepoCommit} (hsigned : Signed lib s.head built)
    {ops : List RepoOp} {r : WriteResult Unit} (h : LandsAs lib s built ops r) {e : CommitEvent}
    (he : EventOf lib s built ops r.store e) (cid : Cid) :
    cid ∈ e.blocks ↔
      (∃ row ∈ s.db.durable.blocks, row.cid = cid ∧ exportsAfter e.since row) ∨
        (cid ∉ s.db.durable.cids ∧ cid ∈ (s.car ++ built.blocks).drop s.persistedBlocks) := by
  obtain ⟨commit, hrev, hlater⟩ := hsigned.rev_eq
  have hblocks := h.blocks
  rw [hrev] at hblocks
  rw [he.blocks, hblocks]
  simp only [Tables.mem_insertAll]
  constructor
  · rintro ⟨row, hrow | ⟨hnot, hmem, -⟩, rfl, hafter⟩
    · exact Or.inl ⟨row, hrow, rfl, hafter⟩
    · exact Or.inr ⟨hnot, hmem⟩
  · rintro (⟨row, hrow, hcid, hafter⟩ | ⟨hnot, hmem⟩)
    · exact ⟨row, Or.inl hrow, hcid, hafter⟩
    · refine ⟨⟨cid, some commit.rev⟩, Or.inr ⟨hnot, hmem, rfl⟩, rfl, ?_⟩
      rw [he.since]
      exact exportsAfter_new hlater rfl

/-- The events of two writes that build the same tree and make the same ops. -/
theorem sameEvent_of_sameTree (hheld : Held s) {c c' : RepoCommit} (hc : Signed lib s.head c)
    (hc' : Signed lib s.head c') (htree : SameTree lib s.car c c') {ops : List RepoOp}
    {r r' : WriteResult Unit} (h : LandsAs lib s c ops r) (h' : LandsAs lib s c' ops r') :
    ∃ e e', r.event = some e ∧ r'.event = some e' ∧ SameEvent e e' := by
  obtain ⟨e, hevent, he⟩ := h.emits hheld hc
  obtain ⟨e', hevent', he'⟩ := h'.emits hheld hc'
  have hbelow := parseCommitAt_below hc hc' htree h.car h'.car
  have hsince : e'.since = e.since := by rw [he'.since, he.since, hbelow]
  refine ⟨e, e', hevent, hevent', hsince, ?_, ?_, fun cid hne hne' => ?_⟩
  · rw [he'.prevData, he.prevData, hbelow]
  · rw [he'.ops, he.ops]
  · rw [he.commitCid] at hne
    rw [he'.commitCid] at hne'
    rw [h.mem_event_blocks hc he, h'.mem_event_blocks hc' he', hsince]
    simp only [List.drop_append_of_le_length hheld.mark, List.mem_append,
      htree.blocks cid hne hne']

end Landing

/-! ## The two plans -/

section Plans

variable {lib : RepoLibrary} {s : RepoStore} {o : WriteOutcomes} {w : SingleWrite}
  {element : Json} {writesJson : String} {swapCommit : Option String}

/-- A batch of one element is staged and built from that element alone. -/
theorem planApplyWrites_single (hparse : lib.parseJson writesJson = some (.array [element]))
    {planned : List RepoWrite × RepoCommit} :
    planApplyWrites lib s writesJson swapCommit o = .ok planned ↔
      checkSwap swapCommit s.head = .ok () ∧ ∃ write, stageWrite lib (o.tids 0) element = .ok write ∧
        planned.1 = [write] ∧
        lib.repoApplyWrites o.clock s.car s.head [write] = .ok planned.2 := by
  obtain ⟨writes, built⟩ := planned
  unfold planApplyWrites
  rw [hparse]
  constructor
  · intro h
    obtain ⟨_, hswap, h⟩ := except_bind_ok h
    obtain ⟨_, -, h⟩ := except_bind_ok h
    obtain ⟨staged, hstaged, h⟩ := except_bind_ok h
    obtain ⟨c, hc, h⟩ := except_bind_ok h
    cases h
    obtain ⟨write, hwrite, hstaged⟩ := except_bind_ok hstaged
    obtain ⟨rest, hrest, hstaged⟩ := except_bind_ok hstaged
    cases hrest
    cases hstaged
    exact ⟨hswap, write, hwrite, rfl, hc⟩
  · rintro ⟨hswap, write, hwrite, rfl, hc⟩
    have hlength : ¬ 200 < [element].length := by simp
    have hstaged : stageWrites lib o.tids 0 [element] = .ok [write] := by
      simp only [stageWrites, hwrite]
      rfl
    simp only [hswap, refuseIf, hlength, if_false, hstaged, bind, Except.bind, hc]
    rfl

/-- The key of a create, given or minted. -/
def createKey (lib : RepoLibrary) (rkey tid : Option String) : Option String :=
  match rkey.filter (· ≠ "") with
  | some rkey => if lib.recordKeyIsValid rkey then some rkey else none
  | none => tid

theorem checkCreate_ok_iff {collection recordJson : String} {rkey : Option String}
    {key : String} :
    checkCreate lib s collection rkey recordJson swapCommit o = .ok key ↔
      collection ≠ "" ∧ createKey lib rkey (o.tids 0) = some key ∧
        recordTypeMatches lib recordJson collection = true ∧
        checkSwap swapCommit s.head = .ok () := by
  unfold checkCreate createKey
  by_cases hcollection : collection = ""
  · simp [refuseIf, hcollection, bind, Except.bind]
  · cases htype : recordTypeMatches lib recordJson collection <;>
      cases hswap : checkSwap swapCommit s.head <;>
      cases hkey : rkey.filter (· ≠ "") with
    | none =>
      cases o.tids 0 <;>
        simp [refuseIf, hcollection, bind, Except.bind, pure, Except.pure]
    | some k =>
      cases hvalid : lib.recordKeyIsValid k <;>
        simp [refuseIf, hcollection, bind, Except.bind, pure, Except.pure, hvalid]

/-- The element of a create is staged after the same checks and with the same body. -/
theorem stageWrite_create_iff (hw : w.Denotes element) (haction : w.action = .create)
    {tid : Option String} {write : RepoWrite} :
    stageWrite lib tid element = .ok write ↔
      w.collection ≠ "" ∧ recordTypeMatches lib (lib.printJson w.value) w.collection = true ∧
        ∃ key cbor, createKey lib w.rkey tid = some key ∧
          encodeRecordJson lib (lib.printJson w.value) = .ok cbor ∧
          write = ⟨.create, w.collection, key, cbor, lib.printJson w.value⟩ := by
  have htype := hw.type
  have hvalue := hw.value (by rw [haction]; decide)
  rw [haction] at htype
  unfold stageWrite createKey
  rw [htype, hw.collection, hw.rkey, hvalue]
  simp only [writeActionOf_type, stageKey]
  by_cases hcollection : w.collection = ""
  · simp [refuseIf, hcollection, bind, Except.bind]
  · cases hmatch : recordTypeMatches lib (lib.printJson w.value) w.collection <;>
      cases hcbor : encodeRecordJson lib (lib.printJson w.value) <;>
      cases hkey : w.rkey.filter (· ≠ "") with
    | none =>
      cases tid <;>
        simp [refuseIf, hcollection, bind, Except.bind, pure, Except.pure, eq_comm]
    | some k =>
      cases hvalid : lib.recordKeyIsValid k <;>
        simp [refuseIf, hcollection, bind, Except.bind, pure, Except.pure, hvalid, eq_comm]

end Plans

/-! ## The events of the two -/

section Events

variable {lib : RepoLibrary} {s : RepoStore} {o : WriteOutcomes}

theorem status_ok_of_forget {α : Type} {r : WriteResult α} (h : r.forget.status = .ok) :
    ∃ a, r.returned = .ok a := by
  rw [status_forget] at h
  exact status_ok_iff.mp h

/-- A batch that succeeds was planned, on a connection without an open transaction. -/
theorem batch_of_ok (ho : o.NothingFails) {writesJson : String} {swapCommit : Option String}
    (hok : (applyWritesLocked lib s writesJson swapCommit o).forget.status = .ok) :
    s.db.canBegin = true ∧ ∃ writes built,
      planApplyWrites lib s writesJson swapCommit o = .ok (writes, built) ∧
        LandsAs lib s built ((writes.zip built.records).map fun w => batchOp w.1 w.2)
          (applyWritesLocked lib s writesJson swapCommit o).forget := by
  cases hplan : planApplyWrites lib s writesJson swapCommit o with
  | error error =>
    rw [applyWritesLocked_error hplan, status_forget] at hok
    exact absurd hok (status_failed s error)
  | ok planned =>
    obtain ⟨writes, built⟩ := planned
    obtain ⟨hfails, hlands⟩ := applyWritesLocked_landsAs ho hplan
    cases hbegin : s.db.canBegin with
    | false => exact absurd hok (hfails hbegin)
    | true => exact ⟨rfl, writes, built, rfl, (hlands hbegin).1⟩

theorem planApplyWrites_built {writesJson : String} {swapCommit : Option String}
    {writes : List RepoWrite} {built : RepoCommit}
    (h : planApplyWrites lib s writesJson swapCommit o = .ok (writes, built)) :
    lib.repoApplyWrites o.clock s.car s.head writes = .ok built := by
  unfold planApplyWrites at h
  split at h
  · obtain ⟨_, -, h⟩ := except_bind_ok h
    obtain ⟨_, -, h⟩ := except_bind_ok h
    obtain ⟨staged, -, h⟩ := except_bind_ok h
    obtain ⟨c, hc, h⟩ := except_bind_ok h
    cases h
    exact hc
  · cases h

/-- A batch of some elements announces an op for each of them. -/
theorem batch_event (hlib : BatchLaws lib) (hheld : Held s) (ho : o.NothingFails)
    {writesJson : String} {swapCommit : Option String}
    (hok : (applyWritesLocked lib s writesJson swapCommit o).forget.status = .ok) :
    ∃ writes e, (∃ ops, lib.parseJson writesJson = some (.array ops) ∧
        List.Forall₂ Stages ops writes) ∧
      (applyWritesLocked lib s writesJson swapCommit o).event = some e ∧
      List.Forall₂ (fun write op => op.action = write.action ∧ op.prev = none) writes e.ops := by
  obtain ⟨-, writes, built, hplan, hlands⟩ := batch_of_ok ho hok
  obtain ⟨hsigned, hlength⟩ := hlib.apply _ _ _ _ _ (planApplyWrites_built hplan)
  obtain ⟨e, hevent, he⟩ := hlands.emits hheld hsigned
  refine ⟨writes, e, planApplyWrites_stages hplan, hevent, ?_⟩
  rw [he.ops]
  clear hplan hlands hevent he hsigned
  generalize built.records = records at hlength
  induction writes generalizing records with
  | nil => exact .nil
  | cons write writes ih =>
    cases records with
    | nil => simp at hlength
    | cons cid records => exact .cons ⟨rfl, rfl⟩ (ih records (by simpa using hlength))

theorem planPut_signed (hlib : BatchLaws lib) {collection rkey recordJson : String}
    {swapCommit swapRecord : Option String} {existing : Option Cid} {built : RepoCommit}
    (h : planPut lib s collection rkey recordJson swapCommit swapRecord o =
      .ok (.write existing built)) : Signed lib s.head built := by
  obtain ⟨-, cbor, -, hbuilt⟩ := planPut_spec h
  rcases hbuilt with hbuilt | hbuilt
  · exact hlib.create _ _ _ _ _ _ _ hbuilt
  · exact hlib.update _ _ _ _ _ _ _ hbuilt

/-- A put that succeeds announces nothing, or a create, or an update with the CID before. -/
theorem put_event (hlib : BatchLaws lib) (hheld : Held s) (ho : o.NothingFails)
    {collection rkey recordJson : String} {swapCommit swapRecord : Option String}
    (hok : (putRecordLocked lib s collection rkey recordJson swapCommit swapRecord
      o).forget.status = .ok) :
    (putRecordLocked lib s collection rkey recordJson swapCommit swapRecord o).event = none ∨
      ∃ e op, (putRecordLocked lib s collection rkey recordJson swapCommit swapRecord o).event =
        some e ∧ e.ops = [op] ∧ (op.action = .create ∨ op.prev.isSome = true) := by
  cases hplan : planPut lib s collection rkey recordJson swapCommit swapRecord o with
  | error error =>
    rw [putRecordLocked, hplan, status_forget] at hok
    exact absurd hok (status_failed s error)
  | ok plan =>
    cases plan with
    | unchanged cid =>
      left
      simp only [putRecordLocked, hplan]
      split <;> rfl
    | write existing built =>
      right
      have hput : putRecordLocked lib s collection rkey recordJson swapCommit swapRecord o =
          landRecord lib s collection rkey recordJson built
            (if existing.isSome then .update else .create) existing o := by
        rw [putRecordLocked, hplan]
      rw [hput] at hok ⊢
      obtain ⟨hfails, hlands⟩ := landRecord_landsAs lib (s := s) ho collection rkey
        recordJson built (if existing.isSome then .update else .create) existing
      have hbegin : s.db.canBegin = true := by
        cases hbegin : s.db.canBegin with
        | false => exact absurd hok (hfails hbegin)
        | true => rfl
      obtain ⟨e, hevent, he⟩ := (hlands hbegin).1.emits hheld (planPut_signed hlib hplan)
      refine ⟨e, _, hevent, he.ops, ?_⟩
      cases existing with
      | none => exact Or.inl rfl
      | some cid => exact Or.inr rfl

/-- A delete that succeeds announces the CID before. -/
theorem delete_event (hlib : BatchLaws lib) (hheld : Held s) (ho : o.NothingFails)
    {collection rkey : String} {swapCommit swapRecord : Option String}
    (hok : (deleteRecordLocked lib s collection rkey swapCommit swapRecord
      o).forget.status = .ok) :
    ∃ e op, (deleteRecordLocked lib s collection rkey swapCommit swapRecord o).event = some e ∧
      e.ops = [op] ∧ op.prev.isSome = true := by
  cases hplan : planDelete lib s collection rkey swapCommit swapRecord o with
  | error error =>
    rw [deleteRecordLocked, hplan, status_forget] at hok
    exact absurd hok (status_failed s error)
  | ok planned =>
    obtain ⟨cid, built⟩ := planned
    obtain ⟨hfails, hlands⟩ := deleteRecordLocked_landsAs ho hplan
    have hbegin : s.db.canBegin = true := by
      cases hbegin : s.db.canBegin with
      | false => exact absurd hok (hfails hbegin)
      | true => rfl
    have hsigned : Signed lib s.head built := by
      unfold planDelete at hplan
      obtain ⟨_, -, hplan⟩ := except_bind_ok hplan
      obtain ⟨_, -, hplan⟩ := except_bind_ok hplan
      obtain ⟨_, -, hplan⟩ := except_bind_ok hplan
      obtain ⟨_, -, hplan⟩ := except_bind_ok hplan
      obtain ⟨_, -, hplan⟩ := except_bind_ok hplan
      obtain ⟨c, hc, hplan⟩ := except_bind_ok hplan
      cases hplan
      exact hlib.delete _ _ _ _ _ _ hc
    obtain ⟨e, hevent, he⟩ := (hlands hbegin).emits hheld hsigned
    exact ⟨e, _, hevent, he.ops, rfl⟩

/-- A create that succeeds with backlink conflicts announces more than one op. -/
theorem cleanup_event (hlib : BatchLaws lib) (hheld : Held s) (ho : o.NothingFails)
    {collection rkey recordJson : String} {conflicts : List String} (hconflicts : conflicts ≠ [])
    (hok : (createRecordWithBacklinkCleanup lib s collection rkey recordJson conflicts
      o).forget.status = .ok) :
    ∃ e, (createRecordWithBacklinkCleanup lib s collection rkey recordJson conflicts o).event =
      some e ∧ 2 ≤ e.ops.length := by
  cases hvalue : lib.parseJson recordJson with
  | none =>
    rw [createRecordWithBacklinkCleanup, hvalue, status_forget] at hok
    exact absurd hok (status_failed s .alloc)
  | some value =>
    let r := applyWritesLocked lib s
      (lib.printJson (cleanupWrites collection rkey value conflicts)) none o
    have hr : (createRecordWithBacklinkCleanup lib s collection rkey recordJson conflicts
        o).event = r.event ∧ r.forget.status = .ok := by
      rw [createRecordWithBacklinkCleanup, hvalue] at hok ⊢
      dsimp only at hok ⊢
      cases happlied : r.returned with
      | error error =>
        simp only [r] at happlied
        rw [happlied, status_forget] at hok
        exact absurd hok error.ne_ok
      | ok applied =>
        have hstatus : r.forget.status = .ok := by
          rw [status_forget, WriteResult.status, happlied]
        refine ⟨?_, hstatus⟩
        dsimp only
        split
        · rfl
        · split <;> rfl
    obtain ⟨writes, e, ⟨ops, hparse, hstages⟩, hevent, hops⟩ := batch_event hlib hheld ho hr.2
    refine ⟨e, hr.1.trans hevent, ?_⟩
    obtain ⟨ops', hops', hlength⟩ := hlib.array _ _ hparse
    cases hops'
    have hconflicts' : 0 < conflicts.length := List.length_pos_iff.mpr hconflicts
    have hcount := hstages.length_eq
    rw [hlength] at hcount
    have hcount' := hops.length_eq
    simp only [List.length_append, List.length_map, List.length_singleton] at hcount
    omega

end Events

/-! ## The main result -/

theorem createKey_eq {lib : RepoLibrary} {w : SingleWrite} {o : WriteOutcomes} {key : String}
    (h : createKey lib w.rkey (o.tids 0) = some key) : key = w.key o := by
  unfold createKey at h
  unfold SingleWrite.key
  cases hrkey : w.rkey.filter (· ≠ "") with
  | none =>
    rw [hrkey] at h
    simp only at h
    rw [h]
    rfl
  | some rkey =>
    rw [hrkey] at h
    simp only at h
    split at h
    · cases h
      rfl
    · cases h

section Create

variable {lib : RepoLibrary} {s : RepoStore} {o : WriteOutcomes} {w : SingleWrite}
  {element : Json} {writesJson : String} {swapCommit : Option String}

/-- What a create comes to before its commit is built, whichever way it goes. -/
structure CreatePlan (lib : RepoLibrary) (s : RepoStore) (o : WriteOutcomes) (w : SingleWrite)
    (swapCommit : Option String) (cbor : List UInt8) : Prop where
  begins : s.db.canBegin = true
  check : checkCreate lib s w.collection w.rkey (lib.printJson w.value) swapCommit o =
    .ok (w.key o)
  encode : encodeRecordJson lib (lib.printJson w.value) = .ok cbor

/-- The create itself, once it is planned. -/
theorem CreatePlan.createRecordLocked {cbor : List UInt8} (h : CreatePlan lib s o w swapCommit cbor)
    (hconflicts : backlinkConflicts lib s w.collection (w.key o) (lib.printJson w.value) o = [])
    {c : RepoCommit}
    (hc : lib.repoCreateRecord o.clock s.car s.head w.collection (w.key o) cbor = .ok c) :
    createRecordLocked lib s w.collection w.rkey (lib.printJson w.value) swapCommit o =
      landRecord lib s w.collection (w.key o) (lib.printJson w.value) c .create none o := by
  have hplan : planCreate lib s w.collection (w.key o) (lib.printJson w.value) o = .ok c := by
    simp only [planCreate, h.encode, bind, Except.bind, hc]
  simp only [Repo.createRecordLocked, h.check, hconflicts, ne_eq, not_true_eq_false, if_false,
    hplan]

/-- The batch of the create, once it is planned. -/
theorem CreatePlan.planApplyWrites {cbor : List UInt8} (h : CreatePlan lib s o w swapCommit cbor)
    (hw : w.Denotes element) (haction : w.action = .create)
    (hparse : lib.parseJson writesJson = some (.array [element])) {c : RepoCommit}
    (hc : lib.repoApplyWrites o.clock s.car s.head
      [⟨.create, w.collection, w.key o, cbor, lib.printJson w.value⟩] = .ok c) :
    planApplyWrites lib s writesJson swapCommit o =
      .ok ([⟨.create, w.collection, w.key o, cbor, lib.printJson w.value⟩], c) := by
  obtain ⟨hcollection, hkey, htype, hswap⟩ := checkCreate_ok_iff.mp h.check
  refine (planApplyWrites_single hparse).mpr ⟨hswap, _, ?_, rfl, hc⟩
  exact (stageWrite_create_iff hw haction).mpr
    ⟨hcollection, htype, w.key o, cbor, hkey, h.encode, rfl⟩

/-- A create that succeeds has been planned and its commit built. -/
theorem createPlan_of_single (ho : o.NothingFails)
    (hconflicts : backlinkConflicts lib s w.collection (w.key o) (lib.printJson w.value) o = [])
    (hok : (createRecordLocked lib s w.collection w.rkey (lib.printJson w.value) swapCommit
      o).forget.status = .ok) :
    ∃ cbor, CreatePlan lib s o w swapCommit cbor ∧ ∃ c,
      lib.repoCreateRecord o.clock s.car s.head w.collection (w.key o) cbor = .ok c := by
  cases hcheck : checkCreate lib s w.collection w.rkey (lib.printJson w.value) swapCommit o with
  | error error =>
    rw [createRecordLocked, hcheck, status_forget] at hok
    exact absurd hok (status_failed s error)
  | ok key =>
    cases createKey_eq (checkCreate_ok_iff.mp hcheck).2.1
    simp only [createRecordLocked, hcheck, hconflicts, ne_eq, not_true_eq_false, if_false] at hok
    cases hplan : planCreate lib s w.collection (w.key o) (lib.printJson w.value) o with
    | error error =>
      rw [hplan, status_forget] at hok
      exact absurd hok (status_failed s error)
    | ok c =>
      rw [hplan] at hok
      obtain ⟨cbor, hcbor, hc⟩ := except_bind_ok hplan
      obtain ⟨hfails, -⟩ := landRecord_landsAs lib (s := s) ho w.collection (w.key o)
        (lib.printJson w.value) c .create none
      refine ⟨cbor, ⟨?_, hcheck, hcbor⟩, c, hc⟩
      cases hbegin : s.db.canBegin with
      | false => exact absurd hok (hfails hbegin)
      | true => rfl

/-- So has a batch of that create. -/
theorem createPlan_of_batch (hw : w.Denotes element) (haction : w.action = .create)
    (hparse : lib.parseJson writesJson = some (.array [element])) (ho : o.NothingFails)
    (hok : (applyWritesLocked lib s writesJson swapCommit o).forget.status = .ok) :
    ∃ cbor, CreatePlan lib s o w swapCommit cbor ∧ ∃ c,
      lib.repoApplyWrites o.clock s.car s.head
        [⟨.create, w.collection, w.key o, cbor, lib.printJson w.value⟩] = .ok c := by
  obtain ⟨hbegin, writes, c, hplan, -⟩ := batch_of_ok ho hok
  obtain ⟨hswap, write, hstage, hwrites, hc⟩ := (planApplyWrites_single hparse).mp hplan
  obtain ⟨hcollection, htype, key, cbor, hkey, hcbor, rfl⟩ :=
    (stageWrite_create_iff hw haction).mp hstage
  cases createKey_eq hkey
  exact ⟨cbor, ⟨hbegin, checkCreate_ok_iff.mpr ⟨hcollection, hkey, htype, hswap⟩, hcbor⟩, c, hc⟩

/-- Without backlink conflicts a create that succeeds either way succeeds both ways, and to
the same effect. -/
theorem create_agrees (hlib : BatchLaws lib) (hheld : Held s) (hw : w.Denotes element)
    (haction : w.action = .create)
    (hparse : lib.parseJson writesJson = some (.array [element])) (ho : o.NothingFails)
    (hconflicts : backlinkConflicts lib s w.collection (w.key o) (lib.printJson w.value) o = [])
    (hsucceeds :
      (createRecordLocked lib s w.collection w.rkey (lib.printJson w.value) swapCommit
        o).forget.status = .ok ∨
      (applyWritesLocked lib s writesJson swapCommit o).forget.status = .ok) :
    Agrees lib
      (createRecordLocked lib s w.collection w.rkey (lib.printJson w.value) swapCommit o).forget
      (applyWritesLocked lib s writesJson swapCommit o).forget := by
  have hplanned : ∃ cbor, CreatePlan lib s o w swapCommit cbor ∧ ∃ c c',
      lib.repoCreateRecord o.clock s.car s.head w.collection (w.key o) cbor = .ok c ∧
      lib.repoApplyWrites o.clock s.car s.head
        [⟨.create, w.collection, w.key o, cbor, lib.printJson w.value⟩] = .ok c' ∧
      SameTree lib s.car c c' := by
    rcases hsucceeds with hok | hok
    · obtain ⟨cbor, hplan, c, hc⟩ := createPlan_of_single ho hconflicts hok
      refine ⟨cbor, hplan, ?_⟩
      rcases hlib.single o.clock s.car s.head w.collection (w.key o) cbor
        (lib.printJson w.value) with h | ⟨error, error', h, -⟩
      · exact h
      · rw [h] at hc
        cases hc
    · obtain ⟨cbor, hplan, c, hc⟩ := createPlan_of_batch hw haction hparse ho hok
      refine ⟨cbor, hplan, ?_⟩
      rcases hlib.single o.clock s.car s.head w.collection (w.key o) cbor
        (lib.printJson w.value) with h | ⟨error, error', -, h⟩
      · exact h
      · rw [h] at hc
        cases hc
  obtain ⟨cbor, hplan, c, c', hc, hc', htree⟩ := hplanned
  obtain ⟨-, hlands⟩ := landRecord_landsAs lib (s := s) ho w.collection (w.key o)
    (lib.printJson w.value) c .create none
  obtain ⟨hsingle, rev, hrecords⟩ := hlands hplan.begins
  have hbatchPlan := hplan.planApplyWrites hw haction hparse hc'
  obtain ⟨hbatch, s', hs', hstore⟩ := (applyWritesLocked_landsAs ho hbatchPlan).2 hplan.begins
  obtain ⟨hsigned', hlength⟩ := hlib.apply _ _ _ _ _ hc'
  obtain ⟨cid, hcid⟩ := List.length_eq_one_iff.mp hlength
  have hcid' : c.records = [cid] := htree.records ▸ hcid
  rw [hplan.createRecordLocked hconflicts hc]
  simp only [hcid', List.headD_cons] at hsingle hrecords
  simp only [hcid, List.zip_cons_cons, List.zip_nil_right, List.map_cons, List.map_nil,
    batchOp] at hbatch hstore
  refine ⟨hsingle.status, hbatch.status, fun collection rkey => ?_, ?_, Or.inr ?_⟩
  · rw [hsingle.car, hsingle.head, hbatch.car, hbatch.head]
    exact htree.contents collection rkey
  · rw [hrecords, hstore]
    simp [indexWrites, indexUpsertRecord, ho.indexes, Tables.upsertRecord, Tables.deleteRecord,
      hs', RecordRow.lessRev]
  · exact sameEvent_of_sameTree hheld (hlib.create _ _ _ _ _ _ _ hc) hsigned' htree hsingle hbatch

end Create

/-- Where the two agree, the function announces what the batch does: one op of the action,
without a CID before. -/
theorem single_announces {lib : RepoLibrary} (hlib : BatchLaws lib) {s : RepoStore}
    (hheld : Held s) {w : SingleWrite} {element : Json} (hw : w.Denotes element)
    {writesJson : String} (hparse : lib.parseJson writesJson = some (.array [element]))
    {swapCommit : Option String} {o : WriteOutcomes} (ho : o.NothingFails)
    {r : WriteResult Unit}
    (hagrees : Agrees lib r (s.write lib (.applyWrites writesJson swapCommit) o)) :
    ∃ e op, r.event = some e ∧ e.ops = [op] ∧ op.action = w.action ∧ op.prev = none := by
  have hok := hagrees.batch
  simp only [RepoStore.write] at hok
  obtain ⟨writes, e', ⟨ops, hops, hstages⟩, hevent', hannounced⟩ := batch_event hlib hheld ho hok
  have hone : ∃ op, e'.ops = [op] ∧ op.action = w.action ∧ op.prev = none := by
    rw [hparse] at hops
    cases hops
    generalize e'.ops = announced at hannounced
    cases hstages with
    | cons hstage hrest =>
      cases hrest
      cases hannounced with
      | cons hop hrest =>
        cases hrest
        have htype := hw.type.symm.trans hstage.type
        exact ⟨_, rfl, hop.1.trans (WriteAction.type_injective (Option.some.inj htype)).symm, hop.2⟩
  obtain ⟨op, hsame, haction, hprev⟩ := hone
  have hbatch : (s.write lib (.applyWrites writesJson swapCommit) o).event = some e' := hevent'
  rcases hagrees.effect.event with ⟨-, hnone⟩ | ⟨e, e'', hevent, hevent'', hevents⟩
  · rw [hbatch] at hnone
    cases hnone
  · rw [hbatch] at hevent''
    cases hevent''
    exact ⟨e, op, hevent, hevents.ops ▸ hsame, haction, hprev⟩

/-- A create that older records stand in the way of announces more than one op. -/
theorem conflicting_announces {lib : RepoLibrary} (hlib : BatchLaws lib) {s : RepoStore}
    (hheld : Held s) {w : SingleWrite} {swapCommit : Option String} {o : WriteOutcomes}
    (ho : o.NothingFails)
    (hconflicts : backlinkConflicts lib s w.collection (w.key o) (lib.printJson w.value) o ≠ [])
    (hok : (createRecordLocked lib s w.collection w.rkey (lib.printJson w.value) swapCommit
      o).forget.status = .ok) :
    ∃ e, (createRecordLocked lib s w.collection w.rkey (lib.printJson w.value) swapCommit
      o).event = some e ∧ 2 ≤ e.ops.length := by
  cases hcheck : checkCreate lib s w.collection w.rkey (lib.printJson w.value) swapCommit o with
  | error error =>
    rw [createRecordLocked, hcheck, status_forget] at hok
    exact absurd hok (status_failed s error)
  | ok key =>
    cases createKey_eq (checkCreate_ok_iff.mp hcheck).2.1
    have hcleanup : createRecordLocked lib s w.collection w.rkey (lib.printJson w.value)
        swapCommit o = createRecordWithBacklinkCleanup lib s w.collection (w.key o)
          (lib.printJson w.value)
          (backlinkConflicts lib s w.collection (w.key o) (lib.printJson w.value) o) o := by
      simp only [createRecordLocked, hcheck, hconflicts, ne_eq, not_false_eq_true, if_true]
    rw [hcleanup] at hok ⊢
    exact cleanup_event hlib hheld ho hconflicts hok

/-- A write given to the batch alone ends as the function for it does exactly if it is a
create that no older record stands in the way of. -/
theorem singleWrite_batch_iff (lib : RepoLibrary) (hlib : BatchLaws lib) (did : String)
    (t : Tables) (run : List StoreCall) (w : SingleWrite) (element : Json)
    (hw : w.Denotes element) (writesJson : String)
    (hparse : lib.parseJson writesJson = some (.array [element])) (swapCommit : Option String)
    (o : WriteOutcomes) (ho : o.NothingFails) :
    let s := exec (RepoStore.step lib.toBlockLibrary) (storeOpen did t) run
    ((s.write lib (w.call lib swapCommit) o).status = .ok ∨
        (s.write lib (.applyWrites writesJson swapCommit) o).status = .ok) →
      (Agrees lib (s.write lib (w.call lib swapCommit) o)
          (s.write lib (.applyWrites writesJson swapCommit) o) ↔
        w.action = .create ∧
          backlinkConflicts lib s w.collection (w.key o) (lib.printJson w.value) o = []) := by
  intro s hsucceeds
  have hheld : Held s := held_exec lib.toBlockLibrary did t run
  constructor
  · intro hagrees
    obtain ⟨e, op, hevent, hops, haction, hprev⟩ :=
      single_announces hlib hheld hw hparse ho hagrees
    cases h : w.action with
    | create =>
      refine ⟨rfl, ?_⟩
      by_contra hconflicts
      have hok := hagrees.single
      simp only [SingleWrite.call, h, RepoStore.write] at hok hevent
      obtain ⟨e', hevent', hlength⟩ := conflicting_announces hlib hheld ho hconflicts hok
      rw [WriteResult.forget, hevent'] at hevent
      cases hevent
      rw [hops, List.length_singleton] at hlength
      omega
    | update =>
      have hok := hagrees.single
      simp only [SingleWrite.call, h, RepoStore.write] at hok hevent
      rcases put_event hlib hheld ho hok with hnone | ⟨e', op', hevent', hops', hput⟩
      · rw [WriteResult.forget, hnone] at hevent
        cases hevent
      · rw [WriteResult.forget, hevent'] at hevent
        cases hevent
        rw [hops] at hops'
        cases hops'
        rcases hput with hput | hput
        · rw [hput, h] at haction
          cases haction
        · rw [hprev] at hput
          cases hput
    | delete =>
      have hok := hagrees.single
      simp only [SingleWrite.call, h, RepoStore.write] at hok hevent
      obtain ⟨e', op', hevent', hops', hput⟩ := delete_event hlib hheld ho hok
      rw [WriteResult.forget, hevent'] at hevent
      cases hevent
      rw [hops] at hops'
      cases hops'
      rw [hprev] at hput
      cases hput
  · rintro ⟨haction, hconflicts⟩
    have hcall : w.call lib swapCommit =
        .createRecord w.collection w.rkey (lib.printJson w.value) swapCommit := by
      rw [SingleWrite.call, haction]
    rw [hcall] at hsucceeds ⊢
    exact create_agrees hlib hheld hw haction hparse ho hconflicts hsucceeds

/-! ## A delete in a batch -/

section BatchOfDelete

/-- The elements that create and delete the one record, and the texts of their batches. -/
def createElement : Json :=
  .object [("$type", .string WriteAction.create.type), ("collection", .string "app.example"),
    ("rkey", .string "a"), ("value", .object [("$type", .string "app.example")])]

def deleteElement : Json :=
  .object [("$type", .string WriteAction.delete.type), ("collection", .string "app.example"),
    ("rkey", .string "a")]

def createBatch : String :=
  "[\x7b\"$type\":\"com.atproto.repo.applyWrites#create\",\"collection\":\"app.example\"," ++
    "\"rkey\":\"a\",\"value\":\x7b\"$type\":\"app.example\"\x7d\x7d]"

def deleteBatch : String :=
  "[\x7b\"$type\":\"com.atproto.repo.applyWrites#delete\",\"collection\":\"app.example\"," ++
    "\"rkey\":\"a\"\x7d]"

/-- Their results, and the texts of these. -/
def createResult : Json :=
  .object [("$type", .string "com.atproto.repo.applyWrites#createResult"),
    ("uri", .string "at://did/app.example/a"), ("cid", .string "r1"),
    ("validationStatus", .string "unknown")]

def deleteResult : Json :=
  .object [("$type", .string "com.atproto.repo.applyWrites#deleteResult")]

def createResults : String :=
  "[\x7b\"$type\":\"com.atproto.repo.applyWrites#createResult\",\"uri\":\"at://did/app.exa" ++
    "mple/a\",\"cid\":\"r1\",\"validationStatus\":\"unknown\"\x7d]"

def deleteResults : String :=
  "[\x7b\"$type\":\"com.atproto.repo.applyWrites#deleteResult\"\x7d]"

/-- The parser and the printer, on these trees. -/
def parseBatch (text : String) : Option Json :=
  if text = exampleText then some (.object [("$type", .string "app.example")])
  else if text = createBatch then some (.array [createElement])
  else if text = deleteBatch then some (.array [deleteElement])
  else if text = createResults then some (.array [createResult])
  else if text = deleteResults then some (.array [deleteResult])
  else none

def printBatch : Json → String
  | .object [("$type", .string "app.example")] => exampleText
  | .array [.object [("$type", .string "com.atproto.repo.applyWrites#create"),
      ("collection", .string "app.example"), ("rkey", .string "a"),
      ("value", .object [("$type", .string "app.example")])]] => createBatch
  | .array [.object [("$type", .string "com.atproto.repo.applyWrites#delete"),
      ("collection", .string "app.example"), ("rkey", .string "a")]] => deleteBatch
  | .array [.object [("$type", .string "com.atproto.repo.applyWrites#createResult"),
      ("uri", .string "at://did/app.example/a"), ("cid", .string "r1"),
      ("validationStatus", .string "unknown")]] => createResults
  | .array [.object [("$type", .string "com.atproto.repo.applyWrites#deleteResult")]] =>
    deleteResults
  | _ => ""

/-- The library that knows the one record, its creation and its deletion, alone or in a
batch. -/
def oneBatch : RepoLibrary :=
  { oneRecord with
    content := fun cid => if cid = "c1" then [1] else if cid = "n1" then [2] else
      if cid = "c2" then [3] else if cid = "n2" then [4] else exampleCbor
    commitParse := fun data => if data = [1] then some ⟨"rev1", "n1"⟩ else
      if data = [3] then some ⟨"rev2", "n2"⟩ else none
    parseJson := parseBatch
    printJson := printBatch
    repoDeleteRecord := fun _ _ head collection rkey =>
      if head = "c1" ∧ collection = "app.example" ∧ rkey = "a" then
        .ok ⟨["n2", "c2"], "c2", []⟩
      else .error .notFound
    repoApplyWrites := fun _ _ head writes =>
      match writes with
      | [⟨.create, collection, rkey, body, _⟩] =>
        if head = "" ∧ collection = "app.example" ∧ rkey = "a" ∧ body = exampleCbor then
          .ok ⟨["r1", "n1", "c1"], "c1", ["r1"]⟩
        else .error .internal
      | [⟨.delete, collection, rkey, _, _⟩] =>
        if head = "c1" ∧ collection = "app.example" ∧ rkey = "a" then
          .ok ⟨["n2", "c2"], "c2", [""]⟩
        else .error .notFound
      | _ => .error .internal }

theorem signed_first : Signed oneBatch "" ⟨["r1", "n1", "c1"], "c1", ["r1"]⟩ where
  ne := by decide
  mem := by decide
  later := by
    refine ⟨⟨"rev1", "n1"⟩, by decide, fun previous h => ?_⟩
    have hnone : oneBatch.commitParse (oneBatch.content "") = none := by decide
    rw [hnone] at h
    cases h

theorem signed_second (records : List Cid) :
    Signed oneBatch "c1" ⟨["n2", "c2"], "c2", records⟩ where
  ne := by simp
  mem := by simp
  later := by
    have hnew : oneBatch.commitParse (oneBatch.content "c2") = some ⟨"rev2", "n2"⟩ := by decide
    refine ⟨⟨"rev2", "n2"⟩, hnew, fun previous h => ?_⟩
    have hfirst : oneBatch.commitParse (oneBatch.content "c1") = some ⟨"rev1", "n1"⟩ := by decide
    rw [hfirst] at h
    cases h
    decide

/-- What is printed reads back as it was. -/
theorem parseBatch_printBatch {j j' : Json} (h : parseBatch (printBatch j) = some j') : j' = j := by
  have hcreate : parseBatch createBatch = some (.array [createElement]) := by
    rw [parseBatch, if_neg (by decide +kernel), if_pos rfl]
  have hdelete : parseBatch deleteBatch = some (.array [deleteElement]) := by
    rw [parseBatch, if_neg (by decide +kernel), if_neg (by decide +kernel), if_pos rfl]
  have hcreated : parseBatch createResults = some (.array [createResult]) := by
    rw [parseBatch, if_neg (by decide +kernel), if_neg (by decide +kernel),
      if_neg (by decide +kernel), if_pos rfl]
  have hdeleted : parseBatch deleteResults = some (.array [deleteResult]) := by
    rw [parseBatch, if_neg (by decide +kernel), if_neg (by decide +kernel),
      if_neg (by decide +kernel), if_neg (by decide +kernel), if_pos rfl]
  have hempty : parseBatch "" = none := by
    rw [parseBatch, if_neg (by decide +kernel), if_neg (by decide +kernel),
      if_neg (by decide +kernel), if_neg (by decide +kernel), if_neg (by decide +kernel)]
  unfold printBatch at h
  split at h
  · rw [parseBatch, if_pos rfl] at h
    exact (Option.some.inj h).symm
  · exact (Option.some.inj (hcreate.symm.trans h)).symm
  · exact (Option.some.inj (hdelete.symm.trans h)).symm
  · exact (Option.some.inj (hcreated.symm.trans h)).symm
  · exact (Option.some.inj (hdeleted.symm.trans h)).symm
  · cases hempty.symm.trans h

theorem oneBatch_laws : BatchLaws oneBatch where
  create clock car head collection rkey body c h := by
    simp only [oneBatch, oneRecord] at h
    split at h
    · next hc =>
      cases h
      rw [hc.1]
      exact signed_first
    · cases h
  update clock car head collection rkey body c h := by cases h
  delete clock car head collection rkey c h := by
    simp only [oneBatch] at h
    split at h
    · next hc =>
      cases h
      rw [hc.1]
      exact signed_second []
    · cases h
  apply clock car head writes c h := by
    simp only [oneBatch] at h
    split at h
    · split at h
      · next hc =>
        cases h
        rw [hc.1]
        exact ⟨signed_first, rfl⟩
      · cases h
    · split at h
      · next hc =>
        cases h
        rw [hc.1]
        exact ⟨signed_second [""], rfl⟩
      · cases h
    · cases h
  single clock car head collection rkey body value := by
    simp only [oneBatch, oneRecord]
    split
    · exact Or.inl ⟨_, _, rfl, rfl, rfl, fun _ _ => rfl, fun _ _ _ => Iff.rfl⟩
    · exact Or.inr ⟨_, _, rfl, rfl⟩
  array ops j h := ⟨ops, parseBatch_printBatch h, rfl⟩

theorem good_nothingFails : WriteOutcomes.good.NothingFails :=
  ⟨rfl, fun _ => rfl, rfl, rfl, fun _ => rfl, fun _ => rfl, rfl, rfl⟩

def createWrite : SingleWrite :=
  ⟨.create, "app.example", some "a", .object [("$type", .string "app.example")]⟩

theorem createWrite_denotes : createWrite.Denotes createElement :=
  ⟨by decide, by decide, by decide, fun _ => rfl⟩

theorem singleWrite_batch_create :
    BatchLaws oneBatch ∧ createWrite.Denotes createElement ∧
      oneBatch.parseJson createBatch = some (.array [createElement]) ∧
      WriteOutcomes.good.NothingFails ∧
      let s := exec (RepoStore.step oneBatch.toBlockLibrary) (storeOpen "did" ⟨[], none, []⟩) []
      (s.write oneBatch (.applyWrites createBatch none) .good).status = .ok ∧
        (Agrees oneBatch (s.write oneBatch (createWrite.call oneBatch none) .good)
            (s.write oneBatch (.applyWrites createBatch none) .good) ↔
          createWrite.action = .create ∧
            backlinkConflicts oneBatch s createWrite.collection (createWrite.key .good)
              (oneBatch.printJson createWrite.value) .good = []) := by
  have hparse : oneBatch.parseJson createBatch = some (.array [createElement]) := by
    rfl
  have hok : ((RepoStore.new "did").write oneBatch (.applyWrites createBatch none) .good).status =
      .ok := by
    decide
  exact ⟨oneBatch_laws, createWrite_denotes, hparse, good_nothingFails, hok,
    singleWrite_batch_iff oneBatch oneBatch_laws "did" ⟨[], none, []⟩ [] createWrite createElement
      createWrite_denotes createBatch hparse none .good good_nothingFails (Or.inr hok)⟩

def deleteWrite : SingleWrite := ⟨.delete, "app.example", some "a", .null⟩

/-- The steps that lead to a store with the one record. -/
def firstRecordRun : List StoreCall :=
  [.stage ["r1", "n1", "c1"], .commitPersist "c1" .good,
    .index fun rows => rows ++ [⟨"app.example", "a", "r1", exampleText, some "rev1"⟩]]

/-- The delete of a record announces the CID that the record had, a batch of that delete does
not. -/
theorem batch_of_delete_lacks_prev :
    let s := exec (RepoStore.step oneBatch.toBlockLibrary) (storeOpen "did" ⟨[], none, []⟩)
      firstRecordRun
    let r := s.write oneBatch (deleteWrite.call oneBatch none) .good
    let r' := s.write oneBatch (.applyWrites deleteBatch none) .good
    BatchLaws oneBatch ∧ deleteWrite.Denotes deleteElement ∧ r.status = .ok ∧ r'.status = .ok ∧
      r.event.map CommitEvent.ops = some [⟨.delete, "app.example", "a", none, some "r1"⟩] ∧
      r'.event.map CommitEvent.ops = some [⟨.delete, "app.example", "a", none, none⟩] ∧
      ¬ Agrees oneBatch r r' := by
  intro s r r'
  have hheld : Held s := held_exec oneBatch.toBlockLibrary "did" ⟨[], none, []⟩ firstRecordRun
  have hbegin : s.db.canBegin = true := by decide
  have hhead : s.head = "c1" := by decide
  have hops : r.event.map CommitEvent.ops =
      some [⟨.delete, "app.example", "a", none, some "r1"⟩] := by
    have hplan : planDelete oneBatch s "app.example" "a" none none .good =
        .ok ("r1", ⟨["n2", "c2"], "c2", []⟩) := by rfl
    obtain ⟨e, hevent, he⟩ := ((deleteRecordLocked_landsAs good_nothingFails hplan).2
      hbegin).emits hheld (hhead ▸ signed_second [])
    exact congrArg (Option.map CommitEvent.ops) hevent |>.trans (congrArg some he.ops)
  have hops' : r'.event.map CommitEvent.ops =
      some [⟨.delete, "app.example", "a", none, none⟩] := by
    have hplan : planApplyWrites oneBatch s deleteBatch none .good =
        .ok ([⟨.delete, "app.example", "a", [], ""⟩], ⟨["n2", "c2"], "c2", [""]⟩) := by rfl
    obtain ⟨e, hevent, he⟩ := ((applyWritesLocked_landsAs good_nothingFails hplan).2
      hbegin).1.emits hheld (hhead ▸ signed_second [""])
    exact congrArg (Option.map CommitEvent.ops) hevent |>.trans (congrArg some he.ops)
  refine ⟨oneBatch_laws, ⟨by decide, by decide, by decide, fun h => absurd rfl h⟩,
    by decide, by decide, hops, hops', fun hagrees => ?_⟩
  rcases hagrees.effect.event with ⟨hnone, -⟩ | ⟨e, e', hevent, hevent', hsame⟩
  · rw [hnone] at hops
    cases hops
  · rw [hevent] at hops
    rw [hevent'] at hops'
    have h := (Option.some.inj hops').symm.trans (hsame.ops.trans (Option.some.inj hops))
    exact absurd h (by decide)

end BatchOfDelete

end MetalBear.Repo
