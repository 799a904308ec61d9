import MetalBear.Library.ContentGraph
import MetalBear.Library.Transaction
import MetalBear.Wolfram.Status

/-!
# The repository store

The storage engine of one repository: the blocks held in memory, the head commit, and the
SQLite tables behind them. Blocks are content addressed, so a list of blocks is a list of
CIDs and what stands in a block is a function of its CID. Every statement of a write to the
database may fail on its own.
-/

namespace MetalBear.Repo

open Transaction

/-! ## Blocks -/

/-- A `wf_cid` by its text; the empty text is the CID of length zero. -/
abbrev Cid := String

/-- `wf_commit`, as far as the store reads it. -/
structure Commit where
  rev : String
  data : Cid
  deriving DecidableEq, Repr

/-- An entry of `wf_mst_node`. -/
structure MstEntry where
  key : String
  value : Cid
  subtree : Cid
  deriving DecidableEq, Repr

/-- `wf_mst_node`. -/
structure MstNode where
  left : Cid
  entries : List MstEntry
  deriving DecidableEq, Repr

/-- The blocks that CIDs stand for and the library's parsers of them. -/
structure BlockLibrary where
  /-- The bytes whose hash the CID is. -/
  content : Cid → List UInt8
  /-- `wf_commit_parse`. -/
  commitParse : List UInt8 → Option Commit
  /-- `wf_mst_node_parse`. -/
  mstNodeParse : List UInt8 → Except WfError MstNode

/-- `wf_car_find_block`. -/
def BlockLibrary.findBlock (lib : BlockLibrary) (car : List Cid) (cid : Cid) :
    Option (List UInt8) :=
  if cid ∈ car then some (lib.content cid) else none

/-- What a block is to the repository. -/
inductive BlockRole where
  | commit
  | node
  | record
  deriving DecidableEq, Repr

/-- A reference to a node, unless it is the CID of length zero. -/
def nodeLink (cid : Cid) : List (BlockRole × Cid) := if cid = "" then [] else [(.node, cid)]

/-- The references of a block: a commit to its tree, a node to its left neighbour and, for
every entry, to the record and to the subtree on the right. -/
def BlockLibrary.links (lib : BlockLibrary) : BlockRole → Cid → List (BlockRole × Cid)
  | .commit, cid =>
    match lib.commitParse (lib.content cid) with
    | some commit => nodeLink commit.data
    | none => []
  | .node, cid =>
    match lib.mstNodeParse (lib.content cid) with
    | .ok node =>
      nodeLink node.left ++ node.entries.flatMap fun e => (.record, e.value) :: nodeLink e.subtree
    | .error _ => []
  | .record, _ => []

/-- The blocks that are reachable from a head commit through the given ones. -/
def BlockLibrary.reachable (lib : BlockLibrary) (blocks : List Cid) (head : Cid) : Set Cid :=
  ContentGraph.Reachable lib.links {cid | cid ∈ blocks} (.commit, head)

/-! ## Tables -/

/-- A row of `blocks`. -/
structure BlockRow where
  cid : Cid
  repoRev : Option String
  deriving DecidableEq, Repr

/-- The row of `head`. -/
structure HeadRow where
  cid : Option Cid
  revOverride : Option String
  deriving DecidableEq, Repr

/-- A row of `records`, less the time of its writing. -/
structure RecordRow where
  collection : String
  rkey : String
  cid : Cid
  value : String
  repoRev : Option String
  deriving DecidableEq, Repr

/-- The tables of the store's database. -/
structure Tables where
  blocks : List BlockRow
  head : Option HeadRow
  records : List RecordRow
  deriving DecidableEq, Repr

/-- The CIDs of the `blocks` table. -/
def Tables.cids (t : Tables) : List Cid := t.blocks.map BlockRow.cid

/-- `INSERT OR IGNORE INTO blocks`. -/
def Tables.insertBlock (revision : String) (cid : Cid) (t : Tables) : Tables :=
  if cid ∈ t.cids then t else { t with blocks := t.blocks ++ [⟨cid, some revision⟩] }

/-- `INSERT OR REPLACE INTO head`. -/
def Tables.putHead (row : HeadRow) (t : Tables) : Tables := { t with head := some row }

/-- `DELETE FROM records WHERE collection = ? AND rkey = ?`. -/
def Tables.deleteRecord (collection rkey : String) (t : Tables) : Tables :=
  { t with records := t.records.filter fun r => ¬ (r.collection = collection ∧ r.rkey = rkey) }

/-- `INSERT OR REPLACE INTO records`. -/
def Tables.upsertRecord (row : RecordRow) (t : Tables) : Tables :=
  { t.deleteRecord row.collection row.rkey with
    records := (t.deleteRecord row.collection row.rkey).records ++ [row] }

/-! ## The store -/

/-- `metalbear_repo_store`, less its keys and its event callback. -/
structure RepoStore where
  did : String
  car : List Cid
  head : Cid
  persistedBlocks : Nat
  revOverride : Option String
  db : Db Tables

/-- `parse_commit_at`. -/
def parseCommitAt (lib : BlockLibrary) (s : RepoStore) (cid : Cid) : Option Commit :=
  if cid = "" then none else (lib.findBlock s.car cid).bind lib.commitParse

/-- `get_effective_rev`: the override if there is one, else the rev of the head commit. -/
def getEffectiveRev (lib : BlockLibrary) (s : RepoStore) : String :=
  match s.revOverride with
  | some rev => rev
  | none => ((parseCommitAt lib s s.head).map Commit.rev).getD ""

/-- What becomes of each statement of `commit_persist`. -/
structure PersistOutcomes where
  /-- `BEGIN` gets through. -/
  begins : Bool
  /-- The `INSERT` for the block at that index fails, and how. -/
  insertError : Nat → Option WfError
  /-- The `INSERT OR REPLACE INTO head` gets through. -/
  writesHead : Bool
  commit : CommitOutcome
  /-- `ROLLBACK` gets through. -/
  rollsBack : Bool

/-- The loop of `persist_new_blocks`: one `INSERT` a block, until the first that fails. -/
def insertBlocks (revision : String) (insertError : Nat → Option WfError) :
    Nat → List Cid → Db Tables → Db Tables × Option WfError
  | _, [], db => (db, none)
  | i, cid :: rest, db =>
    match insertError i with
    | some error => (db, some error)
    | none => insertBlocks revision insertError (i + 1) rest (db.write (.insertBlock revision cid))

/-- `persist_new_blocks`: the blocks past the mark are written, and the mark is moved. -/
def persistNewBlocks (lib : BlockLibrary) (s : RepoStore) (o : PersistOutcomes) :
    RepoStore × Option WfError :=
  let revision := (((lib.findBlock s.car s.head).bind lib.commitParse).map Commit.rev).getD ""
  match insertBlocks revision o.insertError s.persistedBlocks (s.car.drop s.persistedBlocks)
      s.db with
  | (db, some error) => ({ s with db }, some error)
  | (db, none) => ({ s with db, persistedBlocks := s.car.length }, none)

/-- The row that `persist_head` writes. -/
def headRow (s : RepoStore) : HeadRow :=
  { cid := if s.head = "" then none else some s.head, revOverride := s.revOverride }

/-- `persist_head`. -/
def persistHead (s : RepoStore) (writes : Bool) : RepoStore × Option WfError :=
  if writes then ({ s with db := s.db.write (.putHead (headRow s)) }, none)
  else (s, some .internal)

/-- `commit_persist`. The head is moved before the transaction begins, and what `COMMIT`
returns is not looked at. -/
def commitPersist (lib : BlockLibrary) (s : RepoStore) (newHead : Cid) (o : PersistOutcomes) :
    RepoStore × Option WfError :=
  let s := { s with head := newHead, revOverride := none }
  if o.begins ∧ s.db.canBegin then
    let result :=
      match persistNewBlocks lib { s with db := s.db.start } o with
      | (s, some error) => (s, some error)
      | (s, none) => persistHead s o.writesHead
    match result with
    | (s, none) => ({ s with db := s.db.commit o.commit }, none)
    | (s, some error) => (if o.rollsBack then { s with db := s.db.rollback } else s, some error)
  else (s, some .internal)

/-- `set_rev_override`. -/
def setRevOverride (s : RepoStore) (rev : String) (writes : Bool) : RepoStore × Option WfError :=
  persistHead { s with revOverride := some rev } writes

/-- `metalbear_repo_store_open_with_key` on a database that has its `meta` row: the blocks
are loaded in the order of the table, and all of them count as persisted. -/
def storeOpen (did : String) (t : Tables) : RepoStore where
  did := did
  car := t.cids
  head := (t.head.bind HeadRow.cid).getD ""
  persistedBlocks := t.cids.length
  revOverride := t.head.bind HeadRow.revOverride
  db := .fresh t

/-- Close the store and open it again. -/
def RepoStore.reopen (s : RepoStore) : RepoStore := storeOpen s.did s.db.durable

/-- A store on an empty database. -/
def RepoStore.new (did : String) : RepoStore := storeOpen did ⟨[], none, []⟩

/-! ## What the tables keep -/

@[simp] theorem Tables.cids_insertBlock {revision : String} {cid c : Cid} {t : Tables} :
    c ∈ (t.insertBlock revision cid).cids ↔ c ∈ t.cids ∨ c = cid := by
  by_cases h : cid ∈ t.cids
  · simp only [insertBlock, h, if_true]
    constructor
    · exact Or.inl
    · rintro (hc | rfl) <;> assumption
  · have hcids : (t.insertBlock revision cid).cids = t.cids ++ [cid] := by
      rw [insertBlock, if_neg h]
      simp [cids]
    simp [hcids]

@[simp] theorem Tables.cids_putHead {row : HeadRow} {t : Tables} :
    (t.putHead row).cids = t.cids := rfl

@[simp] theorem Tables.head_putHead {row : HeadRow} {t : Tables} :
    (t.putHead row).head = some row := rfl

@[simp] theorem Tables.head_insertBlock {revision : String} {cid : Cid} {t : Tables} :
    (t.insertBlock revision cid).head = t.head := by
  unfold insertBlock
  split <;> rfl

@[simp] theorem Tables.records_insertBlock {revision : String} {cid : Cid} {t : Tables} :
    (t.insertBlock revision cid).records = t.records := by
  unfold insertBlock
  split <;> rfl

@[simp] theorem Tables.records_putHead {row : HeadRow} {t : Tables} :
    (t.putHead row).records = t.records := rfl

/-- The rows that the insertion of some blocks leaves behind. -/
def Tables.insertAll (revision : String) (cids : List Cid) (t : Tables) : Tables :=
  cids.foldl (fun t cid => t.insertBlock revision cid) t

theorem Tables.cids_insertAll {revision : String} {cids : List Cid} {c : Cid} {t : Tables} :
    c ∈ (t.insertAll revision cids).cids ↔ c ∈ t.cids ∨ c ∈ cids := by
  induction cids generalizing t with
  | nil => simp [insertAll]
  | cons cid cids ih =>
    have h := ih (t := t.insertBlock revision cid)
    simp only [insertAll, List.foldl_cons] at h ⊢
    rw [h, cids_insertBlock, List.mem_cons, or_assoc]

theorem Tables.head_insertAll {revision : String} {cids : List Cid} {t : Tables} :
    (t.insertAll revision cids).head = t.head ∧
      (t.insertAll revision cids).records = t.records := by
  induction cids generalizing t with
  | nil => exact ⟨rfl, rfl⟩
  | cons cid cids ih =>
    have h := ih (t := t.insertBlock revision cid)
    simpa [insertAll] using h

/-! ## What `commit_persist` does -/

/-- Inside a transaction the loop leaves the durable tables alone, and it gets through when
no `INSERT` fails, with all blocks in the working copy. -/
theorem insertBlocks_cases (revision : String) (insertError : Nat → Option WfError) (i : Nat)
    (cids : List Cid) {db : Db Tables} {t : Tables} (h : db.pending = some t) :
    (insertBlocks revision insertError i cids db).1.durable = db.durable ∧
      ((∃ error, (insertBlocks revision insertError i cids db).2 = some error ∧
          ∃ j, i ≤ j ∧ j < i + cids.length ∧ insertError j ≠ none) ∨
        ((insertBlocks revision insertError i cids db).2 = none ∧
          (insertBlocks revision insertError i cids db).1.pending =
            some (t.insertAll revision cids) ∧
          ∀ j, i ≤ j → j < i + cids.length → insertError j = none)) := by
  induction cids generalizing i db t with
  | nil => exact ⟨rfl, Or.inr ⟨rfl, by simpa [insertBlocks, Tables.insertAll] using h,
      fun j hi hj => absurd hj (by simpa using hi)⟩⟩
  | cons cid cids ih =>
    simp only [insertBlocks, List.length_cons]
    cases he : insertError i with
    | some error => exact ⟨rfl, Or.inl ⟨error, rfl, i, le_refl i, by omega, by simp [he]⟩⟩
    | none =>
      obtain ⟨hd, hp⟩ := Db.durable_write_of_pending (f := Tables.insertBlock revision cid) h
      obtain ⟨hdur, hrest⟩ := ih (i + 1) hp
      refine ⟨hdur.trans hd, ?_⟩
      rcases hrest with ⟨error, hout, j, hij, hj, hne⟩ | ⟨hout, hpend, hall⟩
      · exact Or.inl ⟨error, hout, j, by omega, by omega, hne⟩
      · refine Or.inr ⟨hout, hpend, fun j hij hj => ?_⟩
        by_cases hji : j = i
        · rw [hji, he]
        · exact hall j (by omega) (by omega)

/-- `BEGIN` gets through, and so does the `INSERT` for every block past the mark. -/
structure PersistOutcomes.Inserts (o : PersistOutcomes) (s : RepoStore) : Prop where
  begins : o.begins = true
  canBegin : s.db.canBegin = true
  inserts : ∀ i, s.persistedBlocks ≤ i → i < s.car.length → o.insertError i = none

/-- The tables once the blocks past the mark and the head row are written. -/
def persistedTables (lib : BlockLibrary) (s : RepoStore) (newHead : Cid) : Tables :=
  (s.db.durable.insertAll
      (((lib.findBlock s.car newHead).bind lib.commitParse).map Commit.rev |>.getD "")
      (s.car.drop s.persistedBlocks)).putHead
    { cid := if newHead = "" then none else some newHead, revOverride := none }

/-- The store has its new head, whatever becomes of the statements. -/
theorem commitPersist_frame (lib : BlockLibrary) (s : RepoStore) (newHead : Cid)
    (o : PersistOutcomes) :
    (commitPersist lib s newHead o).1.head = newHead ∧
      (commitPersist lib s newHead o).1.revOverride = none ∧
      (commitPersist lib s newHead o).1.car = s.car ∧
      (commitPersist lib s newHead o).1.did = s.did := by
  by_cases hbegin : o.begins = true ∧ s.db.canBegin = true
  · simp only [commitPersist, hbegin, and_self, if_true, persistNewBlocks, persistHead]
    generalize insertBlocks _ o.insertError s.persistedBlocks (s.car.drop s.persistedBlocks)
      s.db.start = out
    rcases out with ⟨db, _ | error⟩ <;> cases o.writesHead <;> cases o.rollsBack <;> simp
  · simp [commitPersist, hbegin]

/-- What `commit_persist` does, by how far its statements get. -/
inductive PersistCase (lib : BlockLibrary) (s : RepoStore) (newHead : Cid) (o : PersistOutcomes) :
    RepoStore × Option WfError → Prop where
  /-- `BEGIN` or an `INSERT` fails. -/
  | notInserted {s' error} : ¬ o.Inserts s → s'.persistedBlocks = s.persistedBlocks →
      s'.db.durable = s.db.durable → PersistCase lib s newHead o (s', some error)
  /-- The head row is not written. -/
  | headNotWritten {s' error} : o.Inserts s → o.writesHead = false →
      s'.persistedBlocks = s.car.length → s'.db.durable = s.db.durable →
      PersistCase lib s newHead o (s', some error)
  /-- `COMMIT` does not take effect. -/
  | notCommitted {s'} : o.Inserts s → o.writesHead = true → o.commit ≠ .committed →
      s'.persistedBlocks = s.car.length → s'.db.durable = s.db.durable →
      PersistCase lib s newHead o (s', none)
  /-- Everything gets through. -/
  | committed {s'} : o.Inserts s → o.writesHead = true → o.commit = .committed →
      s'.persistedBlocks = s.car.length → s'.db = .fresh (persistedTables lib s newHead) →
      PersistCase lib s newHead o (s', none)

theorem commitPersist_cases (lib : BlockLibrary) (s : RepoStore) (newHead : Cid)
    (o : PersistOutcomes) :
    PersistCase lib s newHead o (commitPersist lib s newHead o) := by
  by_cases hbegin : o.begins = true ∧ s.db.canBegin = true
  · obtain ⟨hdur, hrest⟩ := insertBlocks_cases
      ((((lib.findBlock s.car newHead).bind lib.commitParse).map Commit.rev).getD "")
      o.insertError s.persistedBlocks (s.car.drop s.persistedBlocks) (Db.pending_start s.db)
    simp only [commitPersist, hbegin, and_self, if_true, persistNewBlocks]
    revert hdur hrest
    generalize insertBlocks _ o.insertError s.persistedBlocks (s.car.drop s.persistedBlocks)
      s.db.start = out
    rcases out with ⟨db, error⟩
    rintro hdur (⟨error, rfl, j, hij, hj, hne⟩ | ⟨rfl, hpend, hall⟩)
    · have hno : ¬ o.Inserts s := fun h => by
        rw [List.length_drop] at hj
        exact hne (h.inserts j hij (by omega))
      cases o.rollsBack <;> exact .notInserted hno rfl hdur
    · have hyes : o.Inserts s := ⟨hbegin.1, hbegin.2, fun i hi hlt => hall i hi (by
        rw [List.length_drop]
        omega)⟩
      cases hw : o.writesHead with
      | false =>
        cases o.rollsBack <;> exact .headNotWritten hyes hw rfl hdur
      | true =>
        obtain ⟨hdur', hpend'⟩ := Db.durable_write_of_pending
          (f := Tables.putHead ⟨if newHead = "" then none else some newHead, none⟩) hpend
        by_cases hc : o.commit = .committed
        · refine .committed hyes hw hc rfl ?_
          simp only [headRow, hc]
          exact Db.commit_committed hpend'
        · refine .notCommitted hyes hw hc rfl ?_
          simp only [headRow]
          rw [Db.durable_commit_of_ne hc, hdur', hdur, Db.durable_start]
  · have hno : ¬ o.Inserts s := fun h => hbegin ⟨h.begins, h.canBegin⟩
    simp only [commitPersist, hbegin, if_false]
    exact .notInserted hno rfl rfl

/-- `commit_persist` returns `WF_OK` when all statements but the `COMMIT` get through. -/
theorem commitPersist_returns_iff (lib : BlockLibrary) (s : RepoStore) (newHead : Cid)
    (o : PersistOutcomes) :
    (commitPersist lib s newHead o).2 = none ↔ o.Inserts s ∧ o.writesHead = true := by
  have hcase := commitPersist_cases lib s newHead o
  revert hcase
  generalize commitPersist lib s newHead o = r
  intro hcase
  cases hcase <;> simp_all

end MetalBear.Repo
