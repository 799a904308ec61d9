import MetalBear.Library.Machine
import MetalBear.Repo.BatchTree
import MetalBear.Repo.SingleWrite

/-!
# Backlinks

Runs of `createRecord` on one repository. In four collections a record names a subject, and a
new record takes the place of the older ones with the same subject, which the `records` table
tells. It is said under which conditions each subject then has one record, no other record
goes, and the create gets through however many older records there are.
-/

namespace MetalBear.Repo

open KeyedWrites Machine Transaction

/-! ## Calls -/

/-- A call of `metalbear_repo_store_create_record`, with a record that was printed. -/
structure CreateCall where
  collection : String
  rkey : Option String
  record : Json
  swapCommit : Option String
  o : WriteOutcomes

namespace CreateCall

/-- The text of the record. -/
def text (lib : RepoLibrary) (c : CreateCall) : String := lib.printJson c.record

/-- The call. -/
def run (lib : RepoLibrary) (s : RepoStore) (c : CreateCall) : WriteResult (String × String) :=
  createRecordLocked lib s c.collection c.rkey (c.text lib) c.swapCommit c.o

/-- The store after the call. -/
def step (lib : RepoLibrary) (s : RepoStore) (c : CreateCall) : RepoStore := (c.run lib s).store

/-- The checks of the call, which give the key. -/
def check (lib : RepoLibrary) (s : RepoStore) (c : CreateCall) : Except WfError String :=
  checkCreate lib s c.collection c.rkey (c.text lib) c.swapCommit c.o

/-- The records that stand in the way of a new one under that key. -/
def conflicts (lib : RepoLibrary) (s : RepoStore) (c : CreateCall) (key : String) : List String :=
  backlinkConflicts lib s c.collection key (c.text lib) c.o

/-- The subject of the new record. -/
def target (lib : RepoLibrary) (c : CreateCall) : Option String :=
  (backlinkPathForCollection c.collection).bind (backlinkTarget lib (c.text lib))

/-- The record is valid by itself: the checks let it through, and the repository library makes
a commit of it. -/
def ValidAlone (lib : RepoLibrary) (s : RepoStore) (c : CreateCall) : Prop :=
  ∃ key built, c.check lib s = .ok key ∧
    planCreate lib s c.collection key (c.text lib) c.o = .ok built

end CreateCall

/-! ## What is claimed, and when it holds -/

/-- The JSON text of the record of a block. -/
def blockText (lib : RepoLibrary) (block : List UInt8) : Option String :=
  ((lib.cborParse block).bind (cborToJson lib.toCborText)).map lib.printJson

/-- The record of that key has that subject, in one of the four collections. -/
def Backlink (lib : RepoLibrary) (s : RepoStore) (collection rkey target : String) : Prop :=
  ∃ path text cid, backlinkPathForCollection collection = some path ∧
    storeGetRecord lib s collection rkey = .ok (text, cid) ∧
    backlinkTarget lib text path = some target

/-- Each subject has at most one record in each of the four collections. -/
def Deduplicated (lib : RepoLibrary) (s : RepoStore) : Prop :=
  ∀ collection target rkey rkey', Backlink lib s collection rkey target →
    Backlink lib s collection rkey' target → rkey = rkey'

/-- A create leaves one record with its subject, and no second one with any other; it removes
no record of another collection or subject; and it gets through if its record is valid. -/
structure KeepsBacklinks (lib : RepoLibrary) (s : RepoStore) (c : CreateCall) : Prop where
  unique : (c.run lib s).status = .ok → ∀ target, c.target lib = some target →
    ∀ rkey rkey', Backlink lib (c.step lib s) c.collection rkey target →
      Backlink lib (c.step lib s) c.collection rkey' target → rkey = rkey'
  deduplicated : Deduplicated lib s → Deduplicated lib (c.step lib s)
  kept : ∀ collection rkey record, storeGetRecord lib s collection rkey = .ok record →
    ¬ (collection = c.collection ∧ ∃ target, c.target lib = some target ∧
      Backlink lib s collection rkey target) →
    storeGetRecord lib (c.step lib s) collection rkey = .ok record
  available : c.ValidAlone lib s → (c.run lib s).status = .ok

/-- SQLite reads the same subject from the text as is read from the record of the block. -/
def TellsSubject (lib : RepoLibrary) (collection text : String) (block : List UInt8) : Prop :=
  ∀ path, backlinkPathForCollection collection = some path → ∀ target, target ≠ "" →
    (lib.jsonExtract text path = some target ↔
      (blockText lib block).bind (backlinkTarget lib · path) = some target)

/-- The `records` table has a row for every record of the tree and no others, and tells their
subjects. -/
structure IndexMirrors (lib : RepoLibrary) (s : RepoStore) : Prop where
  canBegin : s.db.canBegin = true
  nodup : (s.db.view.records.map fun row => (row.collection, row.rkey)).Nodup
  row_iff : ∀ collection rkey cid, recordCid lib s.car s.head collection rkey = some cid ↔
    ∃ row ∈ s.db.view.records, row.collection = collection ∧ row.rkey = rkey ∧ row.cid = cid
  tells : ∀ row ∈ s.db.view.records, TellsSubject lib row.collection row.value
    (lib.content row.cid)

/-- The cleanup of the conflicts: they are fewer than 200 and have valid keys, and the batch and
its results can be read back. -/
structure Cleans (lib : RepoLibrary) (s : RepoStore) (c : CreateCall) (key : String) : Prop where
  count : (c.conflicts lib s key).length < 200
  keys : ∀ conflict ∈ c.conflicts lib s key, conflict ≠ "" ∧ lib.recordKeyIsValid conflict = true
  batch : ∀ value, lib.parseJson (c.text lib) = some value → (lib.parseJson (lib.printJson
    (cleanupWrites c.collection key value (c.conflicts lib s key)))).isSome = true
  results : ∀ value applied, lib.parseJson (c.text lib) = some value →
    (applyWritesLocked lib s (lib.printJson
      (cleanupWrites c.collection key value (c.conflicts lib s key))) none c.o).returned =
        .ok applied → (lib.parseJson applied.results).isSome = true

/-- The condition on a call: nothing fails, the `records` table will tell the subject of the
new record, and the conflicts can be cleaned up. -/
structure Orderly (lib : RepoLibrary) (s : RepoStore) (c : CreateCall) : Prop where
  nothingFails : c.o.NothingFails
  search : c.o.conflictsFailAfter = none
  minted : ∀ tid, c.o.tids 0 = some tid → tid ≠ "" ∧ lib.recordKeyIsValid tid = true
  tells : ∀ cbor, encodeRecordJson lib (c.text lib) = .ok cbor →
    TellsSubject lib c.collection (c.text lib) cbor ∧
      c.target lib = (backlinkPathForCollection c.collection).bind fun path =>
        (blockText lib cbor).bind (backlinkTarget lib · path)
  cleans : ∀ key, c.check lib s = .ok key → c.conflicts lib s key ≠ [] → Cleans lib s c key

/-- A record that the repository library makes a commit of is also taken by a batch that first
deletes some of the other records. -/
def BuildsCleanups (lib : RepoLibrary) : Prop :=
  ∀ clock car head collection rkey cbor text conflicts built,
    lib.repoCreateRecord clock car head collection rkey cbor = .ok built → conflicts.Nodup →
    (∀ conflict ∈ conflicts, (recordCid lib car head collection conflict).isSome = true) →
    ∃ built', lib.repoApplyWrites clock car head
      (cleanupBatch collection rkey cbor text conflicts) = .ok built'

/-! ## The conflicts -/

/-- The last element takes the place of another, and goes. -/
theorem perm_set_dropLast {α : Type} (l : List α) (d : α) {i : Nat} (hi : i < l.length) :
    ((l.set i (l.getLastD d)).dropLast).Perm (l.eraseIdx i) := by
  rcases List.eq_nil_or_concat l with rfl | ⟨front, last, rfl⟩
  · cases hi
  · rw [List.concat_eq_append, List.getLastD_concat]
    rw [List.concat_eq_append, List.length_append, List.length_singleton] at hi
    by_cases hlast : i < front.length
    · rw [List.set_append_left _ _ hlast, List.dropLast_concat,
        List.eraseIdx_append_of_lt_length hlast]
      exact (List.set_perm_cons_eraseIdx hlast last).trans
        (List.perm_append_singleton last _).symm
    · obtain rfl : i = front.length := by omega
      rw [List.set_append_right _ _ le_rfl, List.eraseIdx_append_of_length_le le_rfl]
      simp

/-- The conflicts less the new key. -/
theorem dropConflict_perm (rkey : String) (conflicts : List String) :
    (dropConflict rkey conflicts).Perm (conflicts.erase rkey) := by
  rw [List.erase_eq_eraseP', List.eraseP_eq_eraseIdx, dropConflict]
  cases hfind : conflicts.findIdx? (· == rkey) with
  | none => exact .refl _
  | some i => exact perm_set_dropLast conflicts "" (List.findIdx?_eq_some_iff_getElem.mp hfind).1

section Conflicts

variable {lib : RepoLibrary} {s : RepoStore} {c : CreateCall} {key : String}

/-- The conflicts of a call are the rows of its collection with its subject, less the new key. -/
theorem conflicts_spec (hs : IndexMirrors lib s) (hsearch : c.o.conflictsFailAfter = none) :
    (c.conflicts lib s key).Nodup ∧
      ∀ rkey, rkey ∈ c.conflicts lib s key ↔ rkey ≠ key ∧ ∃ path target row,
        backlinkPathForCollection c.collection = some path ∧
        backlinkTarget lib (c.text lib) path = some target ∧ row ∈ s.db.view.records ∧
        row.collection = c.collection ∧ row.rkey = rkey ∧
        lib.jsonExtract row.value path = some target := by
  rw [CreateCall.conflicts, backlinkConflicts]
  cases hpath : backlinkPathForCollection c.collection with
  | none => simp
  | some path =>
    dsimp only
    cases htarget : backlinkTarget lib (c.text lib) path with
    | none => simp [htarget]
    | some target =>
      dsimp only
      let rows := s.db.view.records.filter fun r =>
        r.collection = c.collection ∧ lib.jsonExtract r.value path = some target
      have hfound : findBacklinkConflicts lib s c.collection path target c.o.conflictsFailAfter =
          rows.map RecordRow.rkey := by
        rw [hsearch]
        rfl
      have hnodup : (rows.map RecordRow.rkey).Nodup := by
        rw [List.nodup_map_iff_inj_on (hs.nodup.of_map.filter _)]
        intro row hrow row' hrow' heq
        obtain ⟨hmem, hcond⟩ := List.mem_filter.mp hrow
        obtain ⟨hmem', hcond'⟩ := List.mem_filter.mp hrow'
        simp only [decide_eq_true_eq] at hcond hcond'
        exact List.inj_on_of_nodup_map hs.nodup hmem hmem'
          (by rw [hcond.1, hcond'.1, heq])
      have hperm := dropConflict_perm key (rows.map RecordRow.rkey)
      rw [hfound]
      refine ⟨hperm.nodup_iff.mpr (hnodup.erase key), fun rkey => ?_⟩
      rw [hperm.mem_iff, hnodup.mem_erase_iff]
      constructor
      · rintro ⟨hne, hmem⟩
        obtain ⟨row, hrow, rfl⟩ := List.mem_map.mp hmem
        obtain ⟨hrow, hcond⟩ := List.mem_filter.mp hrow
        rw [decide_eq_true_eq] at hcond
        exact ⟨hne, path, target, row, rfl, htarget, hrow, hcond.1, rfl, hcond.2⟩
      · rintro ⟨hne, path', target', row, hpath', htarget', hrow, hcollection, rfl, hextract⟩
        cases hpath'
        obtain rfl : target = target' := Option.some.inj (htarget.symm.trans htarget')
        exact ⟨hne, List.mem_map_of_mem
          (List.mem_filter.mpr ⟨hrow, decide_eq_true ⟨hcollection, hextract⟩⟩)⟩

end Conflicts

/-! ## What a create leaves -/

/-- The tree with a new record, and without those of the conflicts. -/
def createdTree (t : Map (String × String) Cid) (collection rkey : String) (cid : Cid)
    (conflicts : List String) : Map (String × String) Cid :=
  fun k => if k = (collection, rkey) then some cid
    else if k.1 = collection ∧ k.2 ∈ conflicts then none else t k

/-- What a create that succeeds leaves of the tree and of the `records` table. -/
structure LandsCreated (lib : RepoLibrary) (s s' : RepoStore) (collection rkey text : String)
    (conflicts : List String) (cid : Cid) : Prop where
  canBegin : s'.db.canBegin = true
  content : encodeRecordJson lib text = .ok (lib.content cid)
  free : recordTree lib s.car s.head (collection, rkey) = none
  tree : recordTree lib s'.car s'.head =
    createdTree (recordTree lib s.car s.head) collection rkey cid conflicts
  records : ∃ rev, s'.db.view.records =
    (s.db.view.records.filter fun row =>
      ¬ (row.collection = collection ∧ (row.rkey = rkey ∨ row.rkey ∈ conflicts))) ++
    [⟨collection, rkey, cid, text, rev⟩]

section Landing

variable {lib : RepoLibrary} {s : RepoStore} {collection rkey text : String} {cbor : List UInt8}
  {conflicts : List String}

/-- The deletes of a cleanup and the CIDs beside them. -/
abbrev cleanupDeletes (collection : String) (conflicts : List String) : List RepoWrite :=
  conflicts.map fun conflict => ⟨.delete, collection, conflict, [], ""⟩

/-- The batch of a cleanup turns the tree into the created one. -/
theorem tree_of_cleanup (htree : WritesTree lib) {clock : Nat} {built : RepoCommit}
    (hbuilt : lib.repoApplyWrites clock s.car s.head
      (cleanupBatch collection rkey cbor text conflicts) = .ok built)
    (hkey : rkey ∉ conflicts) :
    ∃ rest cid, built.records = rest ++ [cid] ∧ rest.length = conflicts.length ∧
      lib.content cid = cbor ∧ recordTree lib s.car s.head (collection, rkey) = none ∧
      recordTree lib (s.car ++ built.blocks) built.commit =
        createdTree (recordTree lib s.car s.head) collection rkey cid conflicts := by
  obtain ⟨hlength, hcontent, hfit, htree⟩ := htree.apply _ _ _ _ _ hbuilt
  rcases List.eq_nil_or_concat built.records with hnil | ⟨rest, cid, hrecords⟩
  · simp [hnil, cleanupBatch] at hlength
  · rw [List.concat_eq_append] at hrecords
    have hrest : rest.length = conflicts.length := by
      rw [hrecords] at hlength
      simpa [cleanupBatch] using hlength
    have hzip : (cleanupBatch collection rkey cbor text conflicts).zip built.records =
        (cleanupDeletes collection conflicts).zip rest ++
          [(⟨.create, collection, rkey, cbor, text⟩, cid)] := by
      rw [hrecords, cleanupBatch, List.zip_append (by simpa using hrest.symm)]
      rfl
    -- the deletes free the keys of the conflicts
    have hnone : ∀ w ∈ ((cleanupDeletes collection conflicts).zip rest).map treeWrite,
        w.value = none := by
      intro w hw
      obtain ⟨⟨write, record⟩, hmem, rfl⟩ := List.mem_map.mp hw
      obtain ⟨conflict, -, rfl⟩ := List.mem_map.mp (List.of_mem_zip hmem).1
      rfl
    have hnamed : ∀ k : String × String,
        (∃ w ∈ ((cleanupDeletes collection conflicts).zip rest).map treeWrite, w.key = k) ↔
          k.1 = collection ∧ k.2 ∈ conflicts := by
      intro k
      constructor
      · rintro ⟨w, hw, rfl⟩
        obtain ⟨⟨write, record⟩, hmem, rfl⟩ := List.mem_map.mp hw
        obtain ⟨conflict, hconflict, rfl⟩ := List.mem_map.mp (List.of_mem_zip hmem).1
        exact ⟨rfl, hconflict⟩
      · rintro ⟨hcollection, hmem⟩
        have hfst : ((cleanupDeletes collection conflicts).zip rest).map Prod.fst =
            cleanupDeletes collection conflicts := List.map_fst_zip (by simp [hrest])
        have hdelete : (⟨.delete, collection, k.2, [], ""⟩ : RepoWrite) ∈
            ((cleanupDeletes collection conflicts).zip rest).map Prod.fst := by
          rw [hfst]
          exact List.mem_map_of_mem hmem
        obtain ⟨w, hw, heq⟩ := List.mem_map.mp hdelete
        refine ⟨treeWrite w, List.mem_map_of_mem hw, ?_⟩
        rw [treeWrite, heq]
        exact Prod.ext hcollection.symm rfl
    have hdeleted : applyAll (((cleanupDeletes collection conflicts).zip rest).map treeWrite)
        (recordTree lib s.car s.head) = fun k => if k.1 = collection ∧ k.2 ∈ conflicts then none
          else recordTree lib s.car s.head k := by
      funext k
      rw [applyAll_of_removals hnone]
      simp only [hnamed]
    rw [hzip, List.map_append] at hfit htree
    refine ⟨rest, cid, hrecords, hrest, ?_, ?_, ?_⟩
    · refine hcontent (⟨.create, collection, rkey, cbor, text⟩, cid) ?_ (by simp)
      rw [hzip]
      exact List.mem_append_right _ List.mem_cons_self
    · have hfree := ((fitAll_append _).mp hfit).2.1
      rw [hdeleted] at hfree
      simpa [Write.Fits, treeWrite, hkey] using hfree
    · rw [htree, applyAll_append, hdeleted]
      funext k
      rw [createdTree, List.map_cons, List.map_nil, applyAll_cons, applyAll_nil]
      by_cases hk : k = (collection, rkey)
      · rw [if_pos hk, hk]
        exact apply_key
      · rw [if_neg hk]
        exact apply_of_ne hk

/-- The statements of a cleanup turn the `records` table into that of the created tree. -/
theorem records_of_cleanup (lib : RepoLibrary) {indexes : Nat → Bool}
    (hindexes : ∀ i, indexes i = true) (collection rkey text : String) (cbor : List UInt8)
    {conflicts : List String} {rest : List Cid} (hrest : rest.length = conflicts.length)
    (cid : Cid) (i : Nat) (s : RepoStore) :
    (∃ rev, (indexWrites lib indexes i ((cleanupBatch collection rkey cbor text conflicts).zip
        (rest ++ [cid])) s).db.view.records =
      (s.db.view.records.filter fun row =>
        ¬ (row.collection = collection ∧ (row.rkey = rkey ∨ row.rkey ∈ conflicts))) ++
      [⟨collection, rkey, cid, text, rev⟩]) ∧
    (indexWrites lib indexes i ((cleanupBatch collection rkey cbor text conflicts).zip
      (rest ++ [cid])) s).db.canBegin = s.db.canBegin := by
  induction conflicts generalizing rest i s with
  | nil =>
    obtain rfl := List.length_eq_zero_iff.mp hrest
    simp only [cleanupBatch, List.map_nil, List.nil_append, List.zip_cons_cons, List.zip_nil_right,
      indexWrites, reduceCtorEq, if_false, indexUpsertRecord, hindexes, if_true, Db.view_write,
      Db.canBegin_write, and_true, List.not_mem_nil, or_false]
    exact ⟨_, rfl⟩
  | cons conflict conflicts ih =>
    cases rest with
    | nil => cases hrest
    | cons record rest =>
      have hlength : rest.length = conflicts.length := by simpa using hrest
      obtain ⟨⟨rev, hrecords⟩, hbegin⟩ := ih hlength (i + 1)
        (indexDeleteRecord s collection conflict true)
      simp only [cleanupBatch, List.map_cons, List.cons_append, List.zip_cons_cons, indexWrites,
        if_true, hindexes] at hrecords hbegin ⊢
      refine ⟨⟨rev, ?_⟩, ?_⟩
      · rw [hrecords, indexDeleteRecord, if_pos rfl, Db.view_write, Tables.deleteRecord,
          List.filter_filter]
        congr 2
        funext row
        simp only [List.mem_cons, decide_not, ← Bool.not_or, ← Bool.decide_or]
        congr 2
        apply propext
        tauto
      · rw [hbegin, indexDeleteRecord, if_pos rfl, Db.canBegin_write]

end Landing

/-! ## How a create ends -/

section Ends

variable {lib : RepoLibrary} {s : RepoStore} {c : CreateCall} {o : WriteOutcomes}
  {collection rkey text : String} {built : RepoCommit}

variable (lib) in
/-- `commit_persist` with nothing failing, seen from the tree and the `records` table. -/
theorem commitPersist_stored (ho : o.NothingFails) (hbegin : s.db.canBegin = true)
    (built : RepoCommit) :
    ∃ s', commitPersist lib.toBlockLibrary { s with car := s.car ++ built.blocks } built.commit
        o.persist = (s', none) ∧
      Stored s built s' ∧ s'.db.canBegin = true ∧ s'.db.view.records = s.db.view.records := by
  obtain ⟨s', hpersist, hhead, hcar, hdb⟩ := commitPersist_nothingFails lib ho
    (s := { s with car := s.car ++ built.blocks }) hbegin built.commit
  have hrecords := records_persistedTables lib hbegin (s.car ++ built.blocks) built.commit
  have hdid := (commitPersist_frame lib.toBlockLibrary { s with car := s.car ++ built.blocks }
    built.commit o.persist).2.2.2
  rw [hpersist] at hdid
  refine ⟨s', hpersist, ⟨hhead, hcar, hdid⟩, ?_, ?_⟩
  · rw [hdb, Db.canBegin_fresh]
  · rw [hdb, Db.view_fresh, hrecords]

/-- A create without conflicts, once its commit is made. -/
theorem landRecord_created (htree : WritesTree lib) (ho : o.NothingFails)
    (hbegin : s.db.canBegin = true) {cbor : List UInt8}
    (hcbor : encodeRecordJson lib text = .ok cbor)
    (hbuilt : lib.repoCreateRecord o.clock s.car s.head collection rkey cbor = .ok built) :
    (landRecord lib s collection rkey text built .create none o).status = .ok ∧
      ∃ cid, LandsCreated lib s (landRecord lib s collection rkey text built .create none o).store
        collection rkey text [] cid := by
  obtain ⟨cid, hrecords, hcontent, hfree, htree'⟩ := htree.create _ _ _ _ _ _ _ hbuilt
  obtain ⟨s', hpersist, hstored, hbegin', hrows⟩ := commitPersist_stored lib ho hbegin built
  have hland : landRecord lib s collection rkey text built .create none o =
      ⟨indexUpsertRecord lib s' collection rkey cid text true,
        .ok (makeUri s.did collection rkey, cid),
        (landRecord lib s collection rkey text built .create none o).event⟩ := by
    simp only [landRecord, hpersist, ho.allocates, ho.indexes, hrecords, List.headD_cons,
      Bool.true_eq_false, if_false]
  rw [hland]
  refine ⟨rfl, cid, ?_, by rw [hcontent, hcbor], hfree, ?_, ?_⟩
  · rw [indexUpsertRecord, if_pos rfl, Db.canBegin_write, hbegin']
  · have hsame : recordTree lib (indexUpsertRecord lib s' collection rkey cid text true).car
        (indexUpsertRecord lib s' collection rkey cid text true).head =
          recordTree lib (s.car ++ built.blocks) built.commit := hstored.tree
    rw [hsame, htree']
    funext k
    by_cases hk : k = (collection, rkey)
    · simp [createdTree, hk]
    · simp [createdTree, hk]
  · refine ⟨((parseCommitAt lib.toBlockLibrary s' s'.head).map Commit.rev).filter (· ≠ ""), ?_⟩
    rw [indexUpsertRecord, if_pos rfl, Db.view_write, Tables.upsertRecord, Tables.deleteRecord,
      hrows]
    simp only [List.not_mem_nil, or_false]

/-- A create whose conflicts can be cleaned up, once its batch is planned. -/
theorem cleanup_created {number : Double → Json} (hprint : PrintsBack lib number)
    (htree : WritesTree lib) (ho : o.NothingFails) (hbegin : s.db.canBegin = true)
    {conflicts : List String} (hkey : rkey ∉ conflicts) {value : Json} {cbor : List UInt8}
    (hvalue : lib.parseJson text = some value) (hcbor : encodeRecordJson lib text = .ok cbor)
    (hplan : planApplyWrites lib s (lib.printJson (cleanupWrites collection rkey value conflicts))
      none o = .ok (cleanupBatch collection rkey cbor text conflicts, built))
    (hresults : ∀ applied, (applyWritesLocked lib s (lib.printJson
      (cleanupWrites collection rkey value conflicts)) none o).returned = .ok applied →
      (lib.parseJson applied.results).isSome = true) :
    (createRecordWithBacklinkCleanup lib s collection rkey text conflicts o).status = .ok ∧
      ∃ cid, LandsCreated lib s
        (createRecordWithBacklinkCleanup lib s collection rkey text conflicts o).store
        collection rkey text conflicts cid := by
  have hbuilt : lib.repoApplyWrites o.clock s.car s.head
      (cleanupBatch collection rkey cbor text conflicts) = .ok built := by
    rw [cleanupWrites_eq] at hplan
    exact (planApplyWrites_printed hprint hplan).2.2
  obtain ⟨rest, cid, hrecords, hrest, hcontent, hfree, htree'⟩ :=
    tree_of_cleanup htree hbuilt hkey
  obtain ⟨s', hpersist, hstored, hbegin', hrows⟩ := commitPersist_stored lib ho hbegin built
  obtain ⟨⟨rev, hindexed⟩, hindexBegin⟩ := records_of_cleanup lib ho.indexes collection rkey text
    cbor hrest cid 0 s'
  obtain ⟨hhead, hcar, -⟩ := indexWrites_frame lib o.indexes 0
    ((cleanupBatch collection rkey cbor text conflicts).zip (rest ++ [cid])) s'
  -- the batch
  obtain ⟨rev', happlied⟩ : ∃ rev', applyWritesLocked lib s (lib.printJson
      (cleanupWrites collection rkey value conflicts)) none o =
        ⟨indexWrites lib o.indexes 0
          ((cleanupBatch collection rkey cbor text conflicts).zip (rest ++ [cid])) s',
          .ok ⟨built.commit, rev', lib.printJson (.array
            (((cleanupBatch collection rkey cbor text conflicts).zip (rest ++ [cid])).map fun w =>
              writeResultJson s.did w.1 w.2))⟩,
          (applyWritesLocked lib s (lib.printJson
            (cleanupWrites collection rkey value conflicts)) none o).event⟩ := by
    refine ⟨(parseCommitAt lib.toBlockLibrary (indexWrites lib o.indexes 0
      ((cleanupBatch collection rkey cbor text conflicts).zip (rest ++ [cid])) s')
        built.commit).map Commit.rev, ?_⟩
    simp only [applyWritesLocked, hplan, hpersist, ho.allocates, Bool.true_eq_false, if_false,
      hrecords, hhead, hstored.head]
  have hlast := lastResult_cleanup hprint hrest cid
    (hresults _ (congrArg WriteResult.returned happlied))
  have hcleanup : createRecordWithBacklinkCleanup lib s collection rkey text conflicts o =
      ⟨indexWrites lib o.indexes 0
        ((cleanupBatch collection rkey cbor text conflicts).zip (rest ++ [cid])) s',
        .ok (makeUri s.did collection rkey, cid),
        (applyWritesLocked lib s (lib.printJson
          (cleanupWrites collection rkey value conflicts)) none o).event⟩ := by
    unfold createRecordWithBacklinkCleanup
    rw [hvalue]
    dsimp only
    rw [happlied]
    dsimp only
    rw [hlast, ho.allocates]
    rfl
  rw [hcleanup]
  refine ⟨rfl, cid, hindexBegin.trans hbegin', by rw [hcontent, hcbor], hfree, ?_, rev, ?_⟩
  · dsimp only
    rw [hhead, hcar, hstored.tree, htree']
  · dsimp only
    rw [hindexed, hrows]

end Ends

section Cases

variable {lib : RepoLibrary} {number : Double → Json} {s : RepoStore} {c : CreateCall}
  {key : String}

/-- The key that the checks give is valid, and they have looked at the collection. -/
theorem check_ok (hc : Orderly lib s c) (h : c.check lib s = .ok key) :
    c.collection ≠ "" ∧ key ≠ "" ∧ lib.recordKeyIsValid key = true ∧
      recordTypeMatches lib (c.text lib) c.collection = true := by
  obtain ⟨hcollection, hkey, hmatches, -⟩ := checkCreate_ok_iff.mp h
  refine ⟨hcollection, ?_, ?_, hmatches⟩ <;> rw [createKey] at hkey
  · split at hkey
    · next given hgiven =>
      split at hkey
      · cases hkey
        simpa using (Option.filter_eq_some_iff.mp hgiven).2
      · cases hkey
    · exact (hc.minted key hkey).1
  · split at hkey
    · split at hkey
      · next hvalid =>
        cases hkey
        exact hvalid
      · cases hkey
    · exact (hc.minted key hkey).2

theorem planCreate_ok {lib : RepoLibrary} {s : RepoStore} {collection rkey text : String}
    {o : WriteOutcomes} {built : RepoCommit}
    (h : planCreate lib s collection rkey text o = .ok built) :
    ∃ cbor, encodeRecordJson lib text = .ok cbor ∧
      lib.repoCreateRecord o.clock s.car s.head collection rkey cbor = .ok built := by
  unfold planCreate at h
  obtain ⟨cbor, hcbor, h⟩ := except_bind_ok h
  exact ⟨cbor, hcbor, h⟩

/-- The batch of a cleanup is planned if the record is valid by itself. -/
theorem planApplyWrites_of_valid (hprint : PrintsBack lib number) (hbuilds : BuildsCleanups lib)
    (hs : IndexMirrors lib s) (hc : Orderly lib s c) (hcheck : c.check lib s = .ok key)
    (hclean : Cleans lib s c key) {built : RepoCommit}
    (hplan : planCreate lib s c.collection key (c.text lib) c.o = .ok built) {value : Json}
    (hvalue : lib.parseJson (c.text lib) = some value) :
    ∃ planned, planApplyWrites lib s (lib.printJson
      (cleanupWrites c.collection key value (c.conflicts lib s key))) none c.o = .ok planned := by
  obtain ⟨hcollection, hkey, hvalid, hmatches⟩ := check_ok hc hcheck
  obtain ⟨cbor, hcbor, hbuilt⟩ := planCreate_ok hplan
  obtain ⟨hnodup, hmem⟩ := @conflicts_spec _ _ _ key hs hc.search
  have htext : lib.printJson value = c.text lib := by
    rw [hprint.reads _ _ hvalue, hprint.reprints]
    rfl
  have hstored : ∀ conflict ∈ c.conflicts lib s key,
      (recordCid lib s.car s.head c.collection conflict).isSome = true := by
    intro conflict hconflict
    obtain ⟨-, _, _, row, -, -, hrow, hrowCollection, hrowKey, -⟩ := (hmem conflict).mp hconflict
    rw [(hs.row_iff c.collection conflict row.cid).mpr ⟨row, hrow, hrowCollection, hrowKey, rfl⟩]
    rfl
  obtain ⟨built', hbuilt'⟩ := hbuilds _ _ _ _ _ _ (c.text lib) _ _ hbuilt hnodup hstored
  have hstaged : stageWrites lib c.o.tids 0
      (cleanupElements c.collection key value (c.conflicts lib s key)) =
      .ok (cleanupBatch c.collection key cbor (lib.printJson value) (c.conflicts lib s key)) :=
    (stageWrites_cleanup_iff hcollection hkey c.o.tids 0 _).mpr
    ⟨hclean.keys, hvalid, by rw [htext, hmatches], cbor, by rw [htext, hcbor], rfl⟩
  rw [htext] at hstaged
  refine ⟨_, planApplyWrites_of_staged hprint (hclean.batch value hvalue) ?_ hstaged hbuilt'⟩
  have hcount := hclean.count
  simp only [List.length_append, List.length_map, List.length_singleton]
  omega

/-- A create without conflicts is planned and landed as it is. -/
theorem run_of_not_conflicts {key : String} (hcheck : c.check lib s = .ok key)
    (hconflicts : c.conflicts lib s key = []) :
    (∀ error, planCreate lib s c.collection key (c.text lib) c.o = .error error →
      c.run lib s = .failed s error) ∧
    ∀ commit, planCreate lib s c.collection key (c.text lib) c.o = .ok commit →
      c.run lib s = landRecord lib s c.collection key (c.text lib) commit .create none c.o := by
  rw [CreateCall.check] at hcheck
  rw [CreateCall.conflicts] at hconflicts
  rw [CreateCall.run, createRecordLocked, hcheck]
  dsimp only
  rw [hconflicts, if_neg (not_not.mpr rfl)]
  refine ⟨fun error hplan => ?_, fun commit hplan => ?_⟩
  all_goals rw [hplan]

/-- A create with conflicts deletes them in the same commit. -/
theorem run_of_conflicts {key : String} (hcheck : c.check lib s = .ok key)
    (hconflicts : c.conflicts lib s key ≠ []) :
    c.run lib s = createRecordWithBacklinkCleanup lib s c.collection key (c.text lib)
      (c.conflicts lib s key) c.o := by
  rw [CreateCall.check] at hcheck
  rw [CreateCall.run, createRecordLocked, hcheck]
  exact if_pos hconflicts

/-- A create either lands, or leaves the store as it was because its record is not valid by
itself. -/
theorem run_cases (hprint : PrintsBack lib number) (htree : WritesTree lib)
    (hbuilds : BuildsCleanups lib) (hs : IndexMirrors lib s) (hc : Orderly lib s c) :
    (∃ key cid, (c.run lib s).status = .ok ∧ LandsCreated lib s (c.step lib s) c.collection key
        (c.text lib) (c.conflicts lib s key) cid) ∨
      ((c.run lib s).status ≠ .ok ∧ c.step lib s = s ∧ ¬ c.ValidAlone lib s) := by
  have hfailed : ∀ error, c.run lib s = .failed s error → ¬ c.ValidAlone lib s →
      (c.run lib s).status ≠ .ok ∧ c.step lib s = s ∧ ¬ c.ValidAlone lib s := by
    intro error hrun hvalid
    refine ⟨?_, ?_, hvalid⟩
    · rw [hrun]
      exact status_failed s error
    · rw [CreateCall.step, hrun]
      rfl
  cases hcheck : c.check lib s with
  | error error =>
    refine Or.inr (hfailed error ?_ ?_)
    · rw [CreateCall.check] at hcheck
      rw [CreateCall.run, createRecordLocked, hcheck]
    · rintro ⟨key, built, hcheck', -⟩
      rw [hcheck] at hcheck'
      cases hcheck'
  | ok key =>
    have hkeyOf : ∀ key', c.check lib s = .ok key' → key = key' :=
      fun key' hcheck' => Except.ok.inj (hcheck.symm.trans hcheck')
    by_cases hconflicts : c.conflicts lib s key = []
    · obtain ⟨hrefused, hlanded⟩ := run_of_not_conflicts hcheck hconflicts
      cases hplan : planCreate lib s c.collection key (c.text lib) c.o with
      | error error =>
        refine Or.inr (hfailed error (hrefused error hplan) ?_)
        rintro ⟨key', built, hcheck', hplan'⟩
        obtain rfl := hkeyOf key' hcheck'
        rw [hplan] at hplan'
        cases hplan'
      | ok built =>
        have hrun := hlanded built hplan
        obtain ⟨cbor, hcbor, hbuilt⟩ := planCreate_ok hplan
        obtain ⟨hstatus, cid, hlands⟩ := landRecord_created htree hc.nothingFails hs.canBegin
          hcbor hbuilt
        refine Or.inl ⟨key, cid, ?_, ?_⟩
        · rw [hrun]
          exact hstatus
        · rw [CreateCall.step, hrun, hconflicts]
          exact hlands
    · have hrun := run_of_conflicts hcheck hconflicts
      have hclean := hc.cleans key hcheck hconflicts
      cases hvalue : lib.parseJson (c.text lib) with
      | none =>
        refine Or.inr (hfailed .alloc ?_ ?_)
        · unfold createRecordWithBacklinkCleanup at hrun
          rw [hvalue] at hrun
          exact hrun
        · rintro ⟨key', built, -, hplan⟩
          obtain ⟨cbor, hcbor, -⟩ := planCreate_ok hplan
          unfold encodeRecordJson at hcbor
          rw [hvalue] at hcbor
          cases hcbor
      | some value =>
        cases hplan : planApplyWrites lib s (lib.printJson
            (cleanupWrites c.collection key value (c.conflicts lib s key))) none c.o with
        | error error =>
          refine Or.inr (hfailed error ?_ ?_)
          · unfold createRecordWithBacklinkCleanup at hrun
            rw [hvalue] at hrun
            dsimp only at hrun
            rw [applyWritesLocked_error hplan] at hrun
            exact hrun
          · rintro ⟨key', built, hcheck', hplan'⟩
            obtain rfl := hkeyOf key' hcheck'
            obtain ⟨planned, hplanned⟩ := planApplyWrites_of_valid hprint hbuilds hs hc hcheck
              hclean hplan' hvalue
            rw [hplan] at hplanned
            cases hplanned
        | ok planned =>
          obtain ⟨writes, built⟩ := planned
          obtain ⟨hcollection, hkey, -, -⟩ := check_ok hc hcheck
          have htext : lib.printJson value = c.text lib := by
            rw [hprint.reads _ _ hvalue, hprint.reprints]
            rfl
          have hplan' := hplan
          rw [cleanupWrites_eq] at hplan'
          obtain ⟨-, hstaged, -⟩ := planApplyWrites_printed hprint hplan'
          obtain ⟨-, -, -, cbor, hcbor, rfl⟩ :=
            (stageWrites_cleanup_iff hcollection hkey _ _ _).mp hstaged
          rw [htext] at hcbor hplan
          have hnot : key ∉ c.conflicts lib s key := fun hmem =>
            (((conflicts_spec hs hc.search).2 key).mp hmem).1 rfl
          obtain ⟨hstatus, cid, hlands⟩ := cleanup_created hprint htree hc.nothingFails hs.canBegin
            hnot hvalue hcbor hplan (hclean.results value · hvalue)
          refine Or.inl ⟨key, cid, ?_, ?_⟩
          · rw [hrun]
            exact hstatus
          · rw [CreateCall.step, hrun]
            exact hlands

end Cases

/-! ## Backlinks after a create -/

section Backlinks

variable {lib : RepoLibrary} {s s' : RepoStore} {c : CreateCall} {key : String} {cid : Cid}

theorem storeGetRecord_ok_iff (lib : RepoLibrary) (s : RepoStore) (collection rkey text : String)
    (cid : Cid) :
    storeGetRecord lib s collection rkey = .ok (text, cid) ↔
      ¬ (collection = "" ∨ rkey = "") ∧ recordCid lib s.car s.head collection rkey = some cid ∧
        blockText lib (lib.content cid) = some text := by
  rw [storeGetRecord, recordCid_eq]
  by_cases hempty : collection = "" ∨ rkey = ""
  · simp [hempty]
  · rw [if_neg hempty]
    cases getRecordCbor lib s collection rkey with
    | error error => simp [Except.toOption]
    | ok found =>
      simp only [blockText, Except.toOption, Option.some.injEq, hempty, not_false_eq_true, true_and]
      cases htext : (lib.cborParse (lib.content found)).bind (cborToJson lib.toCborText) with
      | none =>
        refine iff_of_false (by simp) ?_
        rintro ⟨rfl, h⟩
        rw [htext] at h
        cases h
      | some j =>
        simp only [Except.ok.injEq, Prod.mk.injEq]
        constructor
        · rintro ⟨rfl, rfl⟩
          exact ⟨rfl, by rw [htext, Option.map_some]⟩
        · rintro ⟨rfl, h⟩
          rw [htext, Option.map_some, Option.some.injEq] at h
          exact ⟨h, rfl⟩

/-- A backlink, seen from the tree. -/
theorem backlink_iff (lib : RepoLibrary) (s : RepoStore) (collection rkey target : String) :
    Backlink lib s collection rkey target ↔
      ¬ (collection = "" ∨ rkey = "") ∧ ∃ path cid,
        backlinkPathForCollection collection = some path ∧
        recordTree lib s.car s.head (collection, rkey) = some cid ∧
        (blockText lib (lib.content cid)).bind (backlinkTarget lib · path) = some target := by
  constructor
  · rintro ⟨path, text, cid, hpath, hget, htarget⟩
    obtain ⟨hne, hcid, htext⟩ := (storeGetRecord_ok_iff ..).mp hget
    exact ⟨hne, path, cid, hpath, hcid, by rw [htext, Option.bind_some, htarget]⟩
  · rintro ⟨hne, path, cid, hpath, hcid, hbind⟩
    obtain ⟨text, htext, htarget⟩ := Option.bind_eq_some_iff.mp hbind
    exact ⟨path, text, cid, hpath, (storeGetRecord_ok_iff ..).mpr ⟨hne, hcid, htext⟩, htarget⟩

theorem backlinkTarget_ne {text path target : String}
    (h : backlinkTarget lib text path = some target) : target ≠ "" := by
  unfold backlinkTarget at h
  obtain ⟨root, -, h⟩ := Option.bind_eq_some_iff.mp h
  rintro rfl
  split at h <;>
  · obtain ⟨found, -, h⟩ := Option.bind_eq_some_iff.mp h
    dsimp only at h
    split at h
    · cases h
    · next hne => exact hne (Option.some.inj h)

theorem target_of_path {path target : String}
    (hpath : backlinkPathForCollection c.collection = some path) :
    c.target lib = some target ↔ backlinkTarget lib (c.text lib) path = some target := by
  rw [CreateCall.target, hpath, Option.bind_some]

/-- A record of the collection with the subject of the new one, under another key, is a
conflict. -/
theorem mem_conflicts_of_backlink (hs : IndexMirrors lib s) (hc : Orderly lib s c)
    {rkey target : String} (htarget : c.target lib = some target)
    (hlink : Backlink lib s c.collection rkey target) (hne : rkey ≠ key) :
    rkey ∈ c.conflicts lib s key := by
  obtain ⟨-, path, cid, hpath, hcid, hbind⟩ := (backlink_iff ..).mp hlink
  obtain ⟨row, hrow, hcollection, hkey, hrowCid⟩ := (hs.row_iff _ _ _).mp hcid
  have htext := (target_of_path hpath).mp htarget
  refine ((conflicts_spec hs hc.search).2 rkey).mpr
    ⟨hne, path, target, row, hpath, htext, hrow, hcollection, hkey, ?_⟩
  refine (hs.tells row hrow path (hcollection ▸ hpath) target (backlinkTarget_ne htext)).mpr ?_
  rw [hrowCid, hbind]

/-- A conflict is a record of the collection with the subject of the new one. -/
theorem backlink_of_mem_conflicts (hs : IndexMirrors lib s) (hc : Orderly lib s c)
    {rkey : String} (hne : ¬ (c.collection = "" ∨ rkey = ""))
    (hmem : rkey ∈ c.conflicts lib s key) :
    ∃ target, c.target lib = some target ∧ Backlink lib s c.collection rkey target := by
  obtain ⟨-, path, target, row, hpath, htext, hrow, hcollection, rfl, hextract⟩ :=
    ((conflicts_spec hs hc.search).2 rkey).mp hmem
  refine ⟨target, (target_of_path hpath).mpr htext, (backlink_iff ..).mpr
    ⟨hne, path, row.cid, hpath, ?_, ?_⟩⟩
  · exact (hs.row_iff _ _ _).mpr ⟨row, hrow, hcollection, rfl, rfl⟩
  · exact (hs.tells row hrow path (hcollection ▸ hpath) target (backlinkTarget_ne htext)).mp
      hextract

/-- After a create the `records` table mirrors the tree again. -/
theorem LandsCreated.mirrors (h : LandsCreated lib s s' c.collection key (c.text lib)
    (c.conflicts lib s key) cid) (hs : IndexMirrors lib s) (hc : Orderly lib s c) :
    IndexMirrors lib s' := by
  obtain ⟨rev, hrecords⟩ := h.records
  have hmem : ∀ row, row ∈ s'.db.view.records ↔ (row ∈ s.db.view.records ∧
      ¬ (row.collection = c.collection ∧
        (row.rkey = key ∨ row.rkey ∈ c.conflicts lib s key))) ∨
      row = ⟨c.collection, key, cid, c.text lib, rev⟩ := by
    intro row
    rw [hrecords, List.mem_append, List.mem_filter, List.mem_singleton, decide_eq_true_eq]
  refine ⟨h.canBegin, ?_, fun collection rkey found => ?_, fun row hrow => ?_⟩
  · rw [hrecords, List.map_append, List.nodup_append]
    refine ⟨hs.nodup.sublist (List.filter_sublist.map _), List.nodup_singleton _, ?_⟩
    intro k hk k' hk' heq
    obtain ⟨row, hrow, rfl⟩ := List.mem_map.mp hk
    rw [List.map_cons, List.map_nil, List.mem_singleton] at hk'
    have hnot := (List.mem_filter.mp hrow).2
    rw [decide_eq_true_eq] at hnot
    rw [hk', Prod.mk.injEq] at heq
    exact hnot ⟨heq.1, Or.inl heq.2⟩
  · have htree : recordCid lib s'.car s'.head collection rkey =
        createdTree (recordTree lib s.car s.head) c.collection key cid
          (c.conflicts lib s key) (collection, rkey) := by
      rw [← h.tree]
      rfl
    rw [htree, createdTree]
    split
    · next hk =>
      obtain ⟨rfl, rfl⟩ := Prod.mk.injEq .. ▸ hk
      constructor
      · intro heq
        cases heq
        exact ⟨_, (hmem _).mpr (Or.inr rfl), rfl, rfl, rfl⟩
      · rintro ⟨row, hrow, hcollection, hkey, rfl⟩
        rcases (hmem row).mp hrow with ⟨-, hnot⟩ | rfl
        · exact absurd ⟨hcollection, Or.inl hkey⟩ hnot
        · rfl
    · next hk =>
      split
      · next hconflict =>
        refine iff_of_false (by simp) ?_
        rintro ⟨row, hrow, rfl, rfl, -⟩
        rcases (hmem row).mp hrow with ⟨-, hnot⟩ | rfl
        · exact hnot ⟨hconflict.1, Or.inr hconflict.2⟩
        · exact hk rfl
      · next hconflict =>
        have hold : recordTree lib s.car s.head (collection, rkey) = some found ↔ _ :=
          hs.row_iff collection rkey found
        rw [hold]
        constructor
        · rintro ⟨row, hrow, rfl, rfl, hcid⟩
          refine ⟨row, (hmem row).mpr (Or.inl ⟨hrow, ?_⟩), rfl, rfl, hcid⟩
          rintro ⟨hcollection, hkey | hkey⟩
          · exact hk (Prod.ext hcollection hkey)
          · exact hconflict ⟨hcollection, hkey⟩
        · rintro ⟨row, hrow, rfl, rfl, hcid⟩
          rcases (hmem row).mp hrow with ⟨hrow', -⟩ | rfl
          · exact ⟨row, hrow', rfl, rfl, hcid⟩
          · exact absurd rfl hk
  · rcases (hmem row).mp hrow with ⟨hrow', -⟩ | rfl
    · exact hs.tells row hrow'
    · exact (hc.tells _ h.content).1

/-- A backlink that is there after a create is that of the new record, or one that was there
under another key, and whose record is not a conflict. -/
theorem LandsCreated.backlink_cases (h : LandsCreated lib s s' c.collection key (c.text lib)
    (c.conflicts lib s key) cid) (hc : Orderly lib s c) {collection rkey target : String}
    (hlink : Backlink lib s' collection rkey target) :
    (collection = c.collection ∧ rkey = key ∧ c.target lib = some target) ∨
      ((collection, rkey) ≠ (c.collection, key) ∧
        ¬ (collection = c.collection ∧ rkey ∈ c.conflicts lib s key) ∧
        Backlink lib s collection rkey target) := by
  obtain ⟨hne, path, found, hpath, hfound, hbind⟩ := (backlink_iff ..).mp hlink
  rw [h.tree, createdTree] at hfound
  split at hfound
  · next hk =>
    obtain ⟨rfl, rfl⟩ := Prod.mk.injEq .. ▸ hk
    cases hfound
    refine Or.inl ⟨rfl, rfl, ?_⟩
    rw [(hc.tells _ h.content).2, hpath, Option.bind_some, hbind]
  · next hk =>
    split at hfound
    · cases hfound
    · next hconflict =>
      exact Or.inr ⟨hk, hconflict, (backlink_iff ..).mpr ⟨hne, path, found, hpath, hfound, hbind⟩⟩

/-- After a create there is one record with the subject of the new one. -/
theorem LandsCreated.rkey_eq (h : LandsCreated lib s s' c.collection key (c.text lib)
    (c.conflicts lib s key) cid) (hs : IndexMirrors lib s) (hc : Orderly lib s c)
    {rkey target : String} (htarget : c.target lib = some target)
    (hlink : Backlink lib s' c.collection rkey target) : rkey = key := by
  rcases h.backlink_cases hc hlink with ⟨-, rfl, -⟩ | ⟨hk, hconflict, hold⟩
  · rfl
  · have hne : rkey ≠ key := fun heq => hk (by rw [heq])
    exact absurd ⟨rfl, mem_conflicts_of_backlink hs hc htarget hold hne⟩ hconflict

/-- A call that meets the condition has the property, and the table mirrors the tree again. -/
theorem keepsBacklinks_of_orderly {number : Double → Json} (hprint : PrintsBack lib number)
    (htree : WritesTree lib) (hbuilds : BuildsCleanups lib) (hs : IndexMirrors lib s)
    (hc : Orderly lib s c) : KeepsBacklinks lib s c ∧ IndexMirrors lib (c.step lib s) := by
  rcases run_cases hprint htree hbuilds hs hc with ⟨key, cid, hstatus, hlands⟩ |
    ⟨hstatus, hstep, hvalid⟩
  · refine ⟨⟨fun _ target htarget rkey rkey' hlink hlink' => ?_, fun hdedup => ?_,
      fun collection rkey record hget hother => ?_, fun _ => hstatus⟩, hlands.mirrors hs hc⟩
    · exact (hlands.rkey_eq hs hc htarget hlink).trans
        (hlands.rkey_eq hs hc htarget hlink').symm
    · intro collection target rkey rkey' hlink hlink'
      rcases hlands.backlink_cases hc hlink with ⟨rfl, rfl, htarget⟩ | ⟨-, -, hold⟩
      · exact (hlands.rkey_eq hs hc htarget hlink').symm
      · rcases hlands.backlink_cases hc hlink' with ⟨rfl, rfl, htarget⟩ | ⟨-, -, hold'⟩
        · exact hlands.rkey_eq hs hc htarget hlink
        · exact hdedup collection target rkey rkey' hold hold'
    · obtain ⟨text, found⟩ := record
      obtain ⟨hne, hfound, htext⟩ := (storeGetRecord_ok_iff ..).mp hget
      refine (storeGetRecord_ok_iff ..).mpr ⟨hne, ?_, htext⟩
      have hnew : recordCid lib (c.step lib s).car (c.step lib s).head collection rkey =
          createdTree (recordTree lib s.car s.head) c.collection key cid
            (c.conflicts lib s key) (collection, rkey) := by
        rw [← hlands.tree]
        rfl
      have hkey : (collection, rkey) ≠ (c.collection, key) := by
        intro hk
        have hfree := hlands.free
        rw [← hk, recordTree, hfound] at hfree
        cases hfree
      have hconflict : ¬ (collection = c.collection ∧ rkey ∈ c.conflicts lib s key) := by
        rintro ⟨rfl, hmem⟩
        exact hother ⟨rfl, backlink_of_mem_conflicts hs hc hne hmem⟩
      rw [hnew, createdTree, if_neg hkey, if_neg hconflict, recordTree, hfound]
  · refine ⟨⟨fun h => absurd h hstatus, fun hdedup => ?_, fun collection rkey record hget _ => ?_,
      fun h => absurd h hvalid⟩, ?_⟩
    · rw [hstep]
      exact hdedup
    · rw [hstep]
      exact hget
    · rw [hstep]
      exact hs

end Backlinks

/-! ## Too many conflicts -/

/-- With 200 conflicts and more the create is refused. -/
theorem not_ok_of_many {lib : RepoLibrary} {number : Double → Json} (hprint : PrintsBack lib number)
    {s : RepoStore} {c : CreateCall} {key : String} (hcheck : c.check lib s = .ok key)
    (hmany : 200 ≤ (c.conflicts lib s key).length) : (c.run lib s).status ≠ .ok := by
  have hconflicts : c.conflicts lib s key ≠ [] := by
    intro hnil
    rw [hnil] at hmany
    simp at hmany
  have hrun : c.run lib s = createRecordWithBacklinkCleanup lib s c.collection key (c.text lib)
      (c.conflicts lib s key) c.o := by
    rw [CreateCall.check] at hcheck
    rw [CreateCall.run, createRecordLocked, hcheck]
    exact if_pos hconflicts
  rw [hrun]
  unfold createRecordWithBacklinkCleanup
  cases hvalue : lib.parseJson (c.text lib) with
  | none => exact status_failed s .alloc
  | some value =>
    dsimp only
    cases hplan : planApplyWrites lib s (lib.printJson
        (cleanupWrites c.collection key value (c.conflicts lib s key))) none c.o with
    | error error =>
      rw [applyWritesLocked_error hplan]
      exact status_failed s error
    | ok planned =>
      obtain ⟨writes, built⟩ := planned
      rw [cleanupWrites_eq] at hplan
      have hcount := (planApplyWrites_printed hprint hplan).1
      simp only [cleanupElements, List.length_append, List.length_map, List.length_singleton]
        at hcount
      omega

/-! ## The main result -/

/-- In a run of creates that all meet the condition, from a repository whose `records` table
mirrors its tree, every create keeps the backlinks. -/
theorem backlinks_kept (lib : RepoLibrary) {number : Double → Json}
    (hprint : PrintsBack lib number) (htree : WritesTree lib) (hbuilds : BuildsCleanups lib)
    (s : RepoStore) (hs : IndexMirrors lib s) (run : List CreateCall)
    (hrun : Steps (fun s c => c.step lib s) (Orderly lib) s run) :
    Steps (fun s c => c.step lib s) (KeepsBacklinks lib) s run := by
  refine Steps.imp hs (fun s c hs hc => ?_) (fun s c hs hc => ?_) hrun
  · exact (keepsBacklinks_of_orderly hprint htree hbuilds hs hc).1
  · exact (keepsBacklinks_of_orderly hprint htree hbuilds hs hc).2

/-! ## Two follows, and two hundred -/

section Examples

/-- A record that follows an account, as JSON, as text and as DAG-CBOR. -/
def followRecord : Json :=
  .object [("$type", .string "app.bsky.graph.follow"), ("subject", .string "did:x")]

def followText : String :=
  "\x7b\"$type\":\"app.bsky.graph.follow\",\"subject\":\"did:x\"\x7d"

def followCbor : List UInt8 :=
  [0xa2, 0x65, 0x24, 0x74, 0x79, 0x70, 0x65, 0x75, 0x61, 0x70, 0x70, 0x2e, 0x62, 0x73, 0x6b, 0x79,
    0x2e, 0x67, 0x72, 0x61, 0x70, 0x68, 0x2e, 0x66, 0x6f, 0x6c, 0x6c, 0x6f, 0x77, 0x67, 0x73, 0x75,
    0x62, 0x6a, 0x65, 0x63, 0x74, 0x65, 0x64, 0x69, 0x64, 0x3a, 0x78]

/-- The text of the batch that puts a follow under `c` in the place of the one under `a`, and
that of its results. -/
def cleanupText : String :=
  "[\x7b\"$type\":\"com.atproto.repo.applyWrites#delete\",\"collection\":\"app.bsky" ++
    ".graph.follow\",\"rkey\":\"a\"\x7d,\x7b\"$type\":\"com.atproto.repo.applyWrit" ++
    "es#create\",\"collection\":\"app.bsky.graph.follow\",\"rkey\":\"c\",\"value\":" ++
    followText ++ "\x7d]"

def cleanupResults : Json :=
  .array [.object [("$type", .string "com.atproto.repo.applyWrites#deleteResult")],
    .object [("$type", .string "com.atproto.repo.applyWrites#createResult"),
      ("uri", .string "at://did/app.bsky.graph.follow/c"), ("cid", .string "r"),
      ("validationStatus", .string "unknown")]]

def cleanupResultsText : String :=
  "[\x7b\"$type\":\"com.atproto.repo.applyWrites#deleteResult\"\x7d,\x7b\"$type\":" ++
    "\"com.atproto.repo.applyWrites#createResult\",\"uri\":\"at://did/app.bsky.graph" ++
    ".follow/c\",\"cid\":\"r\",\"validationStatus\":\"unknown\"\x7d]"

/-- The parser and the printer, for these trees. -/
def parseFollow (text : String) : Option Json :=
  if text = followText then some followRecord
  else if text = cleanupText then
    some (cleanupWrites "app.bsky.graph.follow" "c" followRecord ["a"])
  else if text = cleanupResultsText then some cleanupResults
  else none

def printFollow : Json → String
  | .object [("$type", .string "app.bsky.graph.follow"), ("subject", .string "did:x")] => followText
  | .array [.object [("$type", .string "com.atproto.repo.applyWrites#delete"),
        ("collection", .string "app.bsky.graph.follow"), ("rkey", .string "a")],
      .object [("$type", .string "com.atproto.repo.applyWrites#create"),
        ("collection", .string "app.bsky.graph.follow"), ("rkey", .string "c"),
        ("value", .object [("$type", .string "app.bsky.graph.follow"),
          ("subject", .string "did:x")])]] => cleanupText
  | .array [.object [("$type", .string "com.atproto.repo.applyWrites#deleteResult")],
      .object [("$type", .string "com.atproto.repo.applyWrites#createResult"),
        ("uri", .string "at://did/app.bsky.graph.follow/c"), ("cid", .string "r"),
        ("validationStatus", .string "unknown")]] => cleanupResultsText
  | _ => ""

/-- The keys of the follows in each commit. -/
def followKeys (head : Cid) : List String :=
  if head = "c1" then ["a"] else if head = "c2" then ["c"] else if head = "c3" then ["a", "c"]
  else []

/-- The commit that a write of follows gives: the first is put under `a`, the next under `c`,
beside it or in its place. -/
def followCommit (head : Cid) (writes : List (WriteAction × String × String × List UInt8)) :
    Except WfError RepoCommit :=
  if head = "" ∧ writes = [(.create, "app.bsky.graph.follow", "a", followCbor)] then
    .ok ⟨["r", "c1"], "c1", ["r"]⟩
  else if head = "c1" ∧ writes = [(.create, "app.bsky.graph.follow", "c", followCbor)] then
    .ok ⟨["c3"], "c3", ["r"]⟩
  else if head = "c1" ∧ writes = [(.delete, "app.bsky.graph.follow", "a", []),
      (.create, "app.bsky.graph.follow", "c", followCbor)] then
    .ok ⟨["c2"], "c2", ["", "r"]⟩
  else .error .internal

/-- The library, as far as follows of one account under `a` and `c` need it. -/
def followLibrary : RepoLibrary where
  content cid := if cid = "r" then followCbor else if cid = "c1" then [1] else
    if cid = "c2" then [2] else []
  commitParse data := if data = [1] then some ⟨"rev1", "n1"⟩ else
    if data = [2] then some ⟨"rev2", "n2"⟩ else none
  mstNodeParse _ := .error .parse
  cidFromString _ := none
  cidToString _ := none
  base64urlDecode _ := none
  base64urlEncode _ := none
  parseJson := parseFollow
  printJson := printFollow
  jsonExtract text path := if text = followText ∧ path = "$.subject" then some "did:x" else none
  cborSerialize item :=
    match item with
    | .map [(some "$type", .string "app.bsky.graph.follow"),
        (some "subject", .string "did:x")] => some followCbor
    | _ => none
  cborParse data :=
    if data = followCbor then some (.map [(some "$type", .string "app.bsky.graph.follow"),
      (some "subject", .string "did:x")]) else none
  cidOfBlock data := if data = followCbor then some "r" else none
  recordKeyIsValid _ := true
  repoGetRecord _ head collection rkey :=
    if collection = "app.bsky.graph.follow" ∧ rkey ∈ followKeys head then .ok "r"
    else .error .notFound
  repoCreateRecord _ _ head collection rkey body :=
    followCommit head [(.create, collection, rkey, body)]
  repoUpdateRecord _ _ _ _ _ _ := .error .internal
  repoDeleteRecord _ _ _ _ _ := .error .internal
  repoApplyWrites _ _ head writes :=
    followCommit head (writes.map fun w => (w.action, w.collection, w.rkey, w.recordCbor))

/-- A create of such a record. -/
def followCall (rkey : String) : CreateCall where
  collection := "app.bsky.graph.follow"
  rkey := some rkey
  record := followRecord
  swapCommit := none
  o := .good

theorem printFollow_cleanup : printFollow (cleanupWrites "app.bsky.graph.follow" "c" followRecord
    ["a"]) = cleanupText := rfl

/-- The three texts are read as what they were printed from. -/
theorem parseFollow_followText : parseFollow followText = some followRecord := if_pos rfl

theorem parseFollow_cleanupText : parseFollow cleanupText =
    some (cleanupWrites "app.bsky.graph.follow" "c" followRecord ["a"]) := by
  rw [parseFollow, if_neg (by decide +kernel), if_pos rfl]

theorem parseFollow_cleanupResultsText :
    parseFollow cleanupResultsText = some cleanupResults := by
  rw [parseFollow, if_neg (by decide +kernel), if_neg (by decide +kernel), if_pos rfl]

theorem parseFollow_empty : parseFollow "" = none := by
  rw [parseFollow, if_neg (by decide +kernel), if_neg (by decide +kernel),
    if_neg (by decide +kernel)]

theorem printsBack_follow : PrintsBack followLibrary .number where
  plain d := Or.inr ⟨d, rfl⟩
  reads j j' h := by
    rw [Json.reread_number]
    have hread : parseFollow (printFollow j) = some j' := h
    unfold printFollow at hread
    split at hread
    · rw [parseFollow_followText] at hread
      cases hread
      rfl
    · rw [parseFollow_cleanupText] at hread
      cases hread
      rfl
    · rw [parseFollow_cleanupResultsText] at hread
      cases hread
      rfl
    · rw [parseFollow_empty] at hread
      cases hread
  reprints j := by rw [Json.reread_number]

theorem recordTree_follow (car : List Cid) (head : Cid) :
    recordTree followLibrary car head = fun k =>
      if k.1 = "app.bsky.graph.follow" ∧ k.2 ∈ followKeys head then some "r" else none := by
  funext k
  simp only [recordTree, recordCid, followLibrary]
  by_cases hhead : head = ""
  · simp [hhead, followKeys]
  · rw [if_neg hhead]
    split <;> rfl

/-- The three commits, by the writes that give them. -/
theorem followCommit_ok {head : Cid} {writes : List (WriteAction × String × String × List UInt8)}
    {built : RepoCommit} (h : followCommit head writes = .ok built) :
    (head = "" ∧ writes = [(.create, "app.bsky.graph.follow", "a", followCbor)] ∧
      built = ⟨["r", "c1"], "c1", ["r"]⟩) ∨
    (head = "c1" ∧ writes = [(.create, "app.bsky.graph.follow", "c", followCbor)] ∧
      built = ⟨["c3"], "c3", ["r"]⟩) ∨
    (head = "c1" ∧ writes = [(.delete, "app.bsky.graph.follow", "a", []),
      (.create, "app.bsky.graph.follow", "c", followCbor)] ∧
      built = ⟨["c2"], "c2", ["", "r"]⟩) := by
  unfold followCommit at h
  split at h
  · next hw =>
    cases h
    exact Or.inl ⟨hw.1, hw.2, rfl⟩
  · split at h
    · next hw =>
      cases h
      exact Or.inr (Or.inl ⟨hw.1, hw.2, rfl⟩)
    · split at h
      · next hw =>
        cases h
        exact Or.inr (Or.inr ⟨hw.1, hw.2, rfl⟩)
      · cases h

/-- A follow is put beside those that are there. -/
theorem follow_added {head commit : Cid} {rkey : String} (hnew : rkey ∉ followKeys head)
    (hkeys : ∀ k, k ∈ followKeys commit ↔ k = rkey ∨ k ∈ followKeys head) (car car' : List Cid) :
    recordTree followLibrary car head ("app.bsky.graph.follow", rkey) = none ∧
      recordTree followLibrary car' commit = Function.update
        (recordTree followLibrary car head) ("app.bsky.graph.follow", rkey) (some "r") := by
  rw [recordTree_follow, recordTree_follow]
  refine ⟨if_neg fun h => hnew h.2, ?_⟩
  funext k
  obtain ⟨collection, k⟩ := k
  by_cases hk : (collection, k) = ("app.bsky.graph.follow", rkey)
  · obtain ⟨rfl, rfl⟩ := Prod.mk.injEq .. ▸ hk
    simp [hkeys]
  · rw [Function.update_of_ne hk]
    simp only [Prod.mk.injEq, not_and] at hk
    by_cases hcollection : collection = "app.bsky.graph.follow"
    · simp [hcollection, hkeys, hk hcollection]
    · simp [hcollection]

theorem follow_added_a (car car' : List Cid) :
    recordTree followLibrary car "" ("app.bsky.graph.follow", "a") = none ∧
      recordTree followLibrary car' "c1" = Function.update
        (recordTree followLibrary car "") ("app.bsky.graph.follow", "a") (some "r") :=
  follow_added (by decide) (by simp [followKeys]) car car'

theorem follow_added_c (car car' : List Cid) :
    recordTree followLibrary car "c1" ("app.bsky.graph.follow", "c") = none ∧
      recordTree followLibrary car' "c3" = Function.update
        (recordTree followLibrary car "c1") ("app.bsky.graph.follow", "c") (some "r") :=
  follow_added (by decide) (by simp [followKeys, or_comm]) car car'

theorem writesTree_follow : WritesTree followLibrary where
  create clock car head collection rkey body built h := by
    rcases followCommit_ok h with ⟨rfl, hw, rfl⟩ | ⟨rfl, hw, rfl⟩ | ⟨rfl, hw, rfl⟩
    · cases hw
      exact ⟨"r", rfl, rfl, follow_added_a _ _⟩
    · cases hw
      exact ⟨"r", rfl, rfl, follow_added_c _ _⟩
    · cases hw
  apply clock car head writes built h := by
    rcases followCommit_ok h with ⟨rfl, hw, rfl⟩ | ⟨rfl, hw, rfl⟩ | ⟨rfl, hw, rfl⟩
    · obtain ⟨w, rfl, hw⟩ := List.map_eq_singleton_iff.mp hw
      obtain ⟨action, collection, rkey, cbor, text⟩ := w
      cases hw
      obtain ⟨hfree, htree⟩ := follow_added_a car (car ++ ["r", "c1"])
      refine ⟨rfl, fun w hw _ => ?_, ⟨?_, trivial⟩, htree⟩
      · obtain rfl := List.mem_singleton.mp hw
        rfl
      · simpa [Write.Fits, treeWrite] using hfree
    · obtain ⟨w, rfl, hw⟩ := List.map_eq_singleton_iff.mp hw
      obtain ⟨action, collection, rkey, cbor, text⟩ := w
      cases hw
      obtain ⟨hfree, htree⟩ := follow_added_c car (car ++ ["c3"])
      refine ⟨rfl, fun w hw _ => ?_, ⟨?_, trivial⟩, htree⟩
      · obtain rfl := List.mem_singleton.mp hw
        rfl
      · simpa [Write.Fits, treeWrite] using hfree
    · obtain ⟨w, rest, rfl, hw, hrest⟩ := List.map_eq_cons_iff.mp hw
      obtain ⟨w', rfl, hw'⟩ := List.map_eq_singleton_iff.mp hrest
      obtain ⟨action, collection, rkey, cbor, text⟩ := w
      obtain ⟨action', collection', rkey', cbor', text'⟩ := w'
      cases hw
      cases hw'
      refine ⟨rfl, fun w hw hne => ?_, ?_, ?_⟩
      · simp only [List.zip_cons_cons, List.zip_nil_right, List.mem_cons, List.not_mem_nil,
          or_false] at hw
        rcases hw with rfl | rfl
        · exact absurd rfl hne
        · rfl
      · rw [recordTree_follow]
        refine ⟨?_, ?_, trivial⟩ <;> simp [Write.Fits, Write.apply, treeWrite, followKeys]
      · rw [recordTree_follow, recordTree_follow]
        funext k
        obtain ⟨collection, k⟩ := k
        by_cases hc : k = "c" <;> by_cases ha : k = "a" <;>
          by_cases hcollection : collection = "app.bsky.graph.follow" <;>
          simp_all [applyAll, Write.apply, treeWrite, followKeys]

/-- Of the follows that are there, the one under `a` is all that a create can clean up. -/
theorem buildsCleanups_follow : BuildsCleanups followLibrary := by
  intro clock car head collection rkey cbor text conflicts built h hnodup hstored
  have hkeys : ∀ conflict ∈ conflicts, conflict ∈ followKeys head := by
    intro conflict hmem
    have hsome := hstored conflict hmem
    have htree := congrFun (recordTree_follow car head) (collection, conflict)
    by_contra hnot
    rw [if_neg fun hk => hnot hk.2, recordTree] at htree
    rw [htree] at hsome
    cases hsome
  rcases followCommit_ok h with ⟨rfl, hw, rfl⟩ | ⟨rfl, hw, rfl⟩ | ⟨rfl, hw, rfl⟩
  · cases hw
    obtain rfl : conflicts = [] := List.eq_nil_iff_forall_not_mem.mpr fun k hk =>
      List.not_mem_nil (hkeys k hk)
    exact ⟨_, rfl⟩
  · cases hw
    cases conflicts with
    | nil => exact ⟨_, rfl⟩
    | cons conflict rest =>
      obtain rfl : conflict = "a" := List.mem_singleton.mp (hkeys conflict List.mem_cons_self)
      obtain rfl : rest = [] := List.eq_nil_iff_forall_not_mem.mpr fun k hk =>
        (List.nodup_cons.mp hnodup).1
          (List.mem_singleton.mp (hkeys k (List.mem_cons_of_mem _ hk)) ▸ hk)
      exact ⟨_, rfl⟩
  · cases hw

theorem mirrors_new : IndexMirrors followLibrary (.new "did") where
  canBegin := rfl
  nodup := List.nodup_nil
  row_iff _ _ _ := by
    refine iff_of_false ?_ ?_
    · rintro h
      cases h
    · rintro ⟨row, hrow, -⟩
      cases hrow
  tells row hrow := by cases hrow

theorem tellsSubject_follow {rkey : String} {cbor : List UInt8}
    (h : encodeRecordJson followLibrary followText = .ok cbor) :
    TellsSubject followLibrary "app.bsky.graph.follow" followText cbor ∧
      (followCall rkey).target followLibrary =
        (blockText followLibrary cbor).bind (backlinkTarget followLibrary · "$.subject") := by
  have hencode : encodeRecordJson followLibrary followText = .ok followCbor := rfl
  obtain rfl : followCbor = cbor := Except.ok.inj (hencode.symm.trans h)
  have hsubject : backlinkPathForCollection "app.bsky.graph.follow" = some "$.subject" := by
    decide
  have htext : followLibrary.jsonExtract followText "$.subject" = some "did:x" := rfl
  have hblock : (blockText followLibrary followCbor).bind
      (backlinkTarget followLibrary · "$.subject") = some "did:x" := rfl
  refine ⟨fun path hpath target _ => ?_, ?_⟩
  · obtain rfl : "$.subject" = path := Option.some.inj (hsubject.symm.trans hpath)
    rw [htext, hblock]
  · rw [hblock]
    rfl

/-- The repository with the first follow. -/
def oneFollow : RepoStore := (followCall "a").step followLibrary (.new "did")

theorem conflicts_second : (followCall "c").conflicts followLibrary oneFollow "c" = ["a"] := by
  decide +kernel

/-- The follow under `a` can be cleaned up. -/
theorem cleans_second : Cleans followLibrary oneFollow (followCall "c") "c" where
  count := by
    rw [conflicts_second]
    decide
  keys conflict hmem := by
    rw [conflicts_second] at hmem
    obtain rfl := List.mem_singleton.mp hmem
    exact ⟨by decide, rfl⟩
  batch value hvalue := by
    have hread : followLibrary.parseJson ((followCall "c").text followLibrary) =
        some followRecord := rfl
    obtain rfl : followRecord = value := Option.some.inj (hread.symm.trans hvalue)
    rw [conflicts_second]
    simp only [followLibrary, followCall, printFollow_cleanup, parseFollow_cleanupText,
      Option.isSome_some]
  results value applied hvalue happlied := by
    have hread : followLibrary.parseJson ((followCall "c").text followLibrary) =
        some followRecord := rfl
    obtain rfl : followRecord = value := Option.some.inj (hread.symm.trans hvalue)
    rw [conflicts_second] at happlied
    have hresults : (applyWritesLocked followLibrary oneFollow cleanupText none
        .good).returned.toOption.map ApplyReturn.results = some cleanupResultsText := by
      decide +kernel
    have hprint : followLibrary.printJson = printFollow := rfl
    simp only [followCall, hprint, printFollow_cleanup] at happlied
    rw [happlied] at hresults
    have hprinted : applied.results = cleanupResultsText := Option.some.inj hresults
    change (parseFollow applied.results).isSome = true
    rw [hprinted, parseFollow_cleanupResultsText]
    rfl

/-- A follow, and a second one of the same account that takes its place. -/
theorem backlinks_kept_second :
    Steps (fun s c => c.step followLibrary s) (KeepsBacklinks followLibrary) (.new "did")
      [followCall "a", followCall "c"] := by
  refine backlinks_kept followLibrary printsBack_follow writesTree_follow
    buildsCleanups_follow (.new "did") mirrors_new [followCall "a", followCall "c"]
      ⟨⟨good_nothingFails, rfl, fun tid h => (nomatch h), fun cbor h => tellsSubject_follow h,
          fun key hcheck hconflicts => ?_⟩,
        ⟨good_nothingFails, rfl, fun tid h => (nomatch h), fun cbor h => tellsSubject_follow h,
          fun key hcheck _ => ?_⟩, trivial⟩
  · have hkey : (followCall "a").check followLibrary (.new "did") = .ok "a" := rfl
    obtain rfl : "a" = key := Except.ok.inj (hkey.symm.trans hcheck)
    exact absurd rfl hconflicts
  · have hkey : (followCall "c").check followLibrary oneFollow = .ok "c" := rfl
    obtain rfl : "c" = key := Except.ok.inj (hkey.symm.trans hcheck)
    exact cleans_second

/-- The keys of 200 records. -/
def olderKeys : List String := (List.range 200).map fun i => String.ofList (List.replicate i 'a')

theorem olderKeys_nodup : olderKeys.Nodup := by
  refine List.Nodup.map (fun i j h => ?_) List.nodup_range
  have hlength := congrArg String.length h
  simpa using hlength

theorem olderKeys_length : olderKeys.length = 200 := by
  rw [olderKeys, List.length_map, List.length_range]

/-- The text of an element of a batch. -/
def printWrite : Json → String
  | .object [("$type", .string type), ("collection", .string collection),
      ("rkey", .string rkey)] =>
    "\x7b\"$type\":\"" ++ type ++ "\",\"collection\":\"" ++ collection ++ "\",\"rkey\":\"" ++
      rkey ++ "\"\x7d"
  | .object [("$type", .string type), ("collection", .string collection),
      ("rkey", .string rkey), ("value", value)] =>
    "\x7b\"$type\":\"" ++ type ++ "\",\"collection\":\"" ++ collection ++ "\",\"rkey\":\"" ++
      rkey ++ "\",\"value\":" ++ printFollow value ++ "\x7d"
  | _ => ""

/-- The text of the batch that puts a follow in the place of 200 older ones. -/
def manyText : String :=
  "[" ++ ",".intercalate ((cleanupElements "app.bsky.graph.follow" "new" followRecord
    olderKeys).map printWrite) ++ "]"

/-- A library that also reads and prints this batch. -/
def manyLibrary : RepoLibrary :=
  { followLibrary with
    parseJson := fun text => if text = manyText then
        some (cleanupWrites "app.bsky.graph.follow" "new" followRecord olderKeys)
      else followLibrary.parseJson text
    printJson := fun j => match j with
      | .array elements => "[" ++ ",".intercalate (elements.map printWrite) ++ "]"
      | j => followLibrary.printJson j
    repoGetRecord := fun _ head collection rkey =>
      if head = "c1" ∧ collection = "app.bsky.graph.follow" ∧ rkey ∈ olderKeys then .ok "r"
      else .error .notFound
    repoCreateRecord := fun _ _ head collection rkey _ =>
      if head = "c1" ∧ collection = "app.bsky.graph.follow" ∧ rkey = "new" then
        .ok ⟨["c2"], "c2", ["r"]⟩
      else .error .internal }

/-- The row of an older follow. -/
def followRow (rkey : String) : RecordRow := ⟨"app.bsky.graph.follow", rkey, "r", followText, none⟩

/-- A repository with 200 follows of one account. -/
def manyFollows : RepoStore :=
  storeOpen "did" ⟨[⟨"c1", none⟩, ⟨"r", none⟩], some ⟨some "c1", none⟩, olderKeys.map followRow⟩

/-- The text of a follow is no batch, and is read as it was. -/
theorem parse_followText : manyLibrary.parseJson followText = some followRecord := by
  have hne : followText ≠ manyText := by
    intro h
    have hfirst := congrArg (fun text => text.toList.head?) h
    simp [manyText, followText] at hfirst
  simp only [manyLibrary, hne, if_false]
  exact parseFollow_followText

theorem print_manyCleanup : manyLibrary.printJson
    (cleanupWrites "app.bsky.graph.follow" "new" followRecord olderKeys) = manyText := by
  rw [cleanupWrites_eq]
  simp only [manyLibrary, manyText]

theorem target_followText : backlinkTarget manyLibrary followText "$.subject" = some "did:x" := by
  rw [backlinkTarget, parse_followText]
  rfl

theorem records_manyFollows : manyFollows.db.view.records = olderKeys.map followRow := rfl

theorem mirrors_manyFollows : IndexMirrors manyLibrary manyFollows where
  canBegin := rfl
  nodup := by
    rw [records_manyFollows, List.map_map]
    exact olderKeys_nodup.map fun k k' h => congrArg Prod.snd h
  row_iff collection rkey cid := by
    have hget : recordCid manyLibrary manyFollows.car manyFollows.head collection rkey =
        if collection = "app.bsky.graph.follow" ∧ rkey ∈ olderKeys then some "r" else none := by
      have hhead : manyFollows.head = "c1" := rfl
      rw [recordCid, hhead, if_neg (by decide)]
      simp only [manyLibrary, true_and]
      split <;> rfl
    rw [hget, records_manyFollows]
    constructor
    · intro h
      split at h
      · next hkey =>
        cases h
        exact ⟨_, List.mem_map_of_mem hkey.2, hkey.1.symm, rfl, rfl⟩
      · cases h
    · rintro ⟨row, hrow, rfl, rfl, rfl⟩
      obtain ⟨k, hk, rfl⟩ := List.mem_map.mp hrow
      rw [if_pos ⟨rfl, hk⟩]
      rfl
  tells row hrow path hpath target _ := by
    rw [records_manyFollows] at hrow
    obtain ⟨k, -, rfl⟩ := List.mem_map.mp hrow
    have hsubject : backlinkPathForCollection "app.bsky.graph.follow" = some "$.subject" := by
      decide
    obtain rfl : "$.subject" = path := Option.some.inj (hsubject.symm.trans hpath)
    have hleft : manyLibrary.jsonExtract followText "$.subject" = some "did:x" := rfl
    have hright : (blockText manyLibrary (manyLibrary.content "r")).bind
        (backlinkTarget manyLibrary · "$.subject") = some "did:x" := by
      rw [show blockText manyLibrary (manyLibrary.content "r") = some followText from rfl]
      exact target_followText
    simp only [followRow]
    rw [hleft, hright]

/-- All of the older follows stand in the way of the new one. -/
theorem conflicts_manyFollows :
    backlinkConflicts manyLibrary manyFollows "app.bsky.graph.follow" "new" followText .good =
      olderKeys := by
  have hpath : backlinkPathForCollection "app.bsky.graph.follow" = some "$.subject" := by decide
  have hextract : manyLibrary.jsonExtract followText "$.subject" = some "did:x" := rfl
  have hfound : findBacklinkConflicts manyLibrary manyFollows "app.bsky.graph.follow" "$.subject"
      "did:x" none = olderKeys := by
    rw [findBacklinkConflicts, records_manyFollows]
    rw [List.filter_eq_self.mpr, List.map_map]
    · exact List.map_id olderKeys
    · intro row hrow
      obtain ⟨k, -, rfl⟩ := List.mem_map.mp hrow
      exact decide_eq_true ⟨rfl, hextract⟩
  have hnew : olderKeys.findIdx? (· == "new") = none := by
    rw [List.findIdx?_eq_none_iff]
    intro k hk
    obtain ⟨i, -, rfl⟩ := List.mem_map.mp hk
    rw [beq_eq_false_iff_ne]
    intro heq
    have hlist := congrArg String.toList heq
    rw [String.toList_ofList] at hlist
    have hn : 'n' ∈ List.replicate i 'a' := by
      rw [hlist]
      decide
    exact absurd (List.eq_of_mem_replicate hn) (by decide)
  rw [backlinkConflicts, hpath]
  dsimp only
  rw [target_followText]
  dsimp only
  rw [show WriteOutcomes.good.conflictsFailAfter = none from rfl, hfound, dropConflict, hnew]

/-- A new follow passes the checks, and a commit can be made of it. -/
theorem check_newFollow : checkCreate manyLibrary manyFollows "app.bsky.graph.follow"
    (some "new") followText none .good = .ok "new" := by
  have htype : recordTypeMatches manyLibrary followText "app.bsky.graph.follow" = true := by
    rw [recordTypeMatches, parse_followText]
    rfl
  rw [checkCreate]
  simp only [htype]
  rfl

theorem plan_newFollow : planCreate manyLibrary manyFollows "app.bsky.graph.follow" "new"
    followText .good = .ok ⟨["c2"], "c2", ["r"]⟩ := by
  rw [planCreate, encodeRecordJson, parse_followText]
  rfl

/-- A cleanup whose batch cannot be planned fails for the same reason. -/
theorem cleanup_failed {lib : RepoLibrary} {s : RepoStore} {collection rkey text : String}
    {conflicts : List String} {o : WriteOutcomes} {value : Json} {error : WfError}
    (hvalue : lib.parseJson text = some value)
    (hplan : planApplyWrites lib s (lib.printJson (cleanupWrites collection rkey value conflicts))
      none o = .error error) :
    createRecordWithBacklinkCleanup lib s collection rkey text conflicts o = .failed s error := by
  rw [createRecordWithBacklinkCleanup, hvalue]
  dsimp only
  rw [applyWritesLocked_error hplan]
  rfl

/-- A new follow of an account that 200 older records follow: it is valid by itself, and it is
refused for their number. -/
theorem follow_past_the_cap :
    IndexMirrors manyLibrary manyFollows ∧ (followCall "new").ValidAlone manyLibrary manyFollows ∧
      ((followCall "new").run manyLibrary manyFollows).status = .invalidArg := by
  refine ⟨mirrors_manyFollows, ⟨"new", ⟨["c2"], "c2", ["r"]⟩, check_newFollow, plan_newFollow⟩, ?_⟩
  have hplan : planApplyWrites manyLibrary manyFollows manyText none .good =
      .error .invalidArg := by
    have hparse : manyLibrary.parseJson manyText =
        some (cleanupWrites "app.bsky.graph.follow" "new" followRecord olderKeys) := by
      simp only [manyLibrary, if_true]
    rw [planApplyWrites, hparse, cleanupWrites_eq]
    have hlength : 200 < (cleanupElements "app.bsky.graph.follow" "new" followRecord
        olderKeys).length := by
      simp only [cleanupElements, List.length_append, List.length_map, olderKeys_length]
      decide
    simp only [checkSwap, refuseIf, hlength, if_true, bind, Except.bind]
  have hconflicts : olderKeys ≠ [] := by
    intro hnil
    have hlength := olderKeys_length
    rw [hnil] at hlength
    cases hlength
  have hrun : (followCall "new").run manyLibrary manyFollows = .failed manyFollows .invalidArg := by
    have htext : (followCall "new").text manyLibrary = followText := rfl
    rw [CreateCall.run, htext]
    simp only [followCall, createRecordLocked, check_newFollow, conflicts_manyFollows]
    rw [if_pos hconflicts]
    exact cleanup_failed parse_followText (print_manyCleanup ▸ hplan)
  rw [hrun]
  rfl

end Examples

end MetalBear.Repo
