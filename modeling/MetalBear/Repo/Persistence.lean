import MetalBear.Library.Machine
import MetalBear.Repo.Store

/-!
# Persisted heads

Between two openings a store counts the blocks it has flushed by a mark into its block list.
The mark is followed through every run of the store's own steps, with every statement free
to fail: when it counts blocks that are not in the table, and what that does to a head that
`commit_persist` reports as persisted.
-/

namespace MetalBear.Repo

open Machine Transaction

/-! ## Runs of the engine -/

/-- The steps by which a store changes. -/
inductive StoreCall where
  /-- A call of the repository library, or an import, adds blocks to the list. -/
  | stage (blocks : List Cid)
  | commitPersist (newHead : Cid) (o : PersistOutcomes)
  /-- A statement on the `records` table. -/
  | index (statement : List RecordRow → List RecordRow)
  | setRevOverride (rev : String) (writes : Bool)
  | reopen

/-- One step of the store. -/
def RepoStore.step (lib : BlockLibrary) (s : RepoStore) : StoreCall → RepoStore
  | .stage blocks => { s with car := s.car ++ blocks }
  | .commitPersist newHead o => (Repo.commitPersist lib s newHead o).1
  | .index statement =>
    { s with db := s.db.write fun t => { t with records := statement t.records } }
  | .setRevOverride rev writes => (Repo.setRevOverride s rev writes).1
  | .reopen => s.reopen

/-! ## What is claimed of a step -/

/-- The blocks below the mark are in the table. -/
structure Counted (s : RepoStore) : Prop where
  le : s.persistedBlocks ≤ s.car.length
  durable : ∀ cid ∈ s.car.take s.persistedBlocks, cid ∈ s.db.durable.cids

/-- The head survives a restart together with every block that is reachable from it. -/
structure Persisted (lib : BlockLibrary) (s : RepoStore) : Prop where
  blocks : ∀ cid ∈ s.car, cid ∈ lib.reachable s.car s.head → cid ∈ s.db.durable.cids
  head : s.reopen.head = s.head
  found : ∀ cid ∈ s.car, cid ∈ lib.reachable s.car s.head → cid ∈ s.reopen.car

/-- After the step the mark counts persisted blocks only, and a head for which
`commit_persist` returned `WF_OK` is persisted. -/
def SoundStep (lib : BlockLibrary) (s : RepoStore) (call : StoreCall) : Prop :=
  Counted (s.step lib call) ∧
    ∀ newHead o, call = .commitPersist newHead o → (commitPersist lib s newHead o).2 = none →
      Persisted lib (s.step lib call)

/-- When every `INSERT` gets through, so do the head row and the `COMMIT`; or else the blocks
past the mark were in the table before and, if only the `COMMIT` does not take effect, the
head row names the new head already. -/
def MarkKept (s : RepoStore) : StoreCall → Prop
  | .commitPersist newHead o =>
    o.Inserts s →
      (o.writesHead = true ∧ o.commit = .committed) ∨
        ((∀ cid ∈ s.car.drop s.persistedBlocks, cid ∈ s.db.durable.cids) ∧
          (o.writesHead = true → s.reopen.head = newHead))
  | _ => True

/-! ## One step -/

/-- A store that has just been opened counts exactly the table. -/
theorem counted_storeOpen (did : String) (t : Tables) : Counted (storeOpen did t) where
  le := le_refl _
  durable cid h := by simpa [storeOpen] using List.mem_of_mem_take h

/-- When the mark stands at the end, every block of the list is counted. -/
theorem Counted.all {s : RepoStore} (h : Counted s) (hmark : s.persistedBlocks = s.car.length)
    {cid : Cid} (hcid : cid ∈ s.car) : cid ∈ s.db.durable.cids :=
  h.durable cid (by rwa [hmark, List.take_length])

/-- A store whose list is in the table and whose head row names the head is persisted. -/
theorem Persisted.of_all {lib : BlockLibrary} {s : RepoStore}
    (hall : ∀ cid ∈ s.car, cid ∈ s.db.durable.cids) (hhead : s.reopen.head = s.head) :
    Persisted lib s where
  blocks cid hcid _ := hall cid hcid
  head := hhead
  found cid hcid _ := hall cid hcid

/-- The mark may be moved to the end only when the blocks past it are in the table. -/
theorem counted_iff_of_end {s s' : RepoStore} (h : Counted s) (hcar : s'.car = s.car)
    (hmark : s'.persistedBlocks = s.car.length) (hdur : s'.db.durable = s.db.durable) :
    Counted s' ↔ ∀ cid ∈ s.car.drop s.persistedBlocks, cid ∈ s.db.durable.cids := by
  constructor
  · intro h' cid hcid
    rw [← hdur]
    exact h'.all (by rw [hmark, hcar]) (by rw [hcar]; exact List.mem_of_mem_drop hcid)
  · intro hdrop
    refine ⟨by rw [hmark, hcar], fun cid hcid => ?_⟩
    have hmem : cid ∈ s.car.take s.persistedBlocks ++ s.car.drop s.persistedBlocks := by
      rw [List.take_append_drop, ← hcar]
      exact List.mem_of_mem_take hcid
    rw [hdur]
    exact (List.mem_append.mp hmem).elim (h.durable cid) (hdrop cid)

/-- After a commit that takes effect every block of the list is in the table. -/
theorem mem_persistedTables {lib : BlockLibrary} {s : RepoStore} (h : Counted s) (newHead : Cid)
    {cid : Cid} (hcid : cid ∈ s.car) : cid ∈ (persistedTables lib s newHead).cids := by
  rw [persistedTables, Tables.cids_putHead, Tables.cids_insertAll]
  have hmem : cid ∈ s.car.take s.persistedBlocks ++ s.car.drop s.persistedBlocks := by
    rwa [List.take_append_drop]
  exact (List.mem_append.mp hmem).imp_left (h.durable cid)

/-- The head that the persisted row is read back as. -/
theorem head_persistedTables (lib : BlockLibrary) (s : RepoStore) (newHead : Cid) (did : String) :
    (storeOpen did (persistedTables lib s newHead)).head = newHead := by
  by_cases h : newHead = "" <;> simp [storeOpen, persistedTables, h]

/-- `commit_persist` is sound exactly when it keeps the mark. -/
theorem soundStep_commitPersist_iff {lib : BlockLibrary} {s : RepoStore} (h : Counted s)
    (newHead : Cid) (o : PersistOutcomes) :
    SoundStep lib s (.commitPersist newHead o) ↔ MarkKept s (.commitPersist newHead o) := by
  obtain ⟨hhead, -, hcar, -⟩ := commitPersist_frame lib s newHead o
  have hcase := commitPersist_cases lib s newHead o
  have hsound : SoundStep lib s (.commitPersist newHead o) ↔
      Counted (commitPersist lib s newHead o).1 ∧
        ((commitPersist lib s newHead o).2 = none →
          Persisted lib (commitPersist lib s newHead o).1) := by
    refine and_congr_right fun _ => ⟨fun hp => hp newHead o rfl, fun hp _ _ heq => ?_⟩
    cases heq
    exact hp
  rw [hsound]
  clear hsound
  revert hhead hcar hcase
  generalize commitPersist lib s newHead o = r
  rintro hhead hcar hcase
  simp only [MarkKept]
  cases hcase with
  | notInserted hno hmark hdur =>
    refine ⟨fun _ hins => absurd hins hno, fun _ => ⟨⟨?_, ?_⟩, nofun⟩⟩
    · rw [hmark, hcar]
      exact h.le
    · rw [hmark, hcar, hdur]
      exact h.durable
  | headNotWritten hins hw hmark hdur =>
    rw [counted_iff_of_end h hcar hmark hdur]
    simp [hins, hw]
  | @notCommitted s' hins hw hc hmark hdur =>
    rw [counted_iff_of_end h hcar hmark hdur]
    have hreopen : s'.reopen.head = s.reopen.head := by simp [RepoStore.reopen, storeOpen, hdur]
    constructor
    · rintro ⟨hdrop, hp⟩ -
      exact Or.inr ⟨hdrop, fun _ => by rw [← hreopen, (hp rfl).head, hhead]⟩
    · intro hkept
      obtain ⟨-, hcommit⟩ | ⟨hdrop, hold⟩ := hkept hins
      · exact absurd hcommit hc
      · have h' := (counted_iff_of_end h hcar hmark hdur).mpr hdrop
        refine ⟨hdrop, fun _ => .of_all (fun cid => h'.all (by rw [hmark, hcar])) ?_⟩
        rw [hreopen, hold hw, hhead]
  | @committed s' hins hw hc hmark hdb =>
    have hall : ∀ cid ∈ s'.car, cid ∈ s'.db.durable.cids := fun cid hcid => by
      rw [hdb]
      exact mem_persistedTables h newHead (hcar ▸ hcid)
    refine ⟨fun _ _ => Or.inl ⟨hw, hc⟩, fun _ => ⟨⟨?_, ?_⟩, fun _ => .of_all hall ?_⟩⟩
    · rw [hmark, hcar]
    · exact fun cid hcid => hall cid (List.mem_of_mem_take hcid)
    · rw [RepoStore.reopen, hdb, Db.durable_fresh, head_persistedTables, hhead]

/-- The steps other than `commit_persist` leave the mark and the blocks below it alone. -/
theorem soundStep_other {lib : BlockLibrary} {s : RepoStore} (h : Counted s) {call : StoreCall}
    (hcall : ∀ newHead o, call ≠ .commitPersist newHead o) : SoundStep lib s call := by
  refine ⟨?_, fun newHead o heq => absurd heq (hcall newHead o)⟩
  cases call with
  | stage blocks =>
    refine ⟨?_, ?_⟩
    · have := h.le
      simp only [RepoStore.step, List.length_append]
      omega
    · simp only [RepoStore.step, List.take_append_of_le_length h.le]
      exact h.durable
  | commitPersist newHead o => exact absurd rfl (hcall newHead o)
  | index statement =>
    refine ⟨h.le, ?_⟩
    have hcids := Db.durable_write_of_keeps s.db (p := Tables.cids)
      (f := fun t => { t with records := statement t.records }) fun _ => rfl
    simp only [RepoStore.step, hcids]
    exact h.durable
  | setRevOverride rev writes =>
    cases writes with
    | false => exact ⟨h.le, h.durable⟩
    | true =>
      refine ⟨h.le, ?_⟩
      have hcids := Db.durable_write_of_keeps s.db (p := Tables.cids)
        (f := Tables.putHead (headRow { s with revOverride := some rev })) fun _ => rfl
      simp only [RepoStore.step, setRevOverride, persistHead, if_true, hcids]
      exact h.durable
  | reopen => exact counted_storeOpen s.did s.db.durable

theorem soundStep_iff {lib : BlockLibrary} {s : RepoStore} (h : Counted s) (call : StoreCall) :
    SoundStep lib s call ↔ MarkKept s call := by
  cases call with
  | commitPersist newHead o => exact soundStep_commitPersist_iff h newHead o
  | stage blocks => exact iff_of_true (soundStep_other h nofun) trivial
  | index statement => exact iff_of_true (soundStep_other h nofun) trivial
  | setRevOverride rev writes => exact iff_of_true (soundStep_other h nofun) trivial
  | reopen => exact iff_of_true (soundStep_other h nofun) trivial

/-! ## Every run -/

/-- In a run of a store from any database, the mark counts persisted blocks only and every
head reported as persisted survives a restart with all blocks reachable from it, if and only
if every step of the run keeps the mark. -/
theorem persistedHeads_iff (lib : BlockLibrary) (did : String) (t : Tables)
    (run : List StoreCall) :
    Steps (RepoStore.step lib) (SoundStep lib) (storeOpen did t) run ↔
      Steps (RepoStore.step lib) MarkKept (storeOpen did t) run :=
  steps_iff_steps (counted_storeOpen did t) (fun _ call h => soundStep_iff h call)
    fun _ _ _ hsound => hsound.1

/-! ## A rollback that the mark does not follow -/

section Rollback

/-- The blocks of two commits: `c1` over a tree of one record, `c2` over a tree of two. -/
def twoCommits : BlockLibrary where
  content cid := if cid = "c1" then [1] else if cid = "c2" then [2] else
    if cid = "n1" then [3] else if cid = "n2" then [4] else [5]
  commitParse data := if data = [1] then some ⟨"rev1", "n1"⟩ else
    if data = [2] then some ⟨"rev2", "n2"⟩ else none
  mstNodeParse data := if data = [3] then .ok ⟨"", [⟨"post/a", "r1", ""⟩]⟩ else
    if data = [4] then .ok ⟨"", [⟨"post/a", "r1", ""⟩, ⟨"post/b", "r2", ""⟩]⟩ else .error .internal

/-- Every statement gets through. -/
def PersistOutcomes.good : PersistOutcomes := ⟨true, fun _ => none, true, .committed, true⟩

/-- A first record whose head row is not written, and a second record. -/
def rolledBackRun : List StoreCall :=
  [.stage ["r1", "n1", "c1"], .commitPersist "c1" { PersistOutcomes.good with writesHead := false },
    .stage ["r2", "n2", "c2"]]

/-- The second write is reported as persisted, but the first record's block is not in the
table: after a restart the head has lost a record. -/
theorem rolled_back_mark_skips_blocks :
    (commitPersist twoCommits (exec (RepoStore.step twoCommits) (RepoStore.new "did") rolledBackRun)
        "c2" .good).2 = none ∧
      ¬ Persisted twoCommits (exec (RepoStore.step twoCommits) (RepoStore.new "did")
        (rolledBackRun ++ [.commitPersist "c2" .good])) := by
  refine ⟨by decide, fun h => ?_⟩
  have hcar : (exec (RepoStore.step twoCommits) (RepoStore.new "did")
      (rolledBackRun ++ [.commitPersist "c2" .good])).car =
        ["r1", "n1", "c1", "r2", "n2", "c2"] := by decide
  have hhead : (exec (RepoStore.step twoCommits) (RepoStore.new "did")
      (rolledBackRun ++ [.commitPersist "c2" .good])).head = "c2" := by decide
  have hreach : "r1" ∈ twoCommits.reachable ["r1", "n1", "c1", "r2", "n2", "c2"] "c2" :=
    ⟨.record, ((ContentGraph.Reach.root.step (by decide) (by decide)
      : ContentGraph.Reach _ _ _ (BlockRole.node, "n2")).step (by decide) (by decide))⟩
  have hlost := h.blocks "r1" (by rw [hcar]; decide) (by rwa [hcar, hhead])
  exact absurd hlost (by decide)

end Rollback

end MetalBear.Repo
