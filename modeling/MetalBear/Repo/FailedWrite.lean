import MetalBear.Repo.Persistence
import MetalBear.Repo.Writes

/-!
# Failed writes

A write of the repository store that does not return `WF_OK` is meant to leave the store as
it was. For each of the four writes the exact condition is given under which it does: up to
`commit_persist` a failure changes nothing, from there on every failure leaves the new head
in memory.
-/

namespace MetalBear.Repo

/-! ## Calls -/

/-- The writes of the repository store. -/
inductive WriteCall where
  | createRecord (collection : String) (rkey : Option String) (recordJson : String)
      (swapCommit : Option String)
  | putRecord (collection rkey recordJson : String) (swapCommit swapRecord : Option String)
  | deleteRecord (collection rkey : String) (swapCommit swapRecord : Option String)
  | applyWrites (writesJson : String) (swapCommit : Option String)

/-- The end of a write, less what it returns beside the status. -/
def WriteResult.forget {α : Type} (r : WriteResult α) : WriteResult Unit :=
  ⟨r.store, r.returned.map fun _ => (), r.event⟩

/-- A write of the repository store. -/
def RepoStore.write (lib : RepoLibrary) (s : RepoStore) (call : WriteCall) (o : WriteOutcomes) :
    WriteResult Unit :=
  match call with
  | .createRecord collection rkey recordJson swapCommit =>
    (createRecordLocked lib s collection rkey recordJson swapCommit o).forget
  | .putRecord collection rkey recordJson swapCommit swapRecord =>
    (putRecordLocked lib s collection rkey recordJson swapCommit swapRecord o).forget
  | .deleteRecord collection rkey swapCommit swapRecord =>
    (deleteRecordLocked lib s collection rkey swapCommit swapRecord o).forget
  | .applyWrites writesJson swapCommit =>
    (applyWritesLocked lib s writesJson swapCommit o).forget

/-! ## What is claimed of a failed write -/

/-- The repository is exactly as it was, and nothing has been told to the firehose. -/
structure Unchanged (lib : RepoLibrary) (s : RepoStore) (r : WriteResult Unit) : Prop where
  head : r.store.head = s.head
  revOverride : r.store.revOverride = s.revOverride
  rev : getEffectiveRev lib.toBlockLibrary r.store = getEffectiveRev lib.toBlockLibrary s
  headRow : r.store.db.durable.head = s.db.durable.head ∧ r.store.db.view.head = s.db.view.head
  records : r.store.db.durable.records = s.db.durable.records ∧
    r.store.db.view.records = s.db.view.records
  record : ∀ collection rkey,
    storeGetRecord lib r.store collection rkey = storeGetRecord lib s collection rkey
  silent : r.event = none

/-- Every commit that the library builds is a new one: its rev is later than that of the
head it is built on. -/
structure FreshCommits (lib : RepoLibrary) : Prop where
  create : ∀ clock car head collection rkey body commit,
    lib.repoCreateRecord clock car head collection rkey body = .ok commit → commit.commit ≠ head
  update : ∀ clock car head collection rkey body commit,
    lib.repoUpdateRecord clock car head collection rkey body = .ok commit → commit.commit ≠ head
  delete : ∀ clock car head collection rkey commit,
    lib.repoDeleteRecord clock car head collection rkey = .ok commit → commit.commit ≠ head
  apply : ∀ clock car head writes commit,
    lib.repoApplyWrites clock car head writes = .ok commit → commit.commit ≠ head

/-- The statements of `commit_persist` for this commit, the `COMMIT` apart, get through. -/
def Lands (s : RepoStore) (commit : RepoCommit) (o : WriteOutcomes) : Prop :=
  o.persist.Inserts { s with car := s.car ++ commit.blocks } ∧ o.persist.writesHead = true

/-- A batch that gets as far as `commit_persist` gets to its end. -/
def BatchNotLate (lib : RepoLibrary) (s : RepoStore) (writesJson : String)
    (swapCommit : Option String) (o : WriteOutcomes) : Prop :=
  ∀ writes commit, planApplyWrites lib s writesJson swapCommit o = .ok (writes, commit) →
    Lands s commit o ∧ o.allocates 0 = true ∧ o.allocates 1 = true

/-- The results of a batch, read back from their text, end with a URI and a CID. -/
def ResultsRead (lib : RepoLibrary) (s : RepoStore) (writesJson : String) (o : WriteOutcomes) :
    Prop :=
  ∀ writes commit, planApplyWrites lib s writesJson none o = .ok (writes, commit) →
    (lastResult lib <| lib.printJson <| .array <| (writes.zip commit.records).map fun w =>
      writeResultJson s.did w.1 w.2).isSome = true

/-- A write that gets as far as `commit_persist` does not fail from there on: its statements
get through, and there is memory for what it returns. -/
def NotLate (lib : RepoLibrary) (s : RepoStore) (o : WriteOutcomes) : WriteCall → Prop
  | .createRecord collection rkey recordJson swapCommit =>
    ∀ key, checkCreate lib s collection rkey recordJson swapCommit o = .ok key →
      if backlinkConflicts lib s collection key recordJson o = [] then
        ∀ commit, planCreate lib s collection key recordJson o = .ok commit →
          Lands s commit o ∧ o.allocates 0 = true
      else
        ∀ value, lib.parseJson recordJson = some value →
          let text := lib.printJson (cleanupWrites collection key value
            (backlinkConflicts lib s collection key recordJson o))
          (∃ planned, planApplyWrites lib s text none o = .ok planned) →
            BatchNotLate lib s text none o ∧ ResultsRead lib s text o ∧ o.allocates 2 = true
  | .putRecord collection rkey recordJson swapCommit swapRecord =>
    ∀ existing commit, planPut lib s collection rkey recordJson swapCommit swapRecord o =
        .ok (.write existing commit) →
      Lands s commit o ∧ o.allocates 0 = true
  | .deleteRecord collection rkey swapCommit swapRecord =>
    ∀ cid commit, planDelete lib s collection rkey swapCommit swapRecord o = .ok (cid, commit) →
      Lands s commit o
  | .applyWrites writesJson swapCommit => BatchNotLate lib s writesJson swapCommit o

/-! ## Before and after the commit -/

@[simp] theorem head_indexUpsertRecord (lib : RepoLibrary) (s : RepoStore)
    (collection rkey : String) (cid : Cid) (value : String) (writes : Bool) :
    (indexUpsertRecord lib s collection rkey cid value writes).head = s.head := by
  cases writes <;> rfl

@[simp] theorem head_indexDeleteRecord (s : RepoStore) (collection rkey : String)
    (writes : Bool) : (indexDeleteRecord s collection rkey writes).head = s.head := by
  cases writes <;> rfl

@[simp] theorem head_indexWrites (lib : RepoLibrary) (indexes : Nat → Bool) (i : Nat)
    (writes : List (RepoWrite × Cid)) (s : RepoStore) :
    (indexWrites lib indexes i writes s).head = s.head := by
  induction writes generalizing i s with
  | nil => rfl
  | cons w writes ih =>
    simp only [indexWrites, ih]
    split <;> simp

/-- A write that fails before it changes anything leaves everything unchanged. -/
theorem Unchanged.of_eq {lib : RepoLibrary} {s : RepoStore} {r : WriteResult Unit}
    (hstore : r.store = s) (hevent : r.event = none) : Unchanged lib s r := by
  refine ⟨?_, ?_, ?_, ?_, ?_, ?_, hevent⟩ <;> simp [hstore]

/-- Once the head has moved, only success is left. -/
theorem unchanged_iff_of_moved {lib : RepoLibrary} {s : RepoStore} {r : WriteResult Unit}
    (hmoved : r.store.head ≠ s.head) :
    (r.status ≠ .ok → Unchanged lib s r) ↔ r.status = .ok := by
  constructor
  · intro h
    by_contra hstatus
    exact hmoved (h hstatus).head
  · exact fun hok hstatus => absurd hok hstatus

@[simp] theorem status_failed {α : Type} (s : RepoStore) (error : WfError) :
    (WriteResult.failed s error : WriteResult α).status ≠ .ok := error.ne_ok

@[simp] theorem status_forget {α : Type} (r : WriteResult α) : r.forget.status = r.status := by
  rcases r with ⟨store, _ | _, event⟩ <;> rfl

theorem status_ok_iff {α : Type} {r : WriteResult α} :
    r.status = .ok ↔ ∃ a, r.returned = .ok a := by
  rcases r with ⟨store, error | a, event⟩
  · simp [WriteResult.status]
  · simp [WriteResult.status]

/-- What `commit_persist` leaves of a staged commit. -/
theorem persist_staged (lib : RepoLibrary) (s : RepoStore) (commit : RepoCommit)
    (o : WriteOutcomes) :
    ∃ s' error, commitPersist lib.toBlockLibrary { s with car := s.car ++ commit.blocks }
        commit.commit o.persist = (s', error) ∧
      s'.head = commit.commit ∧ (error = none ↔ Lands s commit o) := by
  refine ⟨_, _, rfl, (commitPersist_frame _ _ _ _).1, ?_⟩
  exact commitPersist_returns_iff _ _ _ _

/-- A write of one record moves the head, and succeeds if it is not late. -/
theorem landRecord_spec (lib : RepoLibrary) (s : RepoStore) (collection rkey recordJson : String)
    (commit : RepoCommit) (action : WriteAction) (prev : Option Cid) (o : WriteOutcomes) :
    (landRecord lib s collection rkey recordJson commit action prev o).store.head =
        commit.commit ∧
      ((landRecord lib s collection rkey recordJson commit action prev o).status = .ok ↔
        Lands s commit o ∧ o.allocates 0 = true) := by
  obtain ⟨s', error, hpersist, hhead, hlands⟩ := persist_staged lib s commit o
  rw [landRecord, hpersist]
  cases error with
  | some error =>
    have hnot : ¬ Lands s commit o := fun h => nomatch hlands.mpr h
    simp [hnot, hhead, WriteResult.failed, WriteResult.status]
  | none =>
    have hyes : Lands s commit o := hlands.mp rfl
    cases ha : o.allocates 0 with
    | false => simp [hhead, WriteResult.failed, WriteResult.status]
    | true => simp [hyes, hhead, WriteResult.status]

/-- A batch that cannot be planned changes nothing. -/
theorem applyWritesLocked_error {lib : RepoLibrary} {s : RepoStore} {writesJson : String}
    {swapCommit : Option String} {o : WriteOutcomes} {error : WfError}
    (h : planApplyWrites lib s writesJson swapCommit o = .error error) :
    applyWritesLocked lib s writesJson swapCommit o = .failed s error := by
  rw [applyWritesLocked, h]

/-- A planned batch moves the head, and succeeds if it is not late. -/
theorem applyWritesLocked_spec {lib : RepoLibrary} {s : RepoStore} {writesJson : String}
    {swapCommit : Option String} {o : WriteOutcomes} {writes : List RepoWrite}
    {commit : RepoCommit}
    (h : planApplyWrites lib s writesJson swapCommit o = .ok (writes, commit)) :
    (applyWritesLocked lib s writesJson swapCommit o).store.head = commit.commit ∧
      ((applyWritesLocked lib s writesJson swapCommit o).status = .ok ↔
        Lands s commit o ∧ o.allocates 0 = true ∧ o.allocates 1 = true) ∧
      ∀ applied, (applyWritesLocked lib s writesJson swapCommit o).returned = .ok applied →
        applied.results = lib.printJson (.array ((writes.zip commit.records).map fun w =>
          writeResultJson s.did w.1 w.2)) := by
  obtain ⟨s', error, hpersist, hhead, hlands⟩ := persist_staged lib s commit o
  rw [applyWritesLocked, h]
  simp only [hpersist]
  cases error with
  | some error =>
    have hnot : ¬ Lands s commit o := fun h => nomatch hlands.mpr h
    simp [hnot, hhead, WriteResult.failed, WriteResult.status]
  | none =>
    have hyes : Lands s commit o := hlands.mp rfl
    cases ha : o.allocates 0 with
    | false => simp [hhead, WriteResult.failed, WriteResult.status]
    | true =>
      cases hb : o.allocates 1 with
      | false => simp [hhead, WriteResult.status]
      | true =>
        simp only [Bool.true_eq_false, if_false, head_indexWrites, hhead, WriteResult.status,
          hyes, and_self, true_and, Except.ok.injEq]
        exact fun applied heq => by rw [← heq]

theorem deleteRecordLocked_spec {lib : RepoLibrary} {s : RepoStore} {collection rkey : String}
    {swapCommit swapRecord : Option String} {o : WriteOutcomes} {cid : Cid} {commit : RepoCommit}
    (h : planDelete lib s collection rkey swapCommit swapRecord o = .ok (cid, commit)) :
    (deleteRecordLocked lib s collection rkey swapCommit swapRecord o).store.head =
        commit.commit ∧
      ((deleteRecordLocked lib s collection rkey swapCommit swapRecord o).status = .ok ↔
        Lands s commit o) := by
  obtain ⟨s', error, hpersist, hhead, hlands⟩ := persist_staged lib s commit o
  rw [deleteRecordLocked, h]
  simp only [hpersist]
  cases error with
  | some error =>
    have hnot : ¬ Lands s commit o := fun h => nomatch hlands.mpr h
    simp [hnot, hhead, WriteResult.failed, WriteResult.status]
  | none =>
    have hyes : Lands s commit o := hlands.mp rfl
    simp [hyes, hhead, WriteResult.status]

/-! ## Plans build on the head -/

theorem planCreate_fresh {lib : RepoLibrary} (hfresh : FreshCommits lib) {s : RepoStore}
    {collection rkey recordJson : String} {o : WriteOutcomes} {commit : RepoCommit}
    (h : planCreate lib s collection rkey recordJson o = .ok commit) : commit.commit ≠ s.head := by
  obtain ⟨cbor, -, hcommit⟩ := except_bind_ok h
  exact hfresh.create _ _ _ _ _ _ _ hcommit

theorem planApplyWrites_fresh {lib : RepoLibrary} (hfresh : FreshCommits lib) {s : RepoStore}
    {writesJson : String} {swapCommit : Option String} {o : WriteOutcomes}
    {writes : List RepoWrite} {commit : RepoCommit}
    (h : planApplyWrites lib s writesJson swapCommit o = .ok (writes, commit)) :
    commit.commit ≠ s.head := by
  unfold planApplyWrites at h
  split at h
  · obtain ⟨_, -, h⟩ := except_bind_ok h
    obtain ⟨_, -, h⟩ := except_bind_ok h
    obtain ⟨staged, -, h⟩ := except_bind_ok h
    obtain ⟨built, hbuilt, h⟩ := except_bind_ok h
    cases h
    exact hfresh.apply _ _ _ _ _ hbuilt
  · cases h

theorem planDelete_fresh {lib : RepoLibrary} (hfresh : FreshCommits lib) {s : RepoStore}
    {collection rkey : String} {swapCommit swapRecord : Option String} {o : WriteOutcomes}
    {cid : Cid} {commit : RepoCommit}
    (h : planDelete lib s collection rkey swapCommit swapRecord o = .ok (cid, commit)) :
    commit.commit ≠ s.head := by
  unfold planDelete at h
  obtain ⟨_, -, h⟩ := except_bind_ok h
  obtain ⟨_, -, h⟩ := except_bind_ok h
  obtain ⟨current, -, h⟩ := except_bind_ok h
  obtain ⟨_, -, h⟩ := except_bind_ok h
  obtain ⟨_, -, h⟩ := except_bind_ok h
  obtain ⟨built, hbuilt, h⟩ := except_bind_ok h
  cases h
  exact hfresh.delete _ _ _ _ _ _ hbuilt

theorem planPut_fresh {lib : RepoLibrary} (hfresh : FreshCommits lib) {s : RepoStore}
    {collection rkey recordJson : String} {swapCommit swapRecord : Option String}
    {o : WriteOutcomes} {existing : Option Cid} {commit : RepoCommit}
    (h : planPut lib s collection rkey recordJson swapCommit swapRecord o =
      .ok (.write existing commit)) : commit.commit ≠ s.head := by
  unfold planPut at h
  obtain ⟨_, -, h⟩ := except_bind_ok h
  obtain ⟨_, -, h⟩ := except_bind_ok h
  obtain ⟨_, -, h⟩ := except_bind_ok h
  obtain ⟨found, -, h⟩ := except_bind_ok h
  obtain ⟨_, -, h⟩ := except_bind_ok h
  obtain ⟨_, -, h⟩ := except_bind_ok h
  obtain ⟨cbor, -, h⟩ := except_bind_ok h
  cases found with
  | some cid =>
    dsimp only at h
    split at h
    · cases h
    · obtain ⟨built, hbuilt, h⟩ := except_bind_ok h
      cases h
      exact hfresh.update _ _ _ _ _ _ _ hbuilt
  | none =>
    obtain ⟨built, hbuilt, h⟩ := except_bind_ok h
    cases h
    exact hfresh.create _ _ _ _ _ _ _ hbuilt

/-! ## The four writes -/

theorem failed_write_of_error {lib : RepoLibrary} {α : Type} (s : RepoStore) (error : WfError) :
    Unchanged lib s (WriteResult.failed s error : WriteResult α).forget :=
  .of_eq rfl rfl

theorem applyWrites_unchanged_iff {lib : RepoLibrary} (hfresh : FreshCommits lib) (s : RepoStore)
    (writesJson : String) (swapCommit : Option String) (o : WriteOutcomes) :
    ((s.write lib (.applyWrites writesJson swapCommit) o).status ≠ .ok →
        Unchanged lib s (s.write lib (.applyWrites writesJson swapCommit) o)) ↔
      BatchNotLate lib s writesJson swapCommit o := by
  simp only [RepoStore.write]
  cases hplan : planApplyWrites lib s writesJson swapCommit o with
  | error error =>
    rw [applyWritesLocked_error hplan]
    refine ⟨fun _ writes commit h => ?_, fun _ _ => failed_write_of_error s error⟩
    rw [hplan] at h
    cases h
  | ok planned =>
    obtain ⟨writes, commit⟩ := planned
    obtain ⟨hhead, hstatus, -⟩ := applyWritesLocked_spec hplan
    have hmoved : (applyWritesLocked lib s writesJson swapCommit o).forget.store.head ≠ s.head :=
      hhead ▸ planApplyWrites_fresh hfresh hplan
    rw [unchanged_iff_of_moved hmoved, status_forget, hstatus]
    constructor
    · intro h writes' commit' hplan'
      rw [hplan] at hplan'
      cases hplan'
      exact h
    · exact fun h => h writes commit hplan

theorem deleteRecord_unchanged_iff {lib : RepoLibrary} (hfresh : FreshCommits lib)
    (s : RepoStore) (collection rkey : String) (swapCommit swapRecord : Option String)
    (o : WriteOutcomes) :
    ((s.write lib (.deleteRecord collection rkey swapCommit swapRecord) o).status ≠ .ok →
        Unchanged lib s (s.write lib (.deleteRecord collection rkey swapCommit swapRecord) o)) ↔
      NotLate lib s o (.deleteRecord collection rkey swapCommit swapRecord) := by
  simp only [RepoStore.write, NotLate]
  cases hplan : planDelete lib s collection rkey swapCommit swapRecord o with
  | error error =>
    rw [deleteRecordLocked, hplan]
    exact ⟨fun _ _ _ h => (nomatch h), fun _ _ => failed_write_of_error s error⟩
  | ok planned =>
    obtain ⟨cid, commit⟩ := planned
    obtain ⟨hhead, hstatus⟩ := deleteRecordLocked_spec hplan
    have hmoved : (deleteRecordLocked lib s collection rkey swapCommit swapRecord
        o).forget.store.head ≠ s.head := hhead ▸ planDelete_fresh hfresh hplan
    rw [unchanged_iff_of_moved hmoved, status_forget, hstatus]
    constructor
    · rintro h cid' commit' heq
      cases heq
      exact h
    · exact fun h => h cid commit rfl

theorem putRecord_unchanged_iff {lib : RepoLibrary} (hfresh : FreshCommits lib)
    (s : RepoStore) (collection rkey recordJson : String) (swapCommit swapRecord : Option String)
    (o : WriteOutcomes) :
    ((s.write lib (.putRecord collection rkey recordJson swapCommit swapRecord) o).status ≠ .ok →
        Unchanged lib s
          (s.write lib (.putRecord collection rkey recordJson swapCommit swapRecord) o)) ↔
      NotLate lib s o (.putRecord collection rkey recordJson swapCommit swapRecord) := by
  simp only [RepoStore.write, NotLate]
  cases hplan : planPut lib s collection rkey recordJson swapCommit swapRecord o with
  | error error =>
    rw [putRecordLocked, hplan]
    exact ⟨fun _ _ _ h => (nomatch h), fun _ _ => failed_write_of_error s error⟩
  | ok plan =>
    rw [putRecordLocked, hplan]
    cases plan with
    | unchanged cid =>
      refine ⟨fun _ _ _ h => (nomatch h), fun _ _ => ?_⟩
      cases o.allocates 0 <;> exact .of_eq rfl rfl
    | write existing commit =>
      obtain ⟨hhead, hstatus⟩ := landRecord_spec lib s collection rkey recordJson commit
        (if existing.isSome then .update else .create) existing o
      dsimp only
      have hmoved : (landRecord lib s collection rkey recordJson commit
          (if existing.isSome then .update else .create) existing o).forget.store.head ≠ s.head :=
        hhead ▸ planPut_fresh hfresh hplan
      rw [unchanged_iff_of_moved hmoved, status_forget, hstatus]
      constructor
      · rintro h existing' commit' heq
        cases heq
        exact h
      · exact fun h => h existing commit rfl

/-- The batch of a create with conflicts moves the head, and succeeds if it is not late. -/
theorem cleanup_spec {lib : RepoLibrary} {s : RepoStore} {collection rkey recordJson : String}
    {conflicts : List String} {o : WriteOutcomes} {value : Json}
    {writes : List RepoWrite} {commit : RepoCommit}
    (hvalue : lib.parseJson recordJson = some value)
    (hplan : planApplyWrites lib s
      (lib.printJson (cleanupWrites collection rkey value conflicts)) none o =
        .ok (writes, commit)) :
    let r := createRecordWithBacklinkCleanup lib s collection rkey recordJson conflicts o
    r.store.head = commit.commit ∧ (r.status = .ok ↔
      (Lands s commit o ∧ o.allocates 0 = true ∧ o.allocates 1 = true) ∧
        (lastResult lib <| lib.printJson <| .array <| (writes.zip commit.records).map fun w =>
          writeResultJson s.did w.1 w.2).isSome = true ∧ o.allocates 2 = true) := by
  obtain ⟨hhead, hstatus, hresults⟩ := applyWritesLocked_spec hplan
  simp only [createRecordWithBacklinkCleanup, hvalue]
  rw [← hstatus]
  generalize applyWritesLocked lib s
    (lib.printJson (cleanupWrites collection rkey value conflicts)) none o = r at *
  rcases r with ⟨store, error | applied, event⟩
  · exact ⟨hhead, by simp [WriteResult.status]⟩
  · have hresults := hresults applied rfl
    dsimp only
    rw [hresults]
    cases lastResult lib (lib.printJson (.array ((writes.zip commit.records).map fun w =>
      writeResultJson s.did w.1 w.2))) with
    | none => exact ⟨hhead, by simp [WriteResult.status]⟩
    | some result =>
      cases ha : o.allocates 2 with
      | false => exact ⟨hhead, by simp [WriteResult.status]⟩
      | true => exact ⟨hhead, by simp [WriteResult.status]⟩

theorem createRecord_unchanged_iff {lib : RepoLibrary} (hfresh : FreshCommits lib)
    (s : RepoStore) (collection : String) (rkey : Option String) (recordJson : String)
    (swapCommit : Option String) (o : WriteOutcomes) :
    ((s.write lib (.createRecord collection rkey recordJson swapCommit) o).status ≠ .ok →
        Unchanged lib s (s.write lib (.createRecord collection rkey recordJson swapCommit) o)) ↔
      NotLate lib s o (.createRecord collection rkey recordJson swapCommit) := by
  simp only [RepoStore.write, NotLate]
  cases hcheck : checkCreate lib s collection rkey recordJson swapCommit o with
  | error error =>
    rw [createRecordLocked, hcheck]
    exact ⟨fun _ _ h => (nomatch h), fun _ _ => failed_write_of_error s error⟩
  | ok key =>
    simp only [createRecordLocked, hcheck, Except.ok.injEq, forall_eq']
    by_cases hconflicts : backlinkConflicts lib s collection key recordJson o = []
    · -- the ordinary create
      simp only [hconflicts, ne_eq, not_true_eq_false, if_false, if_true]
      cases hplan : planCreate lib s collection key recordJson o with
      | error error =>
        exact ⟨fun _ _ h => (nomatch h), fun _ _ => failed_write_of_error s error⟩
      | ok commit =>
        obtain ⟨hhead, hstatus⟩ :=
          landRecord_spec lib s collection key recordJson commit .create none o
        have hmoved : (landRecord lib s collection key recordJson commit .create none
            o).forget.store.head ≠ s.head := hhead ▸ planCreate_fresh hfresh hplan
        rw [unchanged_iff_of_moved hmoved, status_forget, hstatus]
        simp only [Except.ok.injEq, forall_eq']
    · -- the batch that clears the conflicts first
      simp only [ne_eq, hconflicts, not_false_eq_true, if_true, if_false]
      cases hvalue : lib.parseJson recordJson with
      | none =>
        rw [createRecordWithBacklinkCleanup, hvalue]
        exact ⟨fun _ _ h => (nomatch h), fun _ _ => failed_write_of_error s .alloc⟩
      | some value =>
        simp only [Option.some.injEq, forall_eq']
        cases hplan : planApplyWrites lib s (lib.printJson (cleanupWrites collection key value
            (backlinkConflicts lib s collection key recordJson o))) none o with
        | error error =>
          simp only [createRecordWithBacklinkCleanup, hvalue, applyWritesLocked_error hplan]
          refine ⟨fun _ h => ?_, fun _ _ => .of_eq rfl rfl⟩
          obtain ⟨planned, h⟩ := h
          cases h
        | ok planned =>
          obtain ⟨writes, commit⟩ := planned
          obtain ⟨hhead, hstatus⟩ := cleanup_spec hvalue hplan
          have hmoved : (createRecordWithBacklinkCleanup lib s collection key recordJson
              (backlinkConflicts lib s collection key recordJson o) o).forget.store.head ≠
              s.head := hhead ▸ planApplyWrites_fresh hfresh hplan
          rw [unchanged_iff_of_moved hmoved, status_forget, hstatus]
          constructor
          · rintro ⟨hlate, hread, halloc⟩ -
            refine ⟨fun writes' commit' h => ?_, fun writes' commit' h => ?_, halloc⟩
            · rw [hplan] at h
              cases h
              exact hlate
            · rw [hplan] at h
              cases h
              exact hread
          · intro h
            obtain ⟨hlate, hread, halloc⟩ := h ⟨_, rfl⟩
            exact ⟨hlate writes commit hplan, hread writes commit hplan, halloc⟩

/-! ## The main result -/

/-- A write that fails leaves the repository as it was exactly if it does not fail late. -/
theorem failedWrite_unchanged_iff (lib : RepoLibrary) (hfresh : FreshCommits lib) (s : RepoStore)
    (call : WriteCall) (o : WriteOutcomes) :
    ((s.write lib call o).status ≠ .ok → Unchanged lib s (s.write lib call o)) ↔
      NotLate lib s o call := by
  cases call with
  | createRecord collection rkey recordJson swapCommit =>
    exact createRecord_unchanged_iff hfresh s collection rkey recordJson swapCommit o
  | putRecord collection rkey recordJson swapCommit swapRecord =>
    exact putRecord_unchanged_iff hfresh s collection rkey recordJson swapCommit swapRecord o
  | deleteRecord collection rkey swapCommit swapRecord =>
    exact deleteRecord_unchanged_iff hfresh s collection rkey swapCommit swapRecord o
  | applyWrites writesJson swapCommit =>
    exact applyWrites_unchanged_iff hfresh s writesJson swapCommit o

/-! ## A failure that is late -/

section LateFailure

/-- The text of a record and its DAG-CBOR block. -/
def exampleText : String := "\x7b\"$type\":\"app.example\"\x7d"

def exampleCbor : List UInt8 :=
  [0xa1, 0x65, 0x24, 0x74, 0x79, 0x70, 0x65, 0x6b, 0x61, 0x70, 0x70, 0x2e, 0x65, 0x78, 0x61,
    0x6d, 0x70, 0x6c, 0x65]

/-- The library, as far as the creation of the first record of a repository needs it. -/
def oneRecord : RepoLibrary where
  content cid := if cid = "c1" then [1] else if cid = "n1" then [2] else exampleCbor
  commitParse data := if data = [1] then some ⟨"rev1", "n1"⟩ else none
  mstNodeParse data :=
    if data = [2] then .ok ⟨"", [⟨"app.example/a", "r1", ""⟩]⟩ else .error .parse
  cidFromString _ := none
  cidToString _ := none
  base64urlDecode _ := none
  base64urlEncode _ := none
  parseJson text :=
    if text = exampleText then some (.object [("$type", .string "app.example")]) else none
  printJson _ := exampleText
  jsonExtract _ _ := none
  cborSerialize item :=
    match item with
    | .map [(some "$type", .string "app.example")] => some exampleCbor
    | _ => none
  cborParse data :=
    if data = exampleCbor then some (.map [(some "$type", .string "app.example")]) else none
  cidOfBlock data := if data = exampleCbor then some "r1" else none
  recordKeyIsValid rkey := rkey == "a"
  repoGetRecord car head collection rkey :=
    if head = "c1" ∧ "c1" ∈ car ∧ collection = "app.example" ∧ rkey = "a" then .ok "r1"
    else .error .notFound
  repoCreateRecord _ _ head collection rkey body :=
    if head = "" ∧ collection = "app.example" ∧ rkey = "a" ∧ body = exampleCbor then
      .ok ⟨["r1", "n1", "c1"], "c1", ["r1"]⟩
    else .error .internal
  repoUpdateRecord _ _ _ _ _ _ := .error .internal
  repoDeleteRecord _ _ _ _ _ := .error .internal
  repoApplyWrites _ _ _ _ := .error .internal

theorem oneRecord_fresh : FreshCommits oneRecord where
  create clock car head collection rkey body commit h := by
    simp only [oneRecord] at h
    split at h
    · next hc =>
      cases h
      rw [hc.1]
      decide
    · cases h
  update _ _ _ _ _ _ _ h := nomatch h
  delete _ _ _ _ _ _ h := nomatch h
  apply _ _ _ _ _ h := nomatch h

/-- Every statement and every allocation gets through. -/
def WriteOutcomes.good : WriteOutcomes where
  clock := 0
  tids _ := none
  conflictsFailAfter := none
  persist := .good
  indexes _ := true
  allocates _ := true
  exportOutcome := ⟨true, none⟩

/-- Everything gets through but the statement that writes the head row. -/
def WriteOutcomes.headLost : WriteOutcomes :=
  { WriteOutcomes.good with persist := { PersistOutcomes.good with writesHead := false } }

/-- The first record of a repository. -/
def firstRecord : WriteCall := .createRecord "app.example" (some "a") exampleText none

/-- A create under a key that is refused, which fails before there is a commit. -/
def refusedRecord : WriteCall := .createRecord "app.example" (some "b") exampleText none

/-- Two writes that fail while the statement for the head row would be lost: the one that is
refused leaves everything as it was, the one that gets as far as the statement does not. -/
theorem failedWrite_unchanged_refused :
    let s := RepoStore.new "did"
    FreshCommits oneRecord ∧ (s.write oneRecord refusedRecord .headLost).status = .invalidArg ∧
      Unchanged oneRecord s (s.write oneRecord refusedRecord .headLost) ∧
      (s.write oneRecord firstRecord .headLost).status = .internal ∧
      ¬ NotLate oneRecord s .headLost firstRecord := by
  intro s
  have hrefused : (s.write oneRecord refusedRecord .headLost).status = .invalidArg := by decide
  have hfailed : (s.write oneRecord firstRecord .headLost).status = .internal := by decide
  refine ⟨oneRecord_fresh, hrefused, ?_, hfailed, fun hnotLate => ?_⟩
  · refine (failedWrite_unchanged_iff oneRecord oneRecord_fresh s refusedRecord .headLost).mpr
      (fun key hcheck => ?_) (by rw [hrefused]; decide)
    have herror : checkCreate oneRecord s "app.example" (some "b") exampleText none .headLost =
        .error .invalidArg := rfl
    rw [herror] at hcheck
    cases hcheck
  · have hsame := (failedWrite_unchanged_iff oneRecord oneRecord_fresh s firstRecord
      .headLost).mpr hnotLate (by rw [hfailed]; decide)
    exact absurd hsame.head (by decide)

/-- The create fails, and yet the store has the new head in memory and serves the record,
while the database has none. -/
theorem late_failure_moves_head :
    let s := RepoStore.new "did"
    let r := s.write oneRecord firstRecord .headLost
    FreshCommits oneRecord ∧ r.status = .internal ∧ r.store.head = "c1" ∧
      r.store.db.view.head = none ∧
      storeGetRecord oneRecord r.store "app.example" "a" = .ok (exampleText, "r1") ∧
      ¬ Unchanged oneRecord s r := by
  intro s r
  have hhead : r.store.head = "c1" := by decide
  refine ⟨oneRecord_fresh, by decide, hhead, by decide, by decide, fun h => ?_⟩
  have hsame := h.head
  rw [hhead] at hsame
  exact absurd hsame (by decide)

end LateFailure

end MetalBear.Repo
