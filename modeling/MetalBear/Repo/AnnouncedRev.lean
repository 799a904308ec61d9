import MetalBear.Library.Machine
import MetalBear.Repo.Import
import MetalBear.Sequencer.Log

/-!
# Announced revs

A repository's rev is kept in two places: inside the signed head commit, and in the override
that an import sets over it. Its readers choose between the two one by one. This file puts
them side by side, over every run of writes, imports, activations, reconciliations and
restarts, and says which announcements and which answers give the rev of the commit.
-/

namespace MetalBear.Repo

open Machine Transaction
open Sequencer (EventType)

/-! ## The readers -/

/-- `metalbear_repo_store_get_head`: the rev and the CID. -/
def storeGetHead (lib : BlockLibrary) (s : RepoStore) : Except WfError (String × Cid) :=
  if s.head = "" then .error .notFound else .ok (getEffectiveRev lib s, s.head)

/-- The `rev` member of `metalbear_repo_store_describe`. -/
def describeRev (lib : BlockLibrary) (s : RepoStore) : Option String :=
  (parseCommitAt lib s s.head).map Commit.rev

/-- `metalbear_repo_store_export_commit`: the one block of the CAR; `written` tells whether
the CAR could be written. -/
def exportCommit (s : RepoStore) (written : Bool) : Except WfError Cid :=
  if s.head = "" ∨ s.head ∉ s.car then .error .notFound
  else if written then .ok s.head else .error .alloc

/-! ## The host -/

/-- A #commit or #sync frame of the repository, as far as revs are concerned. -/
structure Announcement where
  type : EventType
  /-- The root of the frame's CAR. -/
  commitCid : Cid
  rev : String
  since : Option String
  blocks : List Cid
  /-- The rev was read from the block of that very commit. -/
  fromCommit : Bool
  deriving DecidableEq, Repr

/-- What a thread has from `metalbear_repo_store_get_head`, before it exports the commit. -/
structure HeadRead where
  rev : String
  cid : Cid
  /-- It is `metalbear_sequencer_reconcile_repo`, which looks into the log first. -/
  reconciling : Bool
  /-- No override was in force, and the block of the head was found. -/
  fromCommit : Bool
  deriving DecidableEq, Repr

/-- A repository and what the host's log holds of it. -/
structure AnnouncingHost where
  store : RepoStore
  /-- The repository's own frames that are still in the log, oldest first. -/
  log : List Announcement
  /-- Every frame that was ever appended for it. -/
  announced : List Announcement
  reading : Nat → Option HeadRead
  /-- Every head over which an import has set an override, and the override. -/
  overridden : List (Cid × String)

/-- A host that opens the repository over any tables. An override that is in the head row is
taken as set over that head. -/
def AnnouncingHost.new (did : String) (t : Tables) : AnnouncingHost where
  store := storeOpen did t
  log := []
  announced := []
  reading := fun _ => none
  overridden :=
    (t.head.bind fun r => r.revOverride.map fun rev => (r.cid.getD "", rev)).toList

/-- The libraries behind the repository. -/
structure AnnouncingLibrary extends RepoLibrary where
  /-- `wf_car_parse`. -/
  carParse : List UInt8 → Option Car
  /-- `wf_repo_verify`. -/
  repoVerify : Car → String → String → Bool
  /-- `wf_repo_diff_verify`. -/
  repoDiffVerify : List Cid → Cid → Car → String → String → Option RepoDiff

/-- The part of the library that imports call. -/
def AnnouncingLibrary.toImport (lib : AnnouncingLibrary) : ImportLibrary :=
  ⟨lib.toBlockLibrary, lib.carParse, lib.repoVerify, lib.repoDiffVerify⟩

inductive AnnouncingEvent where
  | write (call : WriteCall) (o : WriteOutcomes) (appended : Bool)
  | importRepo (req : ImportRequest) (o : ImportOutcomes)
  /-- A thread in `metalbear_sequencer_account_activation`, past its first two events, or in
  `metalbear_sequencer_reconcile_repo` reads the head. -/
  | readHead (thread : Nat) (reconciling : Bool)
  /-- The thread goes on to the #sync. -/
  | sync (thread : Nat) (written appended : Bool)
  /-- Retention and purging delete frames. -/
  | trim (keeps : Announcement → Bool)
  /-- The store is closed and opened again. -/
  | reopen

/-- The frame that `metalbear_sequencer_repo_event` makes of an event. -/
def CommitEvent.announcement (e : CommitEvent) : Announcement :=
  ⟨.commit, e.commitCid, e.rev, e.since, e.blocks, true⟩

/-- The frame with which an activation or a reconciliation goes on, if there is one. -/
def AnnouncingHost.syncFrame (s : AnnouncingHost) (r : HeadRead) (written : Bool) :
    Option Announcement :=
  if r.reconciling ∧ s.log.getLast?.map Announcement.rev = some r.rev then none
  else
    match exportCommit s.store written with
    | .error _ => none
    | .ok cid => some ⟨.sync, cid, r.rev, none, [cid], r.fromCommit && r.cid == cid⟩

/-- The frame that an event appends for the repository. -/
def AnnouncingHost.appends (lib : AnnouncingLibrary) (s : AnnouncingHost) :
    AnnouncingEvent → Option Announcement
  | .write call o appended =>
    if appended then (s.store.write lib.toRepoLibrary call o).event.map CommitEvent.announcement
    else none
  | .sync thread written appended =>
    if appended then (s.reading thread).bind fun r => s.syncFrame r written else none
  | _ => none

/-- What an event does to the store. -/
def AnnouncingHost.nextStore (lib : AnnouncingLibrary) (s : AnnouncingHost) :
    AnnouncingEvent → RepoStore
  | .write call o _ => (s.store.write lib.toRepoLibrary call o).store
  | .importRepo req o => (Repo.importRepo lib.toImport s.store req o).store
  | .reopen => s.store.reopen
  | _ => s.store

/-- What becomes of the heads that the threads have read. -/
def AnnouncingHost.nextReading (lib : AnnouncingLibrary) (s : AnnouncingHost) :
    AnnouncingEvent → Nat → Option HeadRead
  | .readHead thread reconciling =>
    match storeGetHead lib.toBlockLibrary s.store with
    | .error _ => s.reading
    | .ok (rev, cid) => Function.update s.reading thread
        (some ⟨rev, cid, reconciling, s.store.revOverride.isNone && decide (cid ∈ s.store.car)⟩)
  | .sync thread _ _ => Function.update s.reading thread none
  | .reopen => fun _ => none
  | _ => s.reading

/-- The override that an event sets, with the head it is set over. -/
def AnnouncingHost.overrides (lib : AnnouncingLibrary) (s : AnnouncingHost)
    (ev : AnnouncingEvent) : List (Cid × String) :=
  match ev with
  | .importRepo req o =>
    let r := Repo.importRepo lib.toImport s.store req o
    (r.setRev.map fun rev => (r.store.head, rev)).toList
  | _ => []

/-- One event. -/
def AnnouncingHost.step (lib : AnnouncingLibrary) (s : AnnouncingHost) (ev : AnnouncingEvent) :
    AnnouncingHost where
  store := s.nextStore lib ev
  log := match ev with
    | .trim keeps => s.log.filter keeps
    | _ => s.log ++ (s.appends lib ev).toList
  announced := s.announced ++ (s.appends lib ev).toList
  reading := s.nextReading lib ev
  overridden := s.overridden ++ s.overrides lib ev

/-! ## What is claimed of an event -/

/-- The rev is the one inside the commit. -/
def RevOf (lib : BlockLibrary) (cid : Cid) (rev : String) : Prop :=
  ∀ commit, lib.commitParse (lib.content cid) = some commit → rev = commit.rev

/-- Both readers of the head report the rev inside its commit. -/
def ReportsCommitRev (lib : BlockLibrary) (s : RepoStore) : Prop :=
  ∀ commit, parseCommitAt lib s s.head = some commit →
    storeGetHead lib s = .ok (commit.rev, s.head) ∧ describeRev lib s = some commit.rev

/-- Every frame has the rev of its commit, a #commit follows on the rev that was announced
for its predecessor, and the readers report that rev too. -/
structure AnnouncesCommitRev (lib : AnnouncingLibrary) (s : AnnouncingHost)
    (ev : AnnouncingEvent) : Prop where
  rev : ∀ f ∈ s.appends lib ev, RevOf lib.toBlockLibrary f.commitCid f.rev
  since : ∀ f ∈ s.appends lib ev, f.type = .commit →
    ∀ g ∈ s.announced, g.commitCid = s.store.head → f.since = some g.rev
  reports : ReportsCommitRev lib.toBlockLibrary (s.step lib ev).store

/-- The same, but for what comes of an override and of a head that moves in between. -/
structure AnnouncesOwnRev (lib : AnnouncingLibrary) (s : AnnouncingHost) (ev : AnnouncingEvent) :
    Prop where
  /-- A #commit has the rev of its commit, and so has a #sync whose rev was read from the
  commit that it carries. -/
  rev : ∀ f ∈ s.appends lib ev, f.type = .commit ∨ f.fromCommit = true →
    RevOf lib.toBlockLibrary f.commitCid f.rev
  /-- A #commit is about the new head and follows on the rev inside the old one. -/
  follows : ∀ f ∈ s.appends lib ev, f.type = .commit → f.commitCid = (s.step lib ev).store.head ∧
    ∀ commit, parseCommitAt lib.toBlockLibrary s.store s.store.head = some commit →
      f.since = some commit.rev
  /-- Which is the rev in every announcement of the old one that was read from it. -/
  since : ∀ f ∈ s.appends lib ev, f.type = .commit → ∀ rev ∈ f.since,
    ∀ g ∈ s.announced, g.fromCommit = true → g.commitCid = s.store.head → rev = g.rev
  /-- Without an override the readers report the rev of the commit. -/
  reports : (s.step lib ev).store.revOverride = none →
    ReportsCommitRev lib.toBlockLibrary (s.step lib ev).store
  /-- With one `get_head` reports the override, and the head is one that an import set it
  over. -/
  overridden : ∀ rev ∈ (s.step lib ev).store.revOverride,
    ((s.step lib ev).store.head, rev) ∈ (s.step lib ev).overridden ∧
      ((s.step lib ev).store.head ≠ "" → storeGetHead lib.toBlockLibrary (s.step lib ev).store =
        .ok (rev, (s.step lib ev).store.head))

/-! ## What a write leaves -/

/-- The store but for its `records` table. -/
structure Indexed (s s' : RepoStore) : Prop where
  head : s'.head = s.head
  car : s'.car = s.car
  revOverride : s'.revOverride = s.revOverride
  rows : ∀ p, HeadRows p s.db → HeadRows p s'.db

theorem Indexed.refl (s : RepoStore) : Indexed s s := ⟨rfl, rfl, rfl, fun _ h => h⟩

theorem Indexed.trans {s s' s'' : RepoStore} (h : Indexed s s') (h' : Indexed s' s'') :
    Indexed s s'' :=
  ⟨h'.head.trans h.head, h'.car.trans h.car, h'.revOverride.trans h.revOverride,
    fun p hp => h'.rows p (h.rows p hp)⟩

theorem indexed_upsert (lib : RepoLibrary) (s : RepoStore) (collection rkey : String) (cid : Cid)
    (value : String) (writes : Bool) :
    Indexed s (indexUpsertRecord lib s collection rkey cid value writes) := by
  refine ⟨?_, ?_, ?_, fun p hp => hp.indexUpsertRecord ..⟩ <;> cases writes <;> rfl

theorem indexed_delete (s : RepoStore) (collection rkey : String) (writes : Bool) :
    Indexed s (indexDeleteRecord s collection rkey writes) := by
  refine ⟨?_, ?_, ?_, fun p hp => hp.indexDeleteRecord ..⟩ <;> cases writes <;> rfl

theorem indexed_writes (lib : RepoLibrary) (indexes : Nat → Bool) (i : Nat)
    (writes : List (RepoWrite × Cid)) (s : RepoStore) :
    Indexed s (indexWrites lib indexes i writes s) := by
  induction writes generalizing i s with
  | nil => exact .refl s
  | cons w writes ih =>
    rw [indexWrites]
    refine Indexed.trans ?_ (ih (i + 1) _)
    split
    · exact indexed_delete ..
    · exact indexed_upsert ..

/-- The event is about the head of the store and about its predecessor. -/
structure About (lib : BlockLibrary) (store : RepoStore) (oldHead : Cid) (e : CommitEvent) :
    Prop where
  commitCid : e.commitCid = store.head
  rev : ∃ commit, parseCommitAt lib store store.head = some commit ∧ e.rev = commit.rev
  since : e.since = (parseCommitAt lib store oldHead).map Commit.rev

theorem about_of_emitted {lib : RepoLibrary} {s : RepoStore} {oldHead : Cid} {ops : List RepoOp}
    {o : ExportOutcome} {e : CommitEvent} (h : emitCommitEventOps lib s oldHead ops o = some e) :
    About lib.toBlockLibrary s oldHead e := by
  simp only [emitCommitEventOps, Option.bind_eq_bind, Option.bind_eq_some_iff] at h
  obtain ⟨current, hcurrent, blocks, -, heq⟩ := h
  cases heq
  exact ⟨rfl, ⟨current, hcurrent, rfl⟩, rfl⟩

/-- What a write may leave: the store as it was, or a new head without an override and an
event about it at most. -/
inductive WriteEffect (lib : BlockLibrary) (s : RepoStore) :
    RepoStore → Option CommitEvent → Prop
  | unchanged : WriteEffect lib s s none
  | moved {store event} (blocks : List Cid) : store.car = s.car ++ blocks →
    store.revOverride = none →
    (∀ p, HeadRows p s.db → p (some ⟨if store.head = "" then none else some store.head, none⟩) →
      HeadRows p store.db) →
    (∀ e ∈ event, About lib store s.head e) → WriteEffect lib s store event

section Effects

variable (lib : RepoLibrary) (s : RepoStore) (o : WriteOutcomes)

/-- After `commit_persist`, whatever it returned, and with the records indexed. -/
theorem writeEffect_persisted {s' store : RepoStore} {error : Option WfError}
    {commit : RepoCommit} {event : Option CommitEvent}
    (hpersist : commitPersist lib.toBlockLibrary { s with car := s.car ++ commit.blocks }
      commit.commit o.persist = (s', error))
    (hindexed : Indexed s' store)
    (hevent : ∀ e ∈ event, About lib.toBlockLibrary store s.head e) :
    WriteEffect lib.toBlockLibrary s store event := by
  obtain ⟨hhead, hover, hcar, -⟩ := commitPersist_frame lib.toBlockLibrary
    { s with car := s.car ++ commit.blocks } commit.commit o.persist
  rw [hpersist] at hhead hover hcar
  refine .moved commit.blocks (hindexed.car.trans hcar) (hindexed.revOverride.trans hover) ?_ hevent
  intro p hp hnew
  rw [hindexed.head, hhead] at hnew
  have hdb := HeadRows.commitPersist (s := { s with car := s.car ++ commit.blocks }) hp
    lib.toBlockLibrary commit.commit o.persist hnew
  rw [hpersist] at hdb
  exact hindexed.rows p hdb

/-- A write that fails after its commit was persisted announces nothing. -/
theorem writeEffect_failed {α : Type} {s' : RepoStore} {e : WfError} {error : Option WfError}
    {commit : RepoCommit}
    (hpersist : commitPersist lib.toBlockLibrary { s with car := s.car ++ commit.blocks }
      commit.commit o.persist = (s', error)) :
    WriteEffect lib.toBlockLibrary s (WriteResult.failed (α := α) s' e).store
      (WriteResult.failed (α := α) s' e).event :=
  writeEffect_persisted lib s o hpersist (.refl s') (by simp [WriteResult.failed])

theorem landRecord_effect (collection rkey recordJson : String) (commit : RepoCommit)
    (action : WriteAction) (prev : Option Cid) :
    WriteEffect lib.toBlockLibrary s
      (landRecord lib s collection rkey recordJson commit action prev o).store
      (landRecord lib s collection rkey recordJson commit action prev o).event := by
  rw [landRecord]
  split
  · next s' error hpersist => exact writeEffect_failed lib s o hpersist
  · next s' hpersist =>
    split
    · exact writeEffect_failed lib s o hpersist
    · exact writeEffect_persisted lib s o hpersist (indexed_upsert ..) fun e he =>
        about_of_emitted he

theorem applyWritesLocked_effect (writesJson : String) (swapCommit : Option String) :
    WriteEffect lib.toBlockLibrary s (applyWritesLocked lib s writesJson swapCommit o).store
      (applyWritesLocked lib s writesJson swapCommit o).event := by
  rw [applyWritesLocked]
  split
  · exact .unchanged
  · next writes commit hplan =>
    split
    · next s' error hpersist => exact writeEffect_failed lib s o hpersist
    · next s' hpersist =>
      split
      · exact writeEffect_failed lib s o hpersist
      · dsimp only
        split
        · exact writeEffect_persisted lib s o hpersist (indexed_writes ..) fun e he =>
            about_of_emitted he
        · exact writeEffect_persisted lib s o hpersist (indexed_writes ..) fun e he =>
            about_of_emitted he

theorem createRecord_effect (collection : String) (rkey : Option String) (recordJson : String)
    (swapCommit : Option String) :
    WriteEffect lib.toBlockLibrary s
      (createRecordLocked lib s collection rkey recordJson swapCommit o).store
      (createRecordLocked lib s collection rkey recordJson swapCommit o).event := by
  rw [createRecordLocked]
  split
  · exact .unchanged
  · next key hkey =>
    dsimp only
    split
    · -- The batch that clears the conflicts first.
      rw [createRecordWithBacklinkCleanup]
      split
      · exact .unchanged
      · dsimp only
        split
        · exact applyWritesLocked_effect lib s o _ _
        · split
          · exact applyWritesLocked_effect lib s o _ _
          · split
            · exact applyWritesLocked_effect lib s o _ _
            · exact applyWritesLocked_effect lib s o _ _
    · split
      · exact .unchanged
      · exact landRecord_effect lib s o ..

theorem putRecord_effect (collection rkey recordJson : String)
    (swapCommit swapRecord : Option String) :
    WriteEffect lib.toBlockLibrary s
      (putRecordLocked lib s collection rkey recordJson swapCommit swapRecord o).store
      (putRecordLocked lib s collection rkey recordJson swapCommit swapRecord o).event := by
  rw [putRecordLocked]
  split
  · exact .unchanged
  · split
    · exact .unchanged
    · exact .unchanged
  · exact landRecord_effect lib s o ..

theorem deleteRecord_effect (collection rkey : String) (swapCommit swapRecord : Option String) :
    WriteEffect lib.toBlockLibrary s
      (deleteRecordLocked lib s collection rkey swapCommit swapRecord o).store
      (deleteRecordLocked lib s collection rkey swapCommit swapRecord o).event := by
  rw [deleteRecordLocked]
  split
  · exact .unchanged
  · next cid commit hplan =>
    split
    · next s' error hpersist => exact writeEffect_failed lib s o hpersist
    · next s' hpersist =>
      exact writeEffect_persisted lib s o hpersist (indexed_delete ..) fun e he =>
        about_of_emitted he

/-- Every write of the repository store. -/
theorem write_effect (call : WriteCall) :
    WriteEffect lib.toBlockLibrary s (s.write lib call o).store (s.write lib call o).event := by
  cases call with
  | createRecord collection rkey recordJson swapCommit =>
    exact createRecord_effect lib s o collection rkey recordJson swapCommit
  | putRecord collection rkey recordJson swapCommit swapRecord =>
    exact putRecord_effect lib s o collection rkey recordJson swapCommit swapRecord
  | deleteRecord collection rkey swapCommit swapRecord =>
    exact deleteRecord_effect lib s o collection rkey swapCommit swapRecord
  | applyWrites writesJson swapCommit =>
    exact applyWritesLocked_effect lib s o writesJson swapCommit

end Effects

/-! ## Revs and the blocks they are read from -/

theorem parseCommitAt_eq_some {lib : BlockLibrary} {s : RepoStore} {cid : Cid} {commit : Commit}
    (h : parseCommitAt lib s cid = some commit) :
    cid ≠ "" ∧ cid ∈ s.car ∧ lib.commitParse (lib.content cid) = some commit := by
  rw [parseCommitAt] at h
  split at h
  · cases h
  · next hne =>
    obtain ⟨data, hfind, hparse⟩ := Option.bind_eq_some_iff.mp h
    rw [BlockLibrary.findBlock] at hfind
    split at hfind
    · next hmem =>
      cases hfind
      exact ⟨hne, hmem, hparse⟩
    · cases hfind

theorem parseCommitAt_of_mem {lib : BlockLibrary} {s : RepoStore} {cid : Cid} (hne : cid ≠ "")
    (h : cid ∈ s.car) : parseCommitAt lib s cid = lib.commitParse (lib.content cid) := by
  simp [parseCommitAt, BlockLibrary.findBlock, hne, h]

/-- What the event of a write says is true of the blocks themselves. -/
theorem About.revOf {lib : BlockLibrary} {store : RepoStore} {oldHead : Cid} {e : CommitEvent}
    (h : About lib store oldHead e) : RevOf lib e.commitCid e.rev := by
  obtain ⟨commit, hparse, hrev⟩ := h.rev
  intro commit' hparse'
  rw [h.commitCid, (parseCommitAt_eq_some hparse).2.2] at hparse'
  cases hparse'
  exact hrev

theorem About.since_revOf {lib : BlockLibrary} {store : RepoStore} {oldHead : Cid}
    {e : CommitEvent} (h : About lib store oldHead e) {rev rev' : String} (hrev : rev ∈ e.since)
    (hrev' : RevOf lib oldHead rev') : rev = rev' := by
  rw [h.since, Option.mem_map] at hrev
  obtain ⟨commit, hparse, rfl⟩ := hrev
  exact (hrev' commit (parseCommitAt_eq_some hparse).2.2).symm

/-- Without an override both readers go to the head commit. -/
theorem reportsCommitRev_of_none {lib : BlockLibrary} {s : RepoStore}
    (h : s.revOverride = none) : ReportsCommitRev lib s := by
  intro commit hparse
  have hne := (parseCommitAt_eq_some hparse).1
  simp [storeGetHead, describeRev, getEffectiveRev, h, hparse, hne]

/-! ## The bookkeeping of overrides -/

/-- An override in a head row is one that was set over the head of that row. -/
def SetOver (overridden : List (Cid × String)) (row : Option HeadRow) : Prop :=
  ∀ r ∈ row, ∀ rev ∈ r.revOverride, (r.cid.getD "", rev) ∈ overridden

theorem setOver_none {overridden : List (Cid × String)} (cid : Option Cid) :
    SetOver overridden (some ⟨cid, none⟩) := by
  simp [SetOver]

theorem SetOver.mono {overridden overridden' : List (Cid × String)} {row : Option HeadRow}
    (h : SetOver overridden row) (hsub : overridden ⊆ overridden') : SetOver overridden' row :=
  fun r hr rev hrev => hsub (h r hr rev hrev)

/-- What every run keeps. -/
structure Tracked (lib : AnnouncingLibrary) (s : AnnouncingHost) : Prop where
  announced : ∀ f ∈ s.announced, f.fromCommit = true → RevOf lib.toBlockLibrary f.commitCid f.rev
  reading : ∀ thread r, s.reading thread = some r → r.fromCommit = true →
    RevOf lib.toBlockLibrary r.cid r.rev
  overridden : ∀ rev ∈ s.store.revOverride, (s.store.head, rev) ∈ s.overridden
  rows : HeadRows (SetOver s.overridden) s.store.db

section Steps

variable {lib : AnnouncingLibrary} {s : AnnouncingHost}

/-- A rev that was read from a commit is the one inside it. -/
theorem revOf_getHead {r : HeadRead} (hread : storeGetHead lib.toBlockLibrary s.store =
    .ok (r.rev, r.cid)) (hcommit : (s.store.revOverride.isNone && decide (r.cid ∈ s.store.car)) =
      true) : RevOf lib.toBlockLibrary r.cid r.rev := by
  simp only [Bool.and_eq_true, Option.isNone_iff_eq_none, decide_eq_true_eq] at hcommit
  rw [storeGetHead] at hread
  split at hread
  · cases hread
  · next hne =>
    simp only [Except.ok.injEq, Prod.mk.injEq] at hread
    obtain ⟨hrev, hcid⟩ := hread
    intro commit hparse
    rw [← hcid] at hcommit hparse
    rw [← hrev, getEffectiveRev, hcommit.1]
    simp [parseCommitAt_of_mem hne hcommit.2, hparse]

/-- Where a frame comes from. -/
theorem appends_cases {ev : AnnouncingEvent} {f : Announcement} (h : f ∈ s.appends lib ev) :
    (∃ call o appended e, ev = .write call o appended ∧
        e ∈ (s.store.write lib.toRepoLibrary call o).event ∧ f = e.announcement) ∨
      (∃ thread written appended r, ev = .sync thread written appended ∧
        s.reading thread = some r ∧ f.type = .sync ∧ f.rev = r.rev ∧
        f.fromCommit = (r.fromCommit && r.cid == f.commitCid)) := by
  cases ev with
  | write call o appended =>
    simp only [AnnouncingHost.appends, Option.mem_def] at h
    split at h
    · obtain ⟨e, he, rfl⟩ := Option.map_eq_some_iff.mp h
      exact Or.inl ⟨call, o, appended, e, rfl, he, rfl⟩
    · cases h
  | sync thread written appended =>
    simp only [AnnouncingHost.appends, Option.mem_def] at h
    split at h
    · obtain ⟨r, hr, hframe⟩ := Option.bind_eq_some_iff.mp h
      rw [AnnouncingHost.syncFrame] at hframe
      split at hframe
      · cases hframe
      · split at hframe
        · cases hframe
        · cases hframe
          exact Or.inr ⟨thread, written, appended, r, rfl, hr, rfl, rfl, rfl⟩
    · cases h
  | importRepo req o => cases h
  | readHead thread reconciling => cases h
  | trim keeps => cases h
  | reopen => cases h

/-- The frames that were read from their commit have its rev. -/
theorem Tracked.appends_rev (h : Tracked lib s) {ev : AnnouncingEvent} {f : Announcement}
    (hf : f ∈ s.appends lib ev) (hcommit : f.type = .commit ∨ f.fromCommit = true) :
    RevOf lib.toBlockLibrary f.commitCid f.rev := by
  obtain ⟨call, o, appended, e, rfl, he, rfl⟩ | ⟨thread, written, appended, r, rfl, hr, ht, hrev,
    hfrom⟩ := appends_cases hf
  · have heffect := write_effect lib.toRepoLibrary s.store o call
    revert he heffect
    generalize (s.store.write lib.toRepoLibrary call o).event = event
    generalize (s.store.write lib.toRepoLibrary call o).store = store
    intro he heffect
    cases heffect with
    | unchanged => cases he
    | moved blocks hcar hover hrows habout => exact (habout e he).revOf
  · have htrue : f.fromCommit = true := by
      rcases hcommit with hcommit | hcommit
      · rw [ht] at hcommit
        cases hcommit
      · exact hcommit
    rw [hfrom, Bool.and_eq_true, beq_iff_eq] at htrue
    rw [hrev, ← htrue.2]
    exact h.reading thread r hr htrue.1

/-- The override and the head rows after an event. -/
theorem Tracked.nextStore (h : Tracked lib s) (ev : AnnouncingEvent) :
    (∀ rev ∈ (s.step lib ev).store.revOverride,
        ((s.step lib ev).store.head, rev) ∈ (s.step lib ev).overridden) ∧
      HeadRows (SetOver (s.step lib ev).overridden) (s.step lib ev).store.db := by
  simp only [AnnouncingHost.step]
  have hkeep : (∀ rev ∈ s.store.revOverride, (s.store.head, rev) ∈ s.overridden ++ []) ∧
      HeadRows (SetOver (s.overridden ++ [])) s.store.db := by
    rw [List.append_nil]
    exact ⟨h.overridden, h.rows⟩
  cases ev with
  | readHead thread reconciling => exact hkeep
  | sync thread written appended => exact hkeep
  | trim keeps => exact hkeep
  | reopen =>
    simp only [AnnouncingHost.nextStore, AnnouncingHost.overrides, List.append_nil,
      RepoStore.reopen, storeOpen]
    refine ⟨fun rev hrev => ?_, h.rows.1, by simp [Db.fresh]⟩
    obtain ⟨row, hrow, hover⟩ := Option.bind_eq_some_iff.mp hrev
    simpa [hrow] using h.rows.1 row hrow rev hover
  | write call o appended =>
    simp only [AnnouncingHost.nextStore, AnnouncingHost.overrides, List.append_nil]
    have heffect := write_effect lib.toRepoLibrary s.store o call
    revert heffect
    generalize (s.store.write lib.toRepoLibrary call o).event = event
    generalize (s.store.write lib.toRepoLibrary call o).store = store
    intro heffect
    cases heffect with
    | unchanged => exact ⟨h.overridden, h.rows⟩
    | moved blocks hcar hover hrows habout =>
      refine ⟨fun rev hrev => ?_, hrows _ h.rows (setOver_none _)⟩
      rw [hover] at hrev
      cases hrev
  | importRepo req o =>
    simp only [AnnouncingHost.nextStore, AnnouncingHost.overrides]
    obtain ⟨car, hstore, hset⟩ | ⟨car, newHead, hadopt⟩ :=
      importRepo_cases lib.toImport s.store req o
    · rw [hstore, hset]
      simpa using And.intro h.overridden h.rows
    · rw [hadopt]
      obtain ⟨hhead, hover⟩ := adoptCommit_frame lib.toImport { s.store with car } newHead o
      rw [hhead, hover]
      generalize hset : (adoptCommit lib.toImport { s.store with car } newHead o).setRev = set
      have hgrown : HeadRows (SetOver (s.overridden ++ (set.map fun rev =>
          (newHead, rev)).toList)) s.store.db :=
        ⟨h.rows.1.mono (List.subset_append_left _ _), fun t ht =>
          (h.rows.2 t ht).mono (List.subset_append_left _ _)⟩
      refine ⟨fun rev hrev => ?_, ?_⟩
      · rw [Option.mem_def] at hrev
        simp [hrev]
      · refine HeadRows.adoptCommit (s := { s.store with car }) hgrown lib.toImport newHead o
          (setOver_none _) fun rev hrev => ?_
        rw [hset] at hrev
        have hcid : (if newHead = "" then none else some newHead).getD "" = newHead := by
          split <;> simp_all
        simp [SetOver, hcid, hrev]

theorem Tracked.step (h : Tracked lib s) (ev : AnnouncingEvent) : Tracked lib (s.step lib ev) := by
  obtain ⟨hover, hrows⟩ := h.nextStore ev
  refine ⟨fun f hf hcommit => ?_, fun thread r hr hcommit => ?_, hover, hrows⟩
  · rcases List.mem_append.mp hf with hf | hf
    · exact h.announced f hf hcommit
    · exact h.appends_rev (Option.mem_toList.mp hf) (Or.inr hcommit)
  · have hold : ∀ thread', (if thread = thread' then none else s.reading thread) = some r →
        RevOf lib.toBlockLibrary r.cid r.rev := by
      intro thread' hr
      split at hr
      · cases hr
      · exact h.reading thread r hr hcommit
    cases ev with
    | readHead thread' reconciling =>
      simp only [AnnouncingHost.step, AnnouncingHost.nextReading] at hr
      cases hread : storeGetHead lib.toBlockLibrary s.store with
      | error error =>
        rw [hread] at hr
        exact h.reading thread r hr hcommit
      | ok read =>
        simp only [hread, Function.update_apply] at hr
        split at hr
        · cases hr
          exact revOf_getHead hread hcommit
        · exact h.reading thread r hr hcommit
    | sync thread' written appended =>
      simp only [AnnouncingHost.step, AnnouncingHost.nextReading, Function.update_apply] at hr
      exact hold thread' hr
    | reopen => cases hr
    | write call o appended => exact h.reading thread r hr hcommit
    | importRepo req o => exact h.reading thread r hr hcommit
    | trim keeps => exact h.reading thread r hr hcommit

/-- Every event announces its own commit's rev, but for what comes of an override. -/
theorem Tracked.announces (h : Tracked lib s) (ev : AnnouncingEvent) :
    AnnouncesOwnRev lib s ev := by
  obtain ⟨hover, hrows⟩ := h.nextStore ev
  -- A #commit frame is made of the event of a write.
  have habout : ∀ f ∈ s.appends lib ev, f.type = .commit → ∃ e : CommitEvent,
      f = e.announcement ∧ About lib.toBlockLibrary (s.step lib ev).store s.store.head e ∧
        s.store.car ⊆ (s.step lib ev).store.car := by
    intro f hf htype
    obtain ⟨call, o, appended, e, rfl, he, rfl⟩ | ⟨thread, written, appended, r, rfl, hr, ht, -, -⟩ :=
      appends_cases hf
    · have heffect := write_effect lib.toRepoLibrary s.store o call
      simp only [AnnouncingHost.step, AnnouncingHost.nextStore]
      revert he heffect
      generalize (s.store.write lib.toRepoLibrary call o).event = event
      generalize (s.store.write lib.toRepoLibrary call o).store = store
      intro he heffect
      cases heffect with
      | unchanged => cases he
      | moved blocks hcar hover hrows habout =>
        exact ⟨e, rfl, habout e he, hcar ▸ List.subset_append_left _ _⟩
    · rw [ht] at htype
      cases htype
  refine ⟨fun f hf hcommit => h.appends_rev hf hcommit, fun f hf htype => ?_,
    fun f hf htype rev hrev g hg hfrom hpred => ?_, reportsCommitRev_of_none,
    fun rev hrev => ⟨hover rev hrev, fun hne => ?_⟩⟩
  · obtain ⟨e, rfl, habout, hcar⟩ := habout f hf htype
    refine ⟨habout.commitCid, fun commit hparse => ?_⟩
    obtain ⟨hne, hmem, hcontent⟩ := parseCommitAt_eq_some hparse
    simp [CommitEvent.announcement, habout.since, parseCommitAt_of_mem hne (hcar hmem), hcontent]
  · obtain ⟨e, rfl, habout, -⟩ := habout f hf htype
    exact habout.since_revOf hrev (hpred ▸ h.announced g hg hfrom)
  · rw [Option.mem_def] at hrev
    simp [storeGetHead, hne, getEffectiveRev, hrev]

end Steps

/-- Over every run from an opened repository, with writes, imports, activations and
reconciliations in any interleaving, restarts and trimming of the log: every announced rev
that was read from a commit is the rev inside the commit that it is announced with, every
#commit follows on its predecessor's, and the readers agree as long as no override is in
force; an override is only ever in force over the head that an import set it over. -/
theorem announcements_have_own_rev (lib : AnnouncingLibrary) (did : String) (t : Tables)
    (events : List AnnouncingEvent) :
    Steps (AnnouncingHost.step lib) (AnnouncesOwnRev lib) (.new did t) events := by
  refine steps_of_invariant (J := Tracked lib) ?_ (fun s ev h => h.step ev)
    fun s ev h => h.announces ev
  refine ⟨by simp [AnnouncingHost.new], by simp [AnnouncingHost.new], ?_, ?_,
    by simp [AnnouncingHost.new, storeOpen, Db.fresh]⟩
  · intro rev hrev
    obtain ⟨row, hrow, hover⟩ := Option.bind_eq_some_iff.mp hrev
    simp [AnnouncingHost.new, storeOpen, hrow, hover]
  · intro row hrow rev hrev
    simp only [AnnouncingHost.new, storeOpen, Db.durable_fresh, Option.mem_def] at hrow hrev
    simp [AnnouncingHost.new, hrow, hrev]

/-! ## An override that is announced -/

section Imported

/-- The library of one record, with a CAR of its first commit. -/
def importedRecord : AnnouncingLibrary :=
  { oneRecord with
    carParse _ := some ⟨["c1"], ["r1", "n1", "c1"]⟩
    repoVerify _ _ _ := true
    repoDiffVerify _ _ _ _ _ := none }

/-- The import of that CAR into a repository without a commit. -/
def firstImport : AnnouncingEvent :=
  .importRepo ⟨true, 0, [0], "did:key:local"⟩
    ⟨none, true, some "did:key:published", fun _ => true, .good, fun _ => [], some "rev9", true,
      true⟩

/-- The account is activated after the import: its #sync carries the imported commit, whose rev
is `rev1`, under the rev of the override. -/
theorem activation_announces_override :
    ¬ Steps (AnnouncingHost.step importedRecord) (AnnouncesCommitRev importedRecord)
      (.new "did" ⟨[], none, []⟩) [firstImport, .readHead 0 false, .sync 0 true true] := by
  rintro ⟨-, -, hsync, -⟩
  have hframe : (⟨.sync, "c1", "rev9", none, ["c1"], false⟩ : Announcement) ∈
      (exec (AnnouncingHost.step importedRecord) (.new "did" ⟨[], none, []⟩)
        [firstImport, .readHead 0 false]).appends importedRecord (.sync 0 true true) := by
    decide
  exact absurd (hsync.rev _ hframe ⟨"rev1", "n1"⟩ (by decide)) (by decide)

end Imported

end MetalBear.Repo
