import MetalBear.Repo.BatchTree
import MetalBear.Repo.SingleWrite

/-!
# Blob associations after a batch

What `applyWrites` and `createRecord` do to the associations of the blobs, beside what they do
to the records: when the records that a blob is associated with are still those that name it.
-/

namespace MetalBear.Repo

open KeyedWrites Machine RefCount

/-! ## What is claimed, and when it holds -/

/-- The blob is stored, and associated with the record of that URI. -/
def BlobStore.Associated (s : BlobStore) (cid uri : String) : Prop :=
  ∃ refs, s.table cid = some refs ∧ uri ∈ refs

/-- Every blob that was stored is associated with exactly the records that name it, and it is
gone if it has lost its last record. -/
structure BlobsExact (lib : RouteLibrary) (a a' : AccountStores) : Prop where
  mem_iff : ∀ cid, a.blobs.Stores cid → ∀ collection rkey,
    a'.blobs.Associated cid (makeUri a'.repo.did collection rkey) ↔
      cid ∈ recordBlobs lib a'.repo collection rkey
  exists_key : ∀ cid, a.blobs.Stores cid → ∀ uri, a'.blobs.Associated cid uri →
    ∃ collection rkey, uri = makeUri a'.repo.did collection rkey
  collected : ∀ cid, a.blobs.Stores cid →
    (∃ collection rkey, cid ∈ recordBlobs lib a.repo collection rkey) →
    (∀ collection rkey, cid ∉ recordBlobs lib a'.repo collection rkey) →
    ¬ a'.blobs.Stores cid

/-- The request is an `applyWrites` or a `createRecord`, and it succeeds. -/
def Succeeds (lib : RouteLibrary) (a : AccountStores) : BlobRequest → Prop
  | .createRecord req o => ∃ input result, readCreate lib req o = .ok input ∧
      (createRecordLocked lib.toRepoLibrary a.repo input.collection input.rkey input.recordJson
        input.swapCommit o.write).returned = .ok result
  | .applyWrites req o => ∃ input applied, readApply lib req o = .ok input ∧
      (applyWritesLocked lib.toRepoLibrary a.repo (lib.printJson (.array input.writes))
        input.swapCommit o.write).returned = .ok applied
  | _ => False

/-- The blobs that a text names, as far as there is memory for them. -/
def heldBlobs (lib : RouteLibrary) (text : String) (memory : Nat → Bool) : List String :=
  ((textBlobs lib text).zipIdx.filter fun r : String × Nat => memory r.2).map Prod.fst

/-- The blobs that the value of a write names, as far as there is memory for them. -/
def RepoWrite.blobs (lib : RouteLibrary) (memory : Nat → Bool) (w : RepoWrite) : List String :=
  if w.action = .delete then [] else heldBlobs lib w.value memory

/-- The blobs that the record of a write names once it is stored. -/
def RepoWrite.storedBlobs (lib : RouteLibrary) (w : RepoWrite) : List String :=
  if w.action = .delete then [] else blockBlobs lib w.recordCbor

/-- The blobs of a record after a batch: the last write of its key decides. -/
def blobsAfter (lib : RouteLibrary) (s : RepoStore) (writes : List RepoWrite)
    (collection rkey : String) : List String :=
  match (writes.filter fun w => w.collection = collection ∧ w.rkey = rkey).getLast? with
  | some w => w.storedBlobs lib
  | none => recordBlobs lib s collection rkey

/-- For each stored blob: a record that names it still does after the batch exactly if no
update or delete of its key leaves it out, and one that does not name it does so after the
batch exactly if some create or update of its key names it. The files of a blob that loses its
last record can be moved away. -/
structure BatchSettles (lib : RouteLibrary) (a : AccountStores) (writes : List RepoWrite)
    (o : RouteOutcomes) : Prop where
  named : ∀ cid, a.blobs.Stores cid → ∀ collection rkey,
    cid ∈ recordBlobs lib a.repo collection rkey →
    (cid ∈ blobsAfter lib a.repo writes collection rkey ↔
      ∀ w i, (w, i) ∈ writes.zipIdx → w.collection = collection → w.rkey = rkey →
        w.action ≠ .create → cid ∈ w.blobs lib (o.keeps i))
  unnamed : ∀ cid, a.blobs.Stores cid → ∀ collection rkey,
    cid ∉ recordBlobs lib a.repo collection rkey →
    (cid ∈ blobsAfter lib a.repo writes collection rkey ↔
      ∃ w i, (w, i) ∈ writes.zipIdx ∧ w.collection = collection ∧ w.rkey = rkey ∧
        cid ∈ w.blobs lib (o.grows i))
  removes : ∀ cid, a.blobs.Stores cid →
    (∃ collection rkey, cid ∈ recordBlobs lib a.repo collection rkey) →
    (∀ collection rkey, cid ∉ blobsAfter lib a.repo writes collection rkey) →
    o.removes cid = true

/-- For each stored blob: the new record names it exactly if its text does or the record in
its place did, and no record that is cleaned up as a backlink conflict names it. -/
structure CreateSettles (lib : RouteLibrary) (a : AccountStores)
    (collection rkey recordJson : String) (o : RouteOutcomes) : Prop where
  record : ∀ cid, a.blobs.Stores cid → ∀ cbor,
    encodeRecordJson lib.toRepoLibrary recordJson = .ok cbor →
    (cid ∈ blockBlobs lib cbor ↔ cid ∈ recordBlobs lib a.repo collection rkey ∨
      cid ∈ heldBlobs lib recordJson (o.grows 0))
  conflicts : ∀ cid, a.blobs.Stores cid →
    ∀ conflict ∈ backlinkConflicts lib.toRepoLibrary a.repo collection rkey recordJson o.write,
    conflict ≠ rkey → cid ∉ recordBlobs lib a.repo collection conflict

/-- The condition on a request. -/
def Settles (lib : RouteLibrary) (a : AccountStores) : BlobRequest → Prop
  | .createRecord req o => ∀ input rkey, readCreate lib req o = .ok input →
      checkCreate lib.toRepoLibrary a.repo input.collection input.rkey input.recordJson
        input.swapCommit o.write = .ok rkey →
      CreateSettles lib a input.collection rkey input.recordJson o
  | .applyWrites req o => ∀ input writes, readApply lib req o = .ok input →
      stageWrites lib.toRepoLibrary o.write.tids 0 input.writes = .ok writes →
      BatchSettles lib a writes o
  | _ => True

/-! ## What the libraries are relied on to do -/

/-- The parts of the path of a record: they are not empty and have no slash. -/
structure PathKey (collection rkey : String) : Prop where
  collection_ne : collection ≠ ""
  rkey_ne : rkey ≠ ""
  collection_slash : '/' ∉ collection.toList
  rkey_slash : '/' ∉ rkey.toList

/-- The repository library has records under such keys only, and writes no others. -/
structure PathKeys (lib : RepoLibrary) : Prop where
  get : ∀ car head collection rkey cid,
    lib.repoGetRecord car head collection rkey = .ok cid → PathKey collection rkey
  apply : ∀ clock car head writes built, lib.repoApplyWrites clock car head writes = .ok built →
    ∀ w ∈ writes, PathKey w.collection w.rkey

/-- The text of the results of a batch is read back. -/
def ReadsResults (lib : RouteLibrary) (a : AccountStores) : BlobRequest → Prop
  | .applyWrites req o => ∀ input applied, readApply lib req o = .ok input →
      (applyWritesLocked lib.toRepoLibrary a.repo (lib.printJson (.array input.writes))
        input.swapCommit o.write).returned = .ok applied →
      (lib.parseJson applied.results).isSome = true
  | _ => True

/-- The TIDs that are minted are not empty. -/
def MintsKeys : BlobRequest → Prop
  | .createRecord _ o => ∀ i, o.write.tids i ≠ some ""
  | _ => True

/-- The URI tells the key. -/
theorem makeUri_injective {did collection rkey collection' rkey' : String}
    (hkey : PathKey collection rkey)
    (h : makeUri did collection rkey = makeUri did collection' rkey') :
    collection = collection' ∧ rkey = rkey' := by
  have hlist := congrArg String.toList h
  simp only [makeUri, String.toList_append, List.append_assoc, List.append_cancel_left_eq] at hlist
  have hslash : "/".toList = ['/'] := rfl
  rw [hslash, List.singleton_append, List.singleton_append,
    List.append_cons_inj_of_notMem hkey.collection_slash hkey.rkey_slash] at hlist
  exact ⟨String.ext hlist.1, String.ext hlist.2.2⟩

/-! ## From the table of blobs to the records -/

section Exact

variable {lib : RouteLibrary} {a a' : AccountStores}

/-- Once the blobs are relinked, the associations are exact if the links that are made and
taken back are those by which the records have changed. -/
theorem blobsExact_iff_of_relinked {rel : Relinks} (ha : Mirrored lib a)
    (hdid : a'.repo.did = a.repo.did) (hrel : Relinked a.blobs rel a'.blobs)
    (hadded : ∀ p ∈ rel.added, ∃ collection rkey, p.2 = makeUri a.repo.did collection rkey) :
    BlobsExact lib a a' ↔ ∀ cid, a.blobs.Stores cid →
      (∀ collection rkey, cid ∈ recordBlobs lib a'.repo collection rkey ↔
        (cid ∈ recordBlobs lib a.repo collection rkey ∨
          (cid, makeUri a.repo.did collection rkey) ∈ rel.added) ∧
        (cid, makeUri a.repo.did collection rkey) ∉ rel.dropped) ∧
      ((∃ collection rkey, cid ∈ recordBlobs lib a.repo collection rkey) →
        (∀ collection rkey, cid ∉ recordBlobs lib a'.repo collection rkey) →
        rel.removes cid = true) := by
  -- what is known of one blob that was stored
  have hstored : ∀ cid, a.blobs.Stores cid → ∃ refs, a.blobs.table cid = some refs ∧
      (∀ uri, a'.blobs.Associated cid uri ↔
        (uri ∈ refs ∨ (cid, uri) ∈ rel.added) ∧ (cid, uri) ∉ rel.dropped) ∧
      (¬ a'.blobs.Stores cid ↔ (refs ∪ named rel.added cid).Nonempty ∧ rel.removes cid = true ∧
        ∀ uri ∈ refs ∪ named rel.added cid, (cid, uri) ∈ rel.dropped) := by
    intro cid hcid
    obtain ⟨refs, htable⟩ := Option.isSome_iff_exists.mp (BlobStore.stores_iff.mp hcid)
    have hgone : a'.blobs.table cid = none ↔ (refs ∪ named rel.added cid).Nonempty ∧
        rel.removes cid = true ∧
        ∀ uri ∈ refs ∪ named rel.added cid, (cid, uri) ∈ rel.dropped := by
      rw [hrel]
      exact relink_eq_none_iff htable
    refine ⟨refs, htable, fun uri => ?_, ?_⟩
    · cases htable' : a'.blobs.table cid with
      | none =>
        obtain ⟨-, -, hall⟩ := hgone.mp htable'
        refine iff_of_false ?_ ?_
        · rintro ⟨refs', hrefs', -⟩
          rw [htable'] at hrefs'
          cases hrefs'
        · rintro ⟨hmem, hnot⟩
          exact hnot (hall uri (by simpa using hmem))
      | some refs' =>
        rw [← mem_of_relink htable (hrel ▸ htable')]
        constructor
        · rintro ⟨refs'', hrefs'', huri⟩
          rw [htable'] at hrefs''
          cases hrefs''
          exact huri
        · exact fun huri => ⟨refs', htable', huri⟩
    · rw [← hgone, BlobStore.stores_iff, Bool.not_eq_true, Option.isSome_eq_false_iff,
        Option.isNone_iff_eq_none]
  constructor
  · intro hexact cid hcid
    obtain ⟨refs, htable, hassociated, hgone⟩ := hstored cid hcid
    refine ⟨fun collection rkey => ?_, fun hbefore hafter => ?_⟩
    · rw [← hexact.mem_iff cid hcid, hassociated, hdid, ha.mem_iff cid refs htable]
    · exact (hgone.mp (hexact.collected cid hcid hbefore hafter)).2.1
  · intro hall
    refine ⟨fun cid hcid collection rkey => ?_, fun cid hcid uri huri => ?_,
      fun cid hcid hbefore hafter => ?_⟩
    · obtain ⟨refs, htable, hassociated, -⟩ := hstored cid hcid
      rw [(hall cid hcid).1, hassociated, hdid, ha.mem_iff cid refs htable]
    · obtain ⟨refs, htable, hassociated, -⟩ := hstored cid hcid
      rw [hdid]
      rcases ((hassociated uri).mp huri).1 with hmem | hmem
      · exact ha.exists_key cid refs htable uri hmem
      · exact hadded _ hmem
    · obtain ⟨refs, htable, hassociated, hgone⟩ := hstored cid hcid
      obtain ⟨hiff, hremoves⟩ := hall cid hcid
      refine hgone.mpr ⟨?_, hremoves hbefore hafter, fun uri huri => ?_⟩
      · obtain ⟨collection, rkey, hnamed⟩ := hbefore
        refine ⟨makeUri a.repo.did collection rkey, Finset.mem_union_left _ ?_⟩
        exact (ha.mem_iff cid refs htable collection rkey).mpr hnamed
      · rw [Finset.mem_union, mem_named] at huri
        obtain ⟨collection, rkey, rfl⟩ : ∃ collection rkey,
            uri = makeUri a.repo.did collection rkey := by
          rcases huri with hmem | hmem
          · exact ha.exists_key cid refs htable uri hmem
          · exact hadded _ hmem
        rw [ha.mem_iff cid refs htable] at huri
        by_contra hnot
        exact hafter collection rkey ((hiff collection rkey).mpr ⟨huri, hnot⟩)

end Exact

/-! ## The associations that a batch asks for -/

section Batch

variable {lib : RouteLibrary} {number : Double → Json}

theorem trackedPairs_held (lib : RouteLibrary) (uri text : String) (memory : Nat → Bool) :
    trackedPairs lib uri text memory = (heldBlobs lib text memory).map (·, uri) := by
  rw [trackedPairs, heldBlobs, textBlobs]
  cases lib.parseJson text with
  | none => rfl
  | some value => simp [List.map_map, Function.comp_def]

theorem untrackedPairs_held (lib : RouteLibrary) (uri old : String) (new : Option String)
    (memory : Nat → Bool) :
    untrackedPairs lib uri old new memory =
      ((textBlobs lib old).filter fun cid =>
        cid ∉ (new.map fun text => heldBlobs lib text memory).getD []).map (·, uri) := by
  rw [untrackedPairs, textBlobs]
  cases lib.parseJson old with
  | none => rfl
  | some value =>
    cases new with
    | none => rfl
    | some text =>
      rw [Option.bind_some, Option.map_some, Option.getD_some, heldBlobs, textBlobs]
      cases lib.parseJson text <;> rfl

/-- The URI that the results give for a write, if it is not a delete. -/
theorem getString_uri_writeResultJson (hlib : PrintsBack lib.toRepoLibrary number) (did : String)
    (w : RepoWrite) (cid : Cid) :
    ((writeResultJson did w cid).reread number).getString "uri" =
      if w.action = .delete then none else some (makeUri did w.collection w.rkey) := by
  rw [Json.getString_reread hlib.flat, writeResultJson]
  cases w.action <;> rfl

theorem isCreateOrUpdate_staged {op : Json} {w : RepoWrite}
    (h : StagedFrom lib.toRepoLibrary op w) : isCreateOrUpdate op = (w.action != .delete) := by
  rw [isCreateOrUpdate, h.type]
  cases w.action <;> decide

/-- The first phase associates the blobs that each write names. -/
theorem batchTracked_eq (hlib : PrintsBack lib.toRepoLibrary number) (did : String)
    (grows : Nat → Nat → Bool) {ops : List Json} {writes : List RepoWrite}
    (hstaged : List.Forall₂ (StagedFrom lib.toRepoLibrary) ops writes) {records : List Cid}
    (hlength : records.length = writes.length) (i : Nat) :
    batchTracked lib grows i (ops.zip ((writes.zip records).map fun w =>
        (writeResultJson did w.1 w.2).reread number)) =
      (writes.zipIdx i).flatMap fun w => (w.1.blobs lib (grows w.2)).map fun cid =>
        (cid, makeUri did w.1.collection w.1.rkey) := by
  induction hstaged generalizing i records with
  | nil => rfl
  | @cons op w ops writes hop _ ih =>
    cases records with
    | nil => cases hlength
    | cons record records =>
      have hlength' : records.length = writes.length := by simpa using hlength
      have hrest := ih hlength' (i + 1)
      simp only [List.zip_cons_cons, List.map_cons, List.zipIdx_cons, List.flatMap_cons,
        batchTracked, hrest, List.append_cancel_right_eq]
      rw [isCreateOrUpdate_staged hop, getString_uri_writeResultJson hlib, RepoWrite.blobs]
      by_cases hdelete : w.action = .delete
      · rw [if_pos hdelete, if_pos hdelete, hdelete]
        rfl
      · obtain ⟨value, hvalue, htext, -⟩ := hop.value hdelete
        have haction : (w.action != .delete) = true := by simpa using hdelete
        rw [if_neg hdelete, if_neg hdelete, haction, hvalue, htext]
        exact trackedPairs_held lib _ _ _

/-- What `batchUntrackedOne` takes back for a write that was staged. -/
theorem batchUntrackedOne_eq (hlib : PrintsBack lib.toRepoLibrary number) (s : RepoStore)
    (keeps : Nat → Bool) {op : Json} {w : RepoWrite} (hop : StagedFrom lib.toRepoLibrary op w)
    (record : Cid) :
    batchUntrackedOne lib s keeps op ((writeResultJson s.did w record).reread number) =
      if w.action = .create then []
      else ((recordBlobs lib s w.collection w.rkey).filter fun cid =>
        cid ∉ w.blobs lib keeps).map (·, makeUri s.did w.collection w.rkey) := by
  have htypes : ∀ action, w.action ≠ action → w.action.type ≠ action.type :=
    fun action hne heq => hne (WriteAction.type_injective heq)
  by_cases hcreate : w.action = .create
  · have hold : oldValue lib s op = none := by
      have hupdate := htypes .update (by simp [hcreate])
      have hdelete := htypes .delete (by simp [hcreate])
      rw [oldValue, hop.type, hop.collection]
      cases op.getString "rkey" <;> simp [hupdate, hdelete]
    rw [batchUntrackedOne, hold, if_pos hcreate]
  · obtain ⟨hrkey, hne⟩ := hop.given hcreate
    have hold : oldValue lib s op =
        (storeGetRecord lib.toRepoLibrary s w.collection w.rkey).toOption.map Prod.fst := by
      have htype : w.action.type = WriteAction.update.type ∨
          w.action.type = WriteAction.delete.type := by
        cases h : w.action with
        | create => exact absurd h hcreate
        | update => exact Or.inl rfl
        | delete => exact Or.inr rfl
      rw [oldValue, hop.type, hop.collection, hrkey]
      exact if_pos ⟨htype, hne⟩
    rw [if_neg hcreate, batchUntrackedOne, hold, recordBlobs]
    cases storeGetRecord lib.toRepoLibrary s w.collection w.rkey with
    | error error => rfl
    | ok old =>
      obtain ⟨text, cid⟩ := old
      simp only [Except.toOption, Option.map_some, hop.type, Option.some.injEq]
      by_cases hupdate : w.action = .update
      · have hdelete : w.action ≠ .delete := by simp [hupdate]
        obtain ⟨value, hvalue, htext, -⟩ := hop.value hdelete
        rw [if_pos (congrArg WriteAction.type hupdate), getString_uri_writeResultJson hlib,
          if_neg hdelete, hvalue, RepoWrite.blobs, if_neg hdelete, htext]
        exact untrackedPairs_held lib _ _ _ _
      · have hdelete : w.action = .delete := by
          cases h : w.action with
          | create => exact absurd h hcreate
          | update => exact absurd h hupdate
          | delete => rfl
        rw [if_neg (htypes .update hupdate), hop.collection, hrkey, RepoWrite.blobs,
          if_pos hdelete]
        exact untrackedPairs_held lib _ _ _ _

/-- The second phase takes back the associations of each record that is updated or deleted,
less those of the blobs that its write names. -/
theorem batchUntracked_eq (hlib : PrintsBack lib.toRepoLibrary number) (s : RepoStore)
    (keeps : Nat → Nat → Bool) {ops : List Json} {writes : List RepoWrite}
    (hstaged : List.Forall₂ (StagedFrom lib.toRepoLibrary) ops writes) {records : List Cid}
    (hlength : records.length = writes.length) (i : Nat) :
    batchUntracked lib s keeps i (ops.zip ((writes.zip records).map fun w =>
        (writeResultJson s.did w.1 w.2).reread number)) =
      (writes.zipIdx i).flatMap fun w => if w.1.action = .create then []
        else ((recordBlobs lib s w.1.collection w.1.rkey).filter fun cid =>
          cid ∉ w.1.blobs lib (keeps w.2)).map fun cid =>
            (cid, makeUri s.did w.1.collection w.1.rkey) := by
  induction hstaged generalizing i records with
  | nil => rfl
  | @cons op w ops writes hop _ ih =>
    cases records with
    | nil => cases hlength
    | cons record records =>
      have hlength' : records.length = writes.length := by simpa using hlength
      have hrest := ih hlength' (i + 1)
      simp only [List.zip_cons_cons, List.map_cons, List.zipIdx_cons, List.flatMap_cons,
        batchUntracked, hrest, batchUntrackedOne_eq hlib s (keeps i) hop record]

end Batch

/-! ## The records after a write -/

section Records

variable {lib : RouteLibrary} {s s' : RepoStore} {built : RepoCommit}

/-- What the writes of a key come to, seen from the staged batch. -/
theorem filter_treeWrite {writes : List RepoWrite} {records : List Cid}
    (hlength : records.length = writes.length) (collection rkey : String) :
    (((writes.zip records).map treeWrite).filter fun w => w.key = (collection, rkey)) =
        ((writes.zip records).filter fun w =>
          w.1.collection = collection ∧ w.1.rkey = rkey).map treeWrite ∧
      (writes.filter fun w => w.collection = collection ∧ w.rkey = rkey) =
        ((writes.zip records).filter fun w =>
          w.1.collection = collection ∧ w.1.rkey = rkey).map Prod.fst := by
  constructor
  · rw [List.filter_map]
    congr 2
    funext w
    simp [treeWrite]
  · have hfst : (writes.zip records).map Prod.fst = writes := List.map_fst_zip (by omega)
    conv_lhs => rw [← hfst]
    rw [List.filter_map]
    rfl

/-- After a batch each record names what the last write of its key stores. -/
theorem recordBlobs_of_batch (hlib : WritesTree lib.toRepoLibrary)
    (hkeys : PathKeys lib.toRepoLibrary) {clock : Nat} {writes : List RepoWrite}
    (hbuilt : lib.repoApplyWrites clock s.car s.head writes = .ok built)
    (hstored : Stored s built s') (collection rkey : String) :
    recordBlobs lib s' collection rkey = blobsAfter lib s writes collection rkey := by
  obtain ⟨hlength, hcontent, -, htree⟩ := hlib.apply _ _ _ _ _ hbuilt
  obtain ⟨hfilter, hwrites⟩ := filter_treeWrite hlength collection rkey
  rw [blobsAfter, hwrites, List.getLast?_map]
  by_cases hempty : collection = "" ∨ rkey = ""
  · have hnone : ((writes.zip built.records).filter fun w =>
        w.1.collection = collection ∧ w.1.rkey = rkey) = [] := by
      rw [List.filter_eq_nil_iff]
      intro w hw hkey
      have hpath := hkeys.apply _ _ _ _ _ hbuilt w.1 (List.of_mem_zip hw).1
      rw [decide_eq_true_eq] at hkey
      rcases hempty with h | h
      · exact hpath.collection_ne (hkey.1.trans h)
      · exact hpath.rkey_ne (hkey.2.trans h)
    rw [hnone]
    simp only [List.getLast?_nil, Option.map_none]
    rw [recordBlobs_eq, recordBlobs_eq, if_pos hempty, if_pos hempty]
  · have hcid : recordCid lib.toRepoLibrary s'.car s'.head collection rkey =
        applyAll ((writes.zip built.records).map treeWrite)
          (recordTree lib.toRepoLibrary s.car s.head) (collection, rkey) := by
      rw [← htree, ← hstored.tree]
      rfl
    rw [applyAll_eq_last, hfilter, List.getLast?_map] at hcid
    cases hlast : ((writes.zip built.records).filter fun w =>
        w.1.collection = collection ∧ w.1.rkey = rkey).getLast? with
    | none =>
      rw [hlast] at hcid
      exact recordBlobs_congr hcid
    | some w =>
      rw [hlast] at hcid
      have hw := (List.mem_filter.mp (List.mem_of_getLast? hlast)).1
      rw [recordBlobs_eq, if_neg hempty, hcid]
      simp only [Option.map_some, treeWrite, RepoWrite.storedBlobs]
      by_cases hdelete : w.1.action = .delete
      · rw [if_pos hdelete, if_pos hdelete]
        rfl
      · rw [if_neg hdelete, if_neg hdelete, Option.map_some, Option.getD_some,
          hcontent w hw hdelete]

/-- After a create without conflicts the other records are as they were, and the new one takes
a key that was free. -/
theorem recordBlobs_of_create (hlib : WritesTree lib.toRepoLibrary)
    (hkeys : PathKeys lib.toRepoLibrary) {clock : Nat} {collection rkey : String}
    {cbor : List UInt8}
    (hbuilt : lib.repoCreateRecord clock s.car s.head collection rkey cbor = .ok built)
    (hstored : Stored s built s') :
    PathKey collection rkey ∧ recordBlobs lib s collection rkey = [] ∧
      recordBlobs lib s' collection rkey = blockBlobs lib cbor ∧
      ∀ c r, (c, r) ≠ (collection, rkey) → recordBlobs lib s' c r = recordBlobs lib s c r := by
  obtain ⟨cid, -, hcontent, hfree, htree⟩ := hlib.create _ _ _ _ _ _ _ hbuilt
  have hnew : ∀ c r, recordCid lib.toRepoLibrary s'.car s'.head c r =
      Function.update (recordTree lib.toRepoLibrary s.car s.head) (collection, rkey) (some cid)
        (c, r) := by
    intro c r
    rw [← htree, ← hstored.tree]
    rfl
  have hself := hnew collection rkey
  rw [Function.update_self] at hself
  have hkey : PathKey collection rkey := by
    rw [recordCid_eq, getRecordCbor] at hself
    split at hself
    · cases hself
    · cases hget : lib.repoGetRecord s'.car s'.head collection rkey with
      | error error =>
        rw [hget] at hself
        cases hself
      | ok found => exact hkeys.get _ _ _ _ _ hget
  have hempty : ¬ (collection = "" ∨ rkey = "") := by
    simp [hkey.collection_ne, hkey.rkey_ne]
  refine ⟨hkey, ?_, ?_, fun c r hne => recordBlobs_congr ?_⟩
  · rw [recordBlobs_eq, if_neg hempty, hfree]
    rfl
  · rw [recordBlobs_eq, if_neg hempty, hself, Option.map_some, Option.getD_some, hcontent]
  · rw [hnew, Function.update_of_ne hne]
    rfl

end Records

/-! ## applyWrites -/

section ApplyWrites

variable {lib : RouteLibrary} {number : Double → Json} {a : AccountStores}

/-- The URI of a write is that of a key exactly if it writes the key. -/
theorem makeUri_eq_iff {did : String} {w : RepoWrite} (hkey : PathKey w.collection w.rkey)
    (collection rkey : String) :
    makeUri did w.collection w.rkey = makeUri did collection rkey ↔
      w.collection = collection ∧ w.rkey = rkey := by
  constructor
  · exact makeUri_injective hkey
  · rintro ⟨rfl, rfl⟩
    rfl

/-- The pairs that a batch associates. -/
theorem mem_batchAdded {writes : List RepoWrite}
    (hkeys : ∀ w ∈ writes, PathKey w.collection w.rkey) (did : String) (grows : Nat → Nat → Bool)
    (cid collection rkey : String) :
    (cid, makeUri did collection rkey) ∈ (writes.zipIdx.flatMap fun w =>
        (w.1.blobs lib (grows w.2)).map fun cid =>
          (cid, makeUri did w.1.collection w.1.rkey)).filter (·.2 ≠ "") ↔
      ∃ w i, (w, i) ∈ writes.zipIdx ∧ w.collection = collection ∧ w.rkey = rkey ∧
        cid ∈ w.blobs lib (grows i) := by
  have hne : makeUri did collection rkey ≠ "" := makeUri_ne did collection rkey
  simp only [List.mem_filter, List.mem_flatMap, List.mem_map, Prod.mk.injEq, decide_eq_true_eq,
    Prod.exists, hne, ne_eq, not_false_eq_true, and_true]
  constructor
  · rintro ⟨w, i, hw, blob, hblob, rfl, huri⟩
    obtain ⟨hcollection, hrkey⟩ :=
      (makeUri_eq_iff (hkeys w (List.fst_mem_of_mem_zipIdx hw)) collection rkey).mp huri
    exact ⟨w, i, hw, hcollection, hrkey, hblob⟩
  · rintro ⟨w, i, hw, rfl, rfl, hblob⟩
    exact ⟨w, i, hw, cid, hblob, rfl, rfl⟩

/-- The pairs that a batch dissociates. -/
theorem mem_batchDropped {writes : List RepoWrite}
    (hkeys : ∀ w ∈ writes, PathKey w.collection w.rkey) (s : RepoStore)
    (keeps : Nat → Nat → Bool) (cid collection rkey : String) :
    (cid, makeUri s.did collection rkey) ∈ (writes.zipIdx.flatMap fun w =>
        if w.1.action = .create then []
        else ((recordBlobs lib s w.1.collection w.1.rkey).filter fun cid =>
          cid ∉ w.1.blobs lib (keeps w.2)).map fun cid =>
            (cid, makeUri s.did w.1.collection w.1.rkey)).filter (·.2 ≠ "") ↔
      cid ∈ recordBlobs lib s collection rkey ∧
        ∃ w i, (w, i) ∈ writes.zipIdx ∧ w.collection = collection ∧ w.rkey = rkey ∧
          w.action ≠ .create ∧ cid ∉ w.blobs lib (keeps i) := by
  have hne : makeUri s.did collection rkey ≠ "" := makeUri_ne s.did collection rkey
  simp only [List.mem_filter, List.mem_flatMap, decide_eq_true_eq, Prod.exists, hne, ne_eq,
    not_false_eq_true, and_true]
  constructor
  · rintro ⟨w, i, hw, hmem⟩
    split at hmem
    · cases hmem
    · next haction =>
      obtain ⟨blob, hblob, heq⟩ := List.mem_map.mp hmem
      obtain ⟨hold, hleft⟩ := List.mem_filter.mp hblob
      obtain ⟨rfl, huri⟩ := Prod.mk.injEq .. ▸ heq
      obtain ⟨rfl, rfl⟩ :=
        (makeUri_eq_iff (hkeys w (List.fst_mem_of_mem_zipIdx hw)) collection rkey).mp huri
      exact ⟨hold, w, i, hw, rfl, rfl, haction, by simpa using hleft⟩
  · rintro ⟨hold, w, i, hw, rfl, rfl, haction, hleft⟩
    refine ⟨w, i, hw, ?_⟩
    rw [if_neg haction]
    exact List.mem_map.mpr ⟨cid, List.mem_filter.mpr ⟨hold, by simpa using hleft⟩, rfl⟩

/-- A batch that succeeds leaves its commit, also once the `records` table is brought in line. -/
theorem applyWritesLocked_stored {lib : RepoLibrary} {s : RepoStore} {writesJson : String}
    {swapCommit : Option String} {o : WriteOutcomes} {applied : ApplyReturn}
    (h : (applyWritesLocked lib s writesJson swapCommit o).returned = .ok applied) :
    ∃ writes built, planApplyWrites lib s writesJson swapCommit o = .ok (writes, built) ∧
      applied.results = lib.printJson (.array ((writes.zip built.records).map fun w =>
        writeResultJson s.did w.1 w.2)) ∧
      Stored s built (applyWritesLocked lib s writesJson swapCommit o).store := by
  obtain ⟨writes, built, hplan, hresults, s', -, hstore, hstored⟩ := applyWritesLocked_ok h
  obtain ⟨hhead, hcar, hdid⟩ := indexWrites_frame lib o.indexes 0 (writes.zip built.records) s'
  refine ⟨writes, built, hplan, hresults, ?_⟩
  rw [hstore]
  exact ⟨hhead.trans hstored.head, hcar.trans hstored.car, hdid.trans hstored.did⟩

/-- A batch that succeeds leaves the associations exact if and only if it settles them. -/
theorem blobsExact_applyWrites (hprint : PrintsBack lib.toRepoLibrary number)
    (htree : WritesTree lib.toRepoLibrary) (hkeys : PathKeys lib.toRepoLibrary)
    (ha : Mirrored lib a) {req : RepoRequest} {o : RouteOutcomes}
    (hresults : ReadsResults lib a (.applyWrites req o))
    (hok : Succeeds lib a (.applyWrites req o)) :
    BlobsExact lib a (a.step lib (.applyWrites req o)) ↔ Settles lib a (.applyWrites req o) := by
  obtain ⟨input, applied, hread, hreturned⟩ := hok
  obtain ⟨writes, built, hplan, htext, hstored⟩ := applyWritesLocked_stored hreturned
  obtain ⟨-, hstaged, hbuilt⟩ := planApplyWrites_printed hprint hplan
  have hpaths := hkeys.apply _ _ _ _ _ hbuilt
  have hlength := (htree.apply _ _ _ _ _ hbuilt).1
  have hfrom := stageWrites_from hstaged
  -- the results are read back as they were
  obtain ⟨entries, hentries⟩ := Option.isSome_iff_exists.mp (hresults input applied hread hreturned)
  have hitems : (lib.parseJson applied.results).bind Json.items? =
      some ((writes.zip built.records).map fun w =>
        (writeResultJson a.repo.did w.1 w.2).reread number) := by
    rw [htext] at hentries ⊢
    rw [hentries, hprint.reads _ _ hentries, Json.reread, Json.rereadItems_eq_map]
    simp only [Option.bind_some, Json.items?, List.map_map, Function.comp_def]
  have hrelinks : relinks lib a (.applyWrites req o) =
      .of (writes.zipIdx.flatMap fun w => (w.1.blobs lib (o.grows w.2)).map fun cid =>
          (cid, makeUri a.repo.did w.1.collection w.1.rkey))
        (writes.zipIdx.flatMap fun w => if w.1.action = .create then []
          else ((recordBlobs lib a.repo w.1.collection w.1.rkey).filter fun cid =>
            cid ∉ w.1.blobs lib (o.keeps w.2)).map fun cid =>
              (cid, makeUri a.repo.did w.1.collection w.1.rkey)) o.removes := by
    rw [← batchTracked_eq hprint a.repo.did o.grows hfrom hlength 0,
      ← batchUntracked_eq hprint a.repo o.keeps hfrom hlength 0]
    simp only [relinks, hread, hreturned, hitems]
  have hrepo : (a.step lib (.applyWrites req o)).repo = (applyWritesLocked lib.toRepoLibrary a.repo
      (lib.printJson (.array input.writes)) input.swapCommit o.write).store := by
    simp only [AccountStores.step, AccountStores.handled, hApplyWrites, hread, hreturned, hitems]
  rw [← hrepo] at hstored
  have hafter := recordBlobs_of_batch htree hkeys hbuilt hstored
  rw [blobsExact_iff_of_relinked ha hstored.did (relinked_applyWrites lib a req o)]
  · simp only [hrelinks, Relinks.of, mem_batchAdded hpaths, mem_batchDropped hpaths, hafter]
    constructor
    · intro hall input' writes' hread' hstaged'
      obtain rfl : input = input' := Except.ok.inj (hread.symm.trans hread')
      obtain rfl : writes = writes' := Except.ok.inj (hstaged.symm.trans hstaged')
      refine ⟨fun cid hcid collection rkey hnamed => ?_, fun cid hcid collection rkey hnamed => ?_,
        fun cid hcid => (hall cid hcid).2⟩
      · rw [(hall cid hcid).1]
        simp only [hnamed, true_or, true_and, not_exists, not_and, not_not]
      · rw [(hall cid hcid).1]
        simp only [hnamed, false_or, false_and, not_false_eq_true, and_true]
    · intro hsettles cid hcid
      obtain ⟨hnamed, hunnamed, hremoves⟩ := hsettles input writes hread hstaged
      refine ⟨fun collection rkey => ?_, hremoves cid hcid⟩
      by_cases hbefore : cid ∈ recordBlobs lib a.repo collection rkey
      · rw [hnamed cid hcid collection rkey hbefore]
        simp only [hbefore, true_or, true_and, not_exists, not_and, not_not]
      · rw [hunnamed cid hcid collection rkey hbefore]
        simp only [hbefore, false_or, false_and, not_false_eq_true, and_true]
  · intro p hp
    rw [hrelinks] at hp
    obtain ⟨w, hw, hmem⟩ := List.mem_flatMap.mp (List.mem_filter.mp hp).1
    obtain ⟨cid, -, rfl⟩ := List.mem_map.mp hmem
    exact ⟨_, _, rfl⟩

end ApplyWrites

/-! ## createRecord -/

section CreateRecord

variable {lib : RouteLibrary} {number : Double → Json} {a : AccountStores}

/-- What a create leaves of the records: the new one under its key, and none under the keys of
the conflicts. -/
structure Created (lib : RouteLibrary) (s s' : RepoStore) (collection rkey recordJson : String)
    (conflicts : List String) : Prop where
  did : s'.did = s.did
  key : PathKey collection rkey
  record : ∃ cbor, encodeRecordJson lib.toRepoLibrary recordJson = .ok cbor ∧
    recordBlobs lib s' collection rkey = blockBlobs lib cbor
  free : conflicts = [] → recordBlobs lib s collection rkey = []
  others : ∀ c r, (c, r) ≠ (collection, rkey) → recordBlobs lib s' c r =
    if c = collection ∧ r ∈ conflicts then [] else recordBlobs lib s c r

/-- The writes of a cleanup delete the conflicts and put the new record in. -/
theorem blobsAfter_cleanupBatch (lib : RouteLibrary) (s : RepoStore) (collection rkey : String)
    (cbor : List UInt8) (text : String) (conflicts : List String) (c r : String) :
    blobsAfter lib s (cleanupBatch collection rkey cbor text conflicts) c r =
      if (c, r) = (collection, rkey) then blockBlobs lib cbor
      else if c = collection ∧ r ∈ conflicts then [] else recordBlobs lib s c r := by
  rw [blobsAfter, cleanupBatch, List.filter_append]
  by_cases hkey : (c, r) = (collection, rkey)
  · obtain ⟨rfl, rfl⟩ := Prod.mk.injEq .. ▸ hkey
    rw [if_pos rfl, List.filter_cons_of_pos (by simp), List.filter_nil, List.getLast?_concat]
    rfl
  · have hlast : ¬ (collection = c ∧ rkey = r) := fun h => hkey (by rw [h.1, h.2])
    rw [if_neg hkey, List.filter_cons_of_neg (by simpa using hlast), List.filter_nil,
      List.append_nil]
    cases hfound : ((conflicts.map fun conflict =>
        (⟨.delete, collection, conflict, [], ""⟩ : RepoWrite)).filter fun w =>
          w.collection = c ∧ w.rkey = r).getLast? with
    | none =>
      rw [List.getLast?_eq_none_iff, List.filter_eq_nil_iff] at hfound
      rw [if_neg]
      rintro ⟨rfl, hr⟩
      exact hfound _ (List.mem_map_of_mem hr) (by simp)
    | some w =>
      obtain ⟨hw, hwkey⟩ := List.mem_filter.mp (List.mem_of_getLast? hfound)
      obtain ⟨conflict, hconflict, rfl⟩ := List.mem_map.mp hw
      rw [decide_eq_true_eq] at hwkey
      obtain ⟨rfl, rfl⟩ := hwkey
      rw [if_pos ⟨rfl, hconflict⟩]
      rfl

theorem checkCreate_ok {lib : RepoLibrary} {s : RepoStore} {collection : String}
    {rkey : Option String} {recordJson : String} {swapCommit : Option String} {o : WriteOutcomes}
    (htids : ∀ i, o.tids i ≠ some "") {key : String}
    (h : checkCreate lib s collection rkey recordJson swapCommit o = .ok key) :
    collection ≠ "" ∧ key ≠ "" := by
  obtain ⟨hcollection, hkey, -, -⟩ := checkCreate_ok_iff.mp h
  refine ⟨hcollection, ?_⟩
  rw [createKey] at hkey
  split at hkey
  · next given hgiven =>
    split at hkey
    · cases hkey
      simpa using (Option.filter_eq_some_iff.mp hgiven).2
    · cases hkey
  · exact fun hempty => htids 0 (hempty ▸ hkey)

/-- A create that succeeds. -/
theorem createRecordLocked_created (hprint : PrintsBack lib.toRepoLibrary number)
    (htree : WritesTree lib.toRepoLibrary) (hkeys : PathKeys lib.toRepoLibrary) {s : RepoStore}
    {collection : String} {rkey : Option String} {record : Json} {swapCommit : Option String}
    {o : WriteOutcomes} (htids : ∀ i, o.tids i ≠ some "") {uri cid : String}
    (h : (createRecordLocked lib.toRepoLibrary s collection rkey (lib.printJson record) swapCommit
      o).returned = .ok (uri, cid)) :
    ∃ key, checkCreate lib.toRepoLibrary s collection rkey (lib.printJson record) swapCommit o =
        .ok key ∧
      uri = makeUri s.did collection key ∧
      Created lib s (createRecordLocked lib.toRepoLibrary s collection rkey (lib.printJson record)
          swapCommit o).store collection key (lib.printJson record)
        (backlinkConflicts lib.toRepoLibrary s collection key (lib.printJson record) o) := by
  rw [createRecordLocked] at h ⊢
  cases hcheck : checkCreate lib.toRepoLibrary s collection rkey (lib.printJson record) swapCommit
      o with
  | error error =>
    rw [hcheck] at h
    cases h
  | ok key =>
    obtain ⟨hcollection, hkey⟩ := checkCreate_ok htids hcheck
    refine ⟨key, rfl, ?_⟩
    rw [hcheck] at h
    dsimp only at h ⊢
    generalize backlinkConflicts lib.toRepoLibrary s collection key (lib.printJson record) o =
      conflicts at h ⊢
    by_cases hconflicts : conflicts = []
    · rw [if_neg (not_not.mpr hconflicts)] at h ⊢
      unfold planCreate at h ⊢
      cases hcbor : encodeRecordJson lib.toRepoLibrary (lib.printJson record) with
      | error error =>
        rw [hcbor] at h
        cases h
      | ok cbor =>
        rw [hcbor] at h
        simp only [bind, Except.bind] at h ⊢
        cases hbuilt : lib.repoCreateRecord o.clock s.car s.head collection key cbor with
        | error error =>
          rw [hbuilt] at h
          cases h
        | ok built =>
          rw [hbuilt] at h
          obtain ⟨huri, s', -, hstore, hstored⟩ := landRecord_ok h
          obtain ⟨hhead, hcar, hdid⟩ := indexUpsertRecord_frame lib.toRepoLibrary s' collection key
            (built.records.headD "") (lib.printJson record) (o.indexes 0)
          rw [← hstore] at hhead hcar hdid
          obtain ⟨hpath, hfree, hrecord, hothers⟩ := recordBlobs_of_create htree hkeys hbuilt
            ⟨hhead.trans hstored.head, hcar.trans hstored.car, hdid.trans hstored.did⟩
          refine ⟨huri, hdid.trans hstored.did, hpath, ⟨cbor, hcbor, hrecord⟩, fun _ => hfree,
            fun c r hne => ?_⟩
          rw [hothers c r hne, hconflicts]
          simp
    · rw [if_pos hconflicts] at h ⊢
      obtain ⟨huri, cbor, built, hcbor, hbuilt, s', -, hstore, hstored⟩ :=
        createRecordWithBacklinkCleanup_ok hprint htree hcollection hkey h
      obtain ⟨hhead, hcar, hdid⟩ := indexWrites_frame lib.toRepoLibrary o.indexes 0
        ((cleanupBatch collection key cbor (lib.printJson record) conflicts).zip built.records) s'
      rw [← hstore] at hhead hcar hdid
      have hafter := recordBlobs_of_batch htree hkeys hbuilt
        ⟨hhead.trans hstored.head, hcar.trans hstored.car, hdid.trans hstored.did⟩
      refine ⟨huri, hdid.trans hstored.did, ?_, ⟨cbor, hcbor, ?_⟩, fun h => absurd h hconflicts,
        fun c r hne => ?_⟩
      · exact hkeys.apply _ _ _ _ _ hbuilt
          ⟨.create, collection, key, cbor, lib.printJson record⟩ (by simp [cleanupBatch])
      · rw [hafter, blobsAfter_cleanupBatch, if_pos rfl]
      · rw [hafter, blobsAfter_cleanupBatch, if_neg hne]

theorem readCreate_recordJson {req : RepoRequest} {o : RouteOutcomes} {input : RecordInput}
    (h : readCreate lib req o = .ok input) : ∃ record, input.recordJson = lib.printJson record := by
  unfold readCreate at h
  obtain ⟨_, -, h⟩ := except_bind_ok h
  obtain ⟨_, -, h⟩ := except_bind_ok h
  obtain ⟨body, -, h⟩ := except_bind_ok h
  split at h
  · next record _ _ =>
    obtain ⟨_, -, h⟩ := except_bind_ok h
    obtain ⟨_, -, h⟩ := except_bind_ok h
    cases h
    exact ⟨_, rfl⟩
  · cases h

/-- A create that succeeds leaves the associations exact if and only if it settles them. -/
theorem blobsExact_createRecord (hprint : PrintsBack lib.toRepoLibrary number)
    (htree : WritesTree lib.toRepoLibrary) (hkeys : PathKeys lib.toRepoLibrary)
    (ha : Mirrored lib a) {req : RepoRequest} {o : RouteOutcomes}
    (htids : MintsKeys (.createRecord req o)) (hok : Succeeds lib a (.createRecord req o)) :
    BlobsExact lib a (a.step lib (.createRecord req o)) ↔ Settles lib a (.createRecord req o) := by
  obtain ⟨input, ⟨uri, cid⟩, hread, hreturned⟩ := hok
  obtain ⟨record, hrecord⟩ := readCreate_recordJson hread
  rw [hrecord] at hreturned
  obtain ⟨key, hcheck, rfl, hcreated⟩ :=
    createRecordLocked_created hprint htree hkeys htids hreturned
  rw [← hrecord] at hreturned hcheck hcreated
  have hrelinks : relinks lib a (.createRecord req o) =
      .of ((heldBlobs lib input.recordJson (o.grows 0)).map
        (·, makeUri a.repo.did input.collection key)) [] o.removes := by
    simp only [relinks, hread, hreturned, trackedPairs_held]
  have hrepo : (a.step lib (.createRecord req o)).repo = (createRecordLocked lib.toRepoLibrary
      a.repo input.collection input.rkey input.recordJson input.swapCommit o.write).store := by
    simp only [AccountStores.step, AccountStores.handled, hCreateRecord, hread, hreturned]
  rw [← hrepo] at hcreated
  have hadded : ∀ blob c r, (blob, makeUri a.repo.did c r) ∈
      (relinks lib a (.createRecord req o)).added ↔
        (c, r) = (input.collection, key) ∧ blob ∈ heldBlobs lib input.recordJson (o.grows 0) := by
    intro blob c r
    rw [hrelinks, Relinks.of, filter_map_uri (makeUri_ne _ _ _), List.mem_map]
    constructor
    · rintro ⟨blob', hblob, heq⟩
      obtain ⟨rfl, huri⟩ := Prod.mk.injEq .. ▸ heq
      obtain ⟨rfl, rfl⟩ := makeUri_injective hcreated.key huri
      exact ⟨rfl, hblob⟩
    · rintro ⟨hkey, hblob⟩
      obtain ⟨rfl, rfl⟩ := Prod.mk.injEq .. ▸ hkey
      exact ⟨blob, hblob, rfl⟩
  have hdropped : (relinks lib a (.createRecord req o)).dropped = [] := by
    rw [hrelinks]
    rfl
  obtain ⟨cbor, hcbor, hnew⟩ := hcreated.record
  rw [blobsExact_iff_of_relinked ha hcreated.did (relinked_createRecord lib a req o)]
  · simp only [hadded, hdropped, List.not_mem_nil, not_false_eq_true, and_true]
    constructor
    · intro hall input' key' hread' hcheck'
      obtain rfl : input = input' := Except.ok.inj (hread.symm.trans hread')
      obtain rfl : key = key' := Except.ok.inj (hcheck.symm.trans hcheck')
      refine ⟨fun blob hblob cbor' hcbor' => ?_, fun blob hblob conflict hconflict hne hnamed => ?_⟩
      · obtain rfl : cbor = cbor' := Except.ok.inj (hcbor.symm.trans hcbor')
        rw [← hnew, (hall blob hblob).1]
        simp only [true_and]
      · have hafter := ((hall blob hblob).1 input.collection conflict).mpr (Or.inl hnamed)
        rw [hcreated.others _ _ (by simpa using hne), if_pos ⟨rfl, hconflict⟩] at hafter
        cases hafter
    · intro hsettles blob hblob
      obtain ⟨hrecord, hconflicts⟩ := hsettles input key hread hcheck
      have hiff : ∀ c r, blob ∈ recordBlobs lib (a.step lib (.createRecord req o)).repo c r ↔
          blob ∈ recordBlobs lib a.repo c r ∨
            (c, r) = (input.collection, key) ∧
              blob ∈ heldBlobs lib input.recordJson (o.grows 0) := by
        intro c r
        by_cases hkey : (c, r) = (input.collection, key)
        · obtain ⟨rfl, rfl⟩ := Prod.mk.injEq .. ▸ hkey
          rw [hnew, hrecord blob hblob cbor hcbor]
          simp only [true_and]
        · rw [hcreated.others c r hkey]
          simp only [hkey, false_and, or_false]
          split
          · next hconflict =>
            obtain ⟨rfl, hr⟩ := hconflict
            have hne : r ≠ key := fun heq => hkey (by rw [heq])
            exact iff_of_false List.not_mem_nil (hconflicts blob hblob r hr hne)
          · exact Iff.rfl
      -- no blob is taken away, so none has lost its last record
      refine ⟨hiff, fun hbefore hafter => ?_⟩
      obtain ⟨c, r, hnamed⟩ := hbefore
      exact absurd ((hiff c r).mpr (Or.inl hnamed)) (hafter c r)
  · intro p hp
    rw [hrelinks] at hp
    obtain ⟨blob, -, rfl⟩ := List.mem_map.mp (List.mem_filter.mp hp).1
    exact ⟨_, _, rfl⟩

end CreateRecord

/-! ## Keys that are written more than once -/

section Overwritten

variable {lib : RouteLibrary} {a : AccountStores} {built : RepoCommit} {writes : List RepoWrite}

/-- A record names a blob, seen from the tree. -/
theorem mem_recordBlobs_iff {s : RepoStore} {collection rkey : String}
    (hne : ¬ (collection = "" ∨ rkey = "")) (cid : String) :
    cid ∈ recordBlobs lib s collection rkey ↔
      ∃ v ∈ recordTree lib.toRepoLibrary s.car s.head (collection, rkey),
        cid ∈ blockBlobs lib (lib.content v) := by
  rw [recordBlobs_eq, if_neg hne, recordTree]
  cases recordCid lib.toRepoLibrary s.car s.head collection rkey <;> simp

/-- A write names a blob once it is stored, seen from the tree. -/
theorem mem_storedBlobs_iff {w : RepoWrite × Cid}
    (hcontent : w.1.action ≠ .delete → lib.content w.2 = w.1.recordCbor) (cid : String) :
    cid ∈ w.1.storedBlobs lib ↔
      ∃ v ∈ (treeWrite w).value, cid ∈ blockBlobs lib (lib.content v) := by
  rw [RepoWrite.storedBlobs, treeWrite]
  by_cases hdelete : w.1.action = .delete
  · simp [hdelete]
  · simp [hdelete, hcontent hdelete]

/-- Where the values name the same blobs as text and once they are stored, and there is memory
for them, only a key that is written more than once can go wrong: a blob that its record names
before and after is left out in between, or one that it names neither before nor after is
named in between. -/
theorem batchSettles_iff (htree : WritesTree lib.toRepoLibrary)
    (hkeys : PathKeys lib.toRepoLibrary) {clock : Nat}
    (hbuilt : lib.repoApplyWrites clock a.repo.car a.repo.head writes = .ok built)
    {o : RouteOutcomes} (hremoves : ∀ cid, o.removes cid = true)
    (hkeeps : ∀ w i, (w, i) ∈ writes.zipIdx → ∀ cid,
      cid ∈ w.blobs lib (o.keeps i) ↔ cid ∈ w.storedBlobs lib)
    (hgrows : ∀ w i, (w, i) ∈ writes.zipIdx → ∀ cid,
      cid ∈ w.blobs lib (o.grows i) ↔ cid ∈ w.storedBlobs lib) :
    BatchSettles lib a writes o ↔ ∀ cid, a.blobs.Stores cid → ∀ w ∈ writes,
      (cid ∈ recordBlobs lib a.repo w.collection w.rkey →
        cid ∈ blobsAfter lib a.repo writes w.collection w.rkey →
        w.action ≠ .create → cid ∈ w.storedBlobs lib) ∧
      (cid ∉ recordBlobs lib a.repo w.collection w.rkey →
        cid ∉ blobsAfter lib a.repo writes w.collection w.rkey →
        cid ∉ w.storedBlobs lib) := by
  have hindex : ∀ w ∈ writes, ∃ i, (w, i) ∈ writes.zipIdx := by
    intro w hw
    obtain ⟨i, hi, rfl⟩ := List.mem_iff_getElem.mp hw
    exact ⟨i, List.mk_mem_zipIdx_iff_getElem?.mpr (List.getElem?_eq_getElem hi)⟩
  constructor
  · intro h cid hcid w hw
    obtain ⟨i, hi⟩ := hindex w hw
    refine ⟨fun hbefore hafter hne => ?_, fun hbefore hafter hnames => ?_⟩
    · exact (hkeeps w i hi cid).mp
        ((h.named cid hcid _ _ hbefore).mp hafter w i hi rfl rfl hne)
    · exact hafter ((h.unnamed cid hcid _ _ hbefore).mpr
        ⟨w, i, hi, rfl, rfl, (hgrows w i hi cid).mpr hnames⟩)
  · intro h
    obtain ⟨hlength, hcontent, hfit, -⟩ := htree.apply _ _ _ _ _ hbuilt
    -- the records after the batch, as those of a store that holds its commit
    let s' : RepoStore := { a.repo with car := a.repo.car ++ built.blocks, head := built.commit }
    have hstored : Stored a.repo built s' := ⟨rfl, rfl, rfl⟩
    have hafter : ∀ {c r}, ¬ (c = "" ∨ r = "") → ∀ cid,
        (cid ∈ blobsAfter lib a.repo writes c r ↔
          ∃ v ∈ applyAll ((writes.zip built.records).map treeWrite)
              (recordTree lib.toRepoLibrary a.repo.car a.repo.head) (c, r),
            cid ∈ blockBlobs lib (lib.content v)) := by
      intro c r hne cid
      rw [← recordBlobs_of_batch htree hkeys hbuilt hstored, mem_recordBlobs_iff hne,
        hstored.tree, (htree.apply _ _ _ _ _ hbuilt).2.2.2]
    refine ⟨fun cid hcid c r hbefore => ⟨fun hnamed w i hi hc hr hne => ?_, fun hall => ?_⟩,
      fun cid hcid c r hbefore => ⟨fun hnamed => ?_, ?_⟩, fun cid _ _ _ => hremoves cid⟩
    · subst hc hr
      exact (hkeeps w i hi cid).mpr
        ((h cid hcid w (List.fst_mem_of_mem_zipIdx hi)).1 hbefore hnamed hne)
    · -- a blob that is lost is left out by a write that found its key taken
      have hne : ¬ (c = "" ∨ r = "") := by
        intro hempty
        rw [recordBlobs_eq, if_pos hempty] at hbefore
        cases hbefore
      by_contra hlost
      rw [hafter hne] at hlost
      obtain ⟨_, hmem, hkey, hfresh, hleft⟩ := exists_losing hfit
        ((mem_recordBlobs_iff hne cid).mp hbefore) (fun v hv hP => hlost ⟨v, hv, hP⟩)
      obtain ⟨w, hw, rfl⟩ := List.mem_map.mp hmem
      obtain ⟨rfl, rfl⟩ := Prod.mk.injEq .. ▸ hkey
      obtain ⟨i, hi⟩ := hindex w.1 (List.of_mem_zip hw).1
      have haction : w.1.action ≠ .create := by simpa [treeWrite] using hfresh
      have hkept := (hkeeps w.1 i hi cid).mp (hall w.1 i hi rfl rfl haction)
      obtain ⟨v, hv, hP⟩ := (mem_storedBlobs_iff (hcontent w hw) cid).mp hkept
      exact hleft v hv hP
    · -- a blob that is gained is named by a write
      have hne : ¬ (c = "" ∨ r = "") := by
        intro hempty
        rw [← recordBlobs_of_batch htree hkeys hbuilt hstored, recordBlobs_eq, if_pos hempty]
          at hnamed
        cases hnamed
      obtain ⟨v, hv, hP⟩ := (hafter hne cid).mp hnamed
      rcases applyAll_eq_some hv with hold | ⟨_, hmem, hkey, hvalue⟩
      · exact absurd ((mem_recordBlobs_iff hne cid).mpr ⟨v, hold, hP⟩) hbefore
      · obtain ⟨w, hw, rfl⟩ := List.mem_map.mp hmem
        obtain ⟨rfl, rfl⟩ := Prod.mk.injEq .. ▸ hkey
        obtain ⟨i, hi⟩ := hindex w.1 (List.of_mem_zip hw).1
        exact ⟨w.1, i, hi, rfl, rfl, (hgrows w.1 i hi cid).mpr
          ((mem_storedBlobs_iff (hcontent w hw) cid).mpr ⟨v, hvalue, hP⟩)⟩
    · rintro ⟨w, i, hi, rfl, rfl, hnames⟩
      by_contra hnot
      exact (h cid hcid w (List.fst_mem_of_mem_zipIdx hi)).2 hbefore hnot
        ((hgrows w i hi cid).mp hnames)

end Overwritten

/-! ## The main result -/

/-- After an `applyWrites` or a `createRecord` that succeeds, the associations of the blobs are
exact if and only if the request settles them. -/
theorem blobsExact_iff (lib : RouteLibrary) {number : Double → Json}
    (hprint : PrintsBack lib.toRepoLibrary number) (htree : WritesTree lib.toRepoLibrary)
    (hkeys : PathKeys lib.toRepoLibrary) (a : AccountStores) (ha : Mirrored lib a)
    (r : BlobRequest) (hresults : ReadsResults lib a r) (htids : MintsKeys r)
    (hok : Succeeds lib a r) :
    BlobsExact lib a (a.step lib r) ↔ Settles lib a r := by
  cases r with
  | createRecord req o => exact blobsExact_createRecord hprint htree hkeys ha htids hok
  | applyWrites req o => exact blobsExact_applyWrites hprint htree hkeys ha hresults hok
  | uploadBlob req o => exact hok.elim
  | putRecord req o => exact hok.elim
  | deleteRecord req o => exact hok.elim

/-! ## A record that is deleted and created again -/

section Examples

/-- The parser and the printer, for the trees that the two requests need: the record, the record
once it has been through its block, the batch, and its results. -/
def parseRecreation (text : String) : Option Json :=
  if text = imageText then some imageRecord
  else if text = storedText then some storedRecord
  else if text = recreationText then some recreation
  else if text = recreationResultsText then some recreationResults
  else none

def printRecreation : Json → String
  | .object [("$type", .string "app.example"), ("image", .object [("$type", .string "blob"),
      ("ref", .object [("$link",
        .string "bafkreibm6jg3ux5qumhcn2b3flc3tyu6dmlb4xa7u5bf44yegnrjhc4yeq")])])] => imageText
  | .object [("$type", .string "app.example"), ("image", .object [("ref", .object [("$link",
        .string "bafkreibm6jg3ux5qumhcn2b3flc3tyu6dmlb4xa7u5bf44yegnrjhc4yeq")]),
      ("$type", .string "blob")])] => storedText
  | .array [.object [("$type", .string "com.atproto.repo.applyWrites#delete"),
        ("collection", .string "app.example"), ("rkey", .string "a")],
      .object [("$type", .string "com.atproto.repo.applyWrites#create"),
        ("collection", .string "app.example"), ("rkey", .string "a"),
        ("value", .object [("$type", .string "app.example"), ("image", .object [
          ("$type", .string "blob"), ("ref", .object [("$link",
            .string "bafkreibm6jg3ux5qumhcn2b3flc3tyu6dmlb4xa7u5bf44yegnrjhc4yeq")])])])]] =>
    recreationText
  | .array [.object [("$type", .string "com.atproto.repo.applyWrites#deleteResult")],
      .object [("$type", .string "com.atproto.repo.applyWrites#createResult"),
        ("uri", .string "at://did/app.example/a"), ("cid", .string "r1"),
        ("validationStatus", .string "unknown")]] => recreationResultsText
  | _ => ""

/-- The batch that deletes the record and creates it again, as it is staged. -/
def recreationWrites : List RepoWrite :=
  [⟨.delete, "app.example", "a", [], ""⟩, ⟨.create, "app.example", "a", imageCbor, imageText⟩]

/-- The libraries, as far as the record and the batch need them. -/
def recreationLibrary : RouteLibrary :=
  { oneRecordLibrary with
    parseJson := parseRecreation
    printJson := printRecreation
    repoApplyWrites := fun _ _ head writes =>
      if head = "c1" ∧ writes = recreationWrites then .ok ⟨["c3"], "c3", ["", "r1"]⟩
      else .error .internal }

theorem parse_texts :
    parseRecreation imageText = some imageRecord ∧
      parseRecreation storedText = some storedRecord ∧
      parseRecreation recreationText = some recreation ∧
      parseRecreation recreationResultsText = some recreationResults ∧
      parseRecreation "" = none := by
  have hapart : [imageText, storedText, recreationText, recreationResultsText, ""].Nodup := by
    decide +kernel
  simp only [List.nodup_cons, List.mem_cons, List.not_mem_nil, or_false, not_or] at hapart
  obtain ⟨⟨himage, himage', himage'', himage'''⟩, ⟨hstored, hstored', hstored''⟩, ⟨hbatch, hbatch'⟩,
    hresults, -⟩ := hapart
  refine ⟨if_pos rfl, ?_, ?_, ?_, ?_⟩
  · rw [parseRecreation, if_neg (Ne.symm himage), if_pos rfl]
  · rw [parseRecreation, if_neg (Ne.symm himage'), if_neg (Ne.symm hstored), if_pos rfl]
  · rw [parseRecreation, if_neg (Ne.symm himage''), if_neg (Ne.symm hstored'),
      if_neg (Ne.symm hbatch), if_pos rfl]
  · rw [parseRecreation, if_neg (Ne.symm himage'''), if_neg (Ne.symm hstored''),
      if_neg (Ne.symm hbatch'), if_neg (Ne.symm hresults)]

theorem printsBack_recreation : PrintsBack recreationLibrary.toRepoLibrary .number where
  plain d := Or.inr ⟨d, rfl⟩
  reads j j' h := by
    rw [Json.reread_number]
    have hread : parseRecreation (printRecreation j) = some j' := h
    obtain ⟨himage, hstored, hbatch, hresults, hempty⟩ := parse_texts
    unfold printRecreation at hread
    split at hread
    · exact (Option.some.inj (himage.symm.trans hread)).symm
    · exact (Option.some.inj (hstored.symm.trans hread)).symm
    · exact (Option.some.inj (hbatch.symm.trans hread)).symm
    · exact (Option.some.inj (hresults.symm.trans hread)).symm
    · cases hempty.symm.trans hread
  reprints j := by rw [Json.reread_number]

/-- The commits that hold the record, and what the library has under each key. -/
theorem recordTree_recreation (car : List Cid) (head : Cid) :
    recordTree recreationLibrary.toRepoLibrary car head = fun k =>
      if (head = "c1" ∨ head = "c3") ∧ k = ("app.example", "a") then some "r1" else none := by
  funext k
  obtain ⟨c, r⟩ := k
  simp only [recordTree, recordCid, recreationLibrary, oneRecordLibrary, Prod.mk.injEq]
  by_cases hhead : head = "c1" ∨ head = "c3"
  · have hne : head ≠ "" := by rcases hhead with rfl | rfl <;> decide
    simp only [hne, hhead, true_and, if_false]
    split <;> rfl
  · simp [hhead, Except.toOption]

theorem pathKey_example : PathKey "app.example" "a" :=
  ⟨by decide, by decide, by decide, by decide⟩

theorem writesTree_recreation : WritesTree recreationLibrary.toRepoLibrary where
  create clock car head collection rkey body built h := by
    have hput : ∀ commit, (head = "" ∨ head = "c2") → (commit = "c1" ∨ commit = "c3") →
        recordCid recreationLibrary.toRepoLibrary car head "app.example" "a" = none ∧
          recordTree recreationLibrary.toRepoLibrary (car ++ built.blocks) commit =
            Function.update (recordTree recreationLibrary.toRepoLibrary car head)
              ("app.example", "a") (some "r1") := by
      intro commit hhead hcommit
      have hold : ¬ (head = "c1" ∨ head = "c3") := by rcases hhead with rfl | rfl <;> decide
      refine ⟨?_, ?_⟩
      · have htree := congrFun (recordTree_recreation car head) ("app.example", "a")
        rwa [if_neg fun hk => hold hk.1] at htree
      · rw [recordTree_recreation, recordTree_recreation]
        funext k
        by_cases hk : k = ("app.example", "a")
        · simp [hk, hcommit]
        · simp [hk]
    simp only [recreationLibrary, oneRecordLibrary] at h
    split at h
    · next hkey =>
      obtain ⟨rfl, rfl, rfl⟩ := hkey
      split at h
      · next hhead =>
        cases h
        exact ⟨"r1", rfl, rfl, hput "c1" (Or.inl hhead) (Or.inl rfl)⟩
      · split at h
        · next hhead =>
          cases h
          exact ⟨"r1", rfl, rfl, hput "c3" (Or.inr hhead) (Or.inr rfl)⟩
        · cases h
    · cases h
  apply clock car head writes built h := by
    simp only [recreationLibrary] at h
    split at h
    · next hbatch =>
      obtain ⟨rfl, rfl⟩ := hbatch
      cases h
      refine ⟨rfl, fun w hw hne => ?_, ?_, ?_⟩
      · simp only [recreationWrites, List.zip_cons_cons, List.zip_nil_right, List.mem_cons,
          List.not_mem_nil, or_false] at hw
        rcases hw with rfl | rfl
        · exact absurd rfl hne
        · rfl
      · rw [recordTree_recreation]
        refine ⟨?_, ?_, trivial⟩ <;> simp [Write.Fits, Write.apply, treeWrite]
      · rw [recordTree_recreation, recordTree_recreation]
        funext k
        by_cases hk : k = ("app.example", "a")
        · simp [hk, recreationWrites, treeWrite, Write.apply]
        · simp [hk, recreationWrites, treeWrite, Write.apply]
    · cases h

theorem pathKeys_recreation : PathKeys recreationLibrary.toRepoLibrary where
  get car head collection rkey cid h := by
    simp only [recreationLibrary, oneRecordLibrary] at h
    split at h
    · next hkey =>
      obtain ⟨-, rfl, rfl⟩ := hkey
      exact pathKey_example
    · cases h
  apply clock car head writes built h w hw := by
    simp only [recreationLibrary] at h
    split at h
    · next hbatch =>
      rw [hbatch.2, recreationWrites, List.mem_cons, List.mem_singleton] at hw
      rcases hw with rfl | rfl <;> exact pathKey_example
    · cases h

/-- The blob is uploaded; a record that names it is created. -/
def blobUploaded : AccountStores :=
  exec (AccountStores.step recreationLibrary) ⟨.new "did", .empty⟩ [uploadImage]

def blobNamed : AccountStores :=
  exec (AccountStores.step recreationLibrary) ⟨.new "did", .empty⟩ [uploadImage, createImage]

theorem recordBlobs_recreation (s : RepoStore) (collection rkey : String) :
    recordBlobs recreationLibrary s collection rkey =
      if (s.head = "c1" ∨ s.head = "c3") ∧ (collection, rkey) = ("app.example", "a") then
        [imageCid] else [] := by
  have htree := congrFun (recordTree_recreation s.car s.head) (collection, rkey)
  have hblock : blockBlobs recreationLibrary (recreationLibrary.content "r1") = [imageCid] := by
    decide
  rw [recordTree] at htree
  rw [recordBlobs_eq, htree]
  split
  · next hempty =>
    rw [if_neg]
    rintro ⟨-, hkey⟩
    obtain ⟨rfl, rfl⟩ := Prod.mk.injEq .. ▸ hkey
    revert hempty
    decide
  · split
    · exact hblock
    · rfl

/-- The stored blobs with their associations. -/
theorem blobUploaded_nodes :
    blobUploaded.blobs.nodes.map (fun n => (n.cid, n.refs)) = [(imageCid, ∅)] := by
  decide

/-- What the two requests read, what they write, and the account after each. -/
theorem recreation_evaluated :
    ((readCreate recreationLibrary ⟨some (.object [("collection", .string "app.example"),
        ("rkey", .string "a"), ("record", imageRecord)]), 200⟩ .good).toOption.map (fun input =>
          (input.collection, input.rkey, input.recordJson, input.swapCommit)) =
        some ("app.example", some "a", imageText, none) ∧
      (createRecordLocked recreationLibrary.toRepoLibrary blobUploaded.repo "app.example"
        (some "a") imageText none .good).returned.toOption =
          some ("at://did/app.example/a", "r1")) ∧
    (blobNamed.repo.head, blobNamed.repo.did,
      blobNamed.blobs.nodes.map fun n => (n.cid, n.refs)) =
        ("c1", "did", [(imageCid, {makeUri "did" "app.example" "a"})]) ∧
    ((readApply recreationLibrary ⟨some (.object [("writes", recreation)]), 300⟩
        .good).toOption.map (fun input => (input.swapCommit,
          recreationLibrary.printJson (.array input.writes))) = some (none, recreationText) ∧
      (applyWritesLocked recreationLibrary.toRepoLibrary blobNamed.repo recreationText none
        .good).returned.toOption.map ApplyReturn.results = some recreationResultsText) ∧
    ((blobNamed.step recreationLibrary recreateImage).repo.head,
      (blobNamed.step recreationLibrary recreateImage).blobs.table imageCid) = ("c3", none) := by
  decide +kernel

theorem blobNamed_head : blobNamed.repo.head = "c1" :=
  congrArg Prod.fst recreation_evaluated.2.1

theorem blobNamed_did : blobNamed.repo.did = "did" :=
  congrArg (fun facts => facts.2.1) recreation_evaluated.2.1

theorem blobNamed_nodes :
    blobNamed.blobs.nodes.map (fun n => (n.cid, n.refs)) =
      [(imageCid, {makeUri "did" "app.example" "a"})] :=
  congrArg (fun facts => facts.2.2) recreation_evaluated.2.1

theorem mem_nodes_of_table {s : BlobStore} {cid : String} {refs : Finset String}
    (h : s.table cid = some refs) : (cid, refs) ∈ s.nodes.map fun n => (n.cid, n.refs) := by
  obtain ⟨n, hn, rfl⟩ := Option.map_eq_some_iff.mp h
  rw [← BlobStore.cid_of_find hn]
  exact List.mem_map_of_mem (List.mem_of_find?_eq_some hn)

theorem mirrored_blobUploaded : Mirrored recreationLibrary blobUploaded := by
  have hrefs : ∀ cid refs, blobUploaded.blobs.table cid = some refs → refs = ∅ := by
    intro cid refs h
    have hmem := mem_nodes_of_table h
    rw [blobUploaded_nodes, List.mem_singleton, Prod.mk.injEq] at hmem
    exact hmem.2
  have hhead : blobUploaded.repo.head = "" := by decide
  refine ⟨fun cid refs h collection rkey => ?_, fun cid refs h uri huri => ?_⟩
  · rw [hrefs cid refs h, recordBlobs_recreation, hhead]
    simp
  · rw [hrefs cid refs h] at huri
    cases huri

theorem mirrored_blobNamed : Mirrored recreationLibrary blobNamed := by
  have hnode : ∀ cid refs, blobNamed.blobs.table cid = some refs →
      cid = imageCid ∧ refs = {makeUri "did" "app.example" "a"} := by
    intro cid refs h
    have hmem := mem_nodes_of_table h
    rwa [blobNamed_nodes, List.mem_singleton, Prod.mk.injEq] at hmem
  refine ⟨fun cid refs h collection rkey => ?_, fun cid refs h uri huri => ?_⟩
  · obtain ⟨rfl, rfl⟩ := hnode cid refs h
    rw [Finset.mem_singleton, recordBlobs_recreation, blobNamed_head, blobNamed_did]
    constructor
    · intro heq
      obtain ⟨rfl, rfl⟩ := makeUri_injective pathKey_example heq.symm
      simp
    · intro hmem
      split at hmem
      · next hkey =>
        obtain ⟨rfl, rfl⟩ := Prod.mk.injEq .. ▸ hkey.2
        rfl
      · cases hmem
  · obtain ⟨rfl, rfl⟩ := hnode cid refs h
    rw [Finset.mem_singleton] at huri
    exact ⟨"app.example", "a", by rw [huri, blobNamed_did]⟩

/-- What the create reads. -/
theorem readCreate_createImage {input : RecordInput}
    (h : readCreate recreationLibrary ⟨some (.object [("collection", .string "app.example"),
      ("rkey", .string "a"), ("record", imageRecord)]), 200⟩ .good = .ok input) :
    input.collection = "app.example" ∧ input.rkey = some "a" ∧ input.recordJson = imageText ∧
      input.swapCommit = none := by
  have hread := recreation_evaluated.1.1
  rw [h, Except.toOption, Option.map_some, Option.some.injEq, Prod.mk.injEq, Prod.mk.injEq,
    Prod.mk.injEq] at hread
  exact hread

theorem succeeds_createImage : Succeeds recreationLibrary blobUploaded createImage := by
  obtain ⟨hread, hcreate⟩ := recreation_evaluated.1
  cases h : readCreate recreationLibrary ⟨some (.object [("collection", .string "app.example"),
      ("rkey", .string "a"), ("record", imageRecord)]), 200⟩ .good with
  | error response =>
    rw [h] at hread
    cases hread
  | ok input =>
    obtain ⟨hcollection, hrkey, hrecord, hswap⟩ := readCreate_createImage h
    cases hreturned : (createRecordLocked recreationLibrary.toRepoLibrary blobUploaded.repo
        "app.example" (some "a") imageText none .good).returned with
    | error error =>
      rw [hreturned] at hcreate
      cases hcreate
    | ok result =>
      refine ⟨input, result, h, ?_⟩
      rw [hcollection, hrkey, hrecord, hswap]
      exact hreturned

/-- The record that is created is associated with the blob that it names. -/
theorem blobsExact_createImage :
    BlobsExact recreationLibrary blobUploaded (blobUploaded.step recreationLibrary createImage) := by
  refine (blobsExact_iff recreationLibrary printsBack_recreation writesTree_recreation
    pathKeys_recreation blobUploaded mirrored_blobUploaded createImage trivial
    (fun i h => ?_) succeeds_createImage).mpr ?_
  · have htid : RouteOutcomes.good.write.tids i ≠ some "" := by
      simp [RouteOutcomes.good, WriteOutcomes.good]
    exact htid h
  · intro input key hread hcheck
    obtain ⟨hcollection, hrkey, hrecord, hswap⟩ := readCreate_createImage hread
    rw [hcollection, hrkey, hrecord, hswap] at hcheck
    obtain ⟨-, hkey, -, -⟩ := checkCreate_ok_iff.mp hcheck
    have hcreateKey : createKey recreationLibrary.toRepoLibrary (some "a")
        (RouteOutcomes.good.write.tids 0) = some "a" := by decide
    obtain rfl : "a" = key := Option.some.inj (hcreateKey.symm.trans hkey)
    have hstored : ∀ cid, blobUploaded.blobs.Stores cid → cid = imageCid := by
      intro cid hcid
      have hnodes : blobUploaded.blobs.nodes.map BlobNode.cid = [imageCid] := by decide
      rwa [BlobStore.Stores, hnodes, List.mem_singleton] at hcid
    rw [hcollection, hrecord]
    refine ⟨fun cid hcid cbor hcbor => ?_, fun cid _ conflict hconflict => ?_⟩
    · obtain rfl := hstored cid hcid
      have hencode : (encodeRecordJson recreationLibrary.toRepoLibrary imageText).toOption =
          some imageCbor := by decide
      rw [hcbor, Except.toOption, Option.some.injEq] at hencode
      rw [hencode]
      refine iff_of_true ?_ (Or.inr ?_) <;> decide
    · have hnone : backlinkConflicts recreationLibrary.toRepoLibrary blobUploaded.repo
          "app.example" "a" imageText RouteOutcomes.good.write = [] := by decide
      rw [hnone] at hconflict
      cases hconflict

/-- What the batch reads. -/
theorem readApply_recreateImage {input : BatchInput}
    (h : readApply recreationLibrary ⟨some (.object [("writes", recreation)]), 300⟩ .good =
      .ok input) :
    input.swapCommit = none ∧ recreationLibrary.printJson (.array input.writes) = recreationText := by
  have hread := recreation_evaluated.2.2.1.1
  rw [h, Except.toOption, Option.map_some, Option.some.injEq, Prod.mk.injEq] at hread
  exact hread

/-- A record is deleted and created again in one batch, with the same value: the blob that it
named before and names again is not associated with it any more. -/
theorem recreation_is_not_exact :
    PrintsBack recreationLibrary.toRepoLibrary .number ∧
      WritesTree recreationLibrary.toRepoLibrary ∧ PathKeys recreationLibrary.toRepoLibrary ∧
      Mirrored recreationLibrary blobNamed ∧ ReadsResults recreationLibrary blobNamed recreateImage ∧
      Succeeds recreationLibrary blobNamed recreateImage ∧
      ¬ BlobsExact recreationLibrary blobNamed
        (blobNamed.step recreationLibrary recreateImage) := by
  obtain ⟨hread, hresults⟩ := recreation_evaluated.2.2.1
  refine ⟨printsBack_recreation, writesTree_recreation, pathKeys_recreation, mirrored_blobNamed,
    ?_, ?_, fun hexact => ?_⟩
  · intro input applied hread hreturned
    obtain ⟨hswap, hprint⟩ := readApply_recreateImage hread
    rw [hswap, hprint] at hreturned
    have htext := hresults
    rw [show RouteOutcomes.good.write = WriteOutcomes.good from rfl] at hreturned
    rw [hreturned, Except.toOption, Option.map_some, Option.some.injEq] at htext
    rw [htext]
    simp only [recreationLibrary, parse_texts.2.2.2.1, Option.isSome_some]
  · cases h : readApply recreationLibrary ⟨some (.object [("writes", recreation)]), 300⟩ .good with
    | error response =>
      rw [h] at hread
      cases hread
    | ok input =>
      obtain ⟨hswap, hprint⟩ := readApply_recreateImage h
      cases hreturned : (applyWritesLocked recreationLibrary.toRepoLibrary blobNamed.repo
          recreationText none .good).returned with
      | error error =>
        rw [hreturned] at hresults
        cases hresults
      | ok applied =>
        refine ⟨input, applied, h, ?_⟩
        rw [hswap, hprint]
        exact hreturned
  · obtain ⟨hhead, hgone⟩ := Prod.mk.inj recreation_evaluated.2.2.2
    have hstored : blobNamed.blobs.Stores imageCid := by
      have hcids : blobNamed.blobs.nodes.map BlobNode.cid = [imageCid] := by
        simpa using congrArg (List.map Prod.fst) blobNamed_nodes
      rw [BlobStore.Stores, hcids]
      exact List.mem_singleton_self imageCid
    have hnamed : imageCid ∈ recordBlobs recreationLibrary
        (blobNamed.step recreationLibrary recreateImage).repo "app.example" "a" := by
      rw [recordBlobs_recreation, if_pos ⟨Or.inr hhead, rfl⟩]
      exact List.mem_singleton_self imageCid
    obtain ⟨refs, hrefs, -⟩ := (hexact.mem_iff imageCid hstored "app.example" "a").mpr hnamed
    rw [hgone] at hrefs
    cases hrefs

end Examples

end MetalBear.Repo
