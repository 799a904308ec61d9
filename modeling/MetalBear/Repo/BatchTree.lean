import MetalBear.Library.KeyedWrites
import MetalBear.Repo.Overlap

/-!
# Writes and the tree of records

What the repository library is relied on to do with the tree, stated as writes to a map from
keys to CIDs, and what follows for a create and for a batch that succeed: which writes were
staged, and what the store holds afterwards.
-/

namespace MetalBear.Repo

open KeyedWrites

/-! ## The tree as a map -/

/-- The CIDs of the records, by collection and key. -/
def recordTree (lib : RepoLibrary) (car : List Cid) (head : Cid) : Map (String × String) Cid :=
  fun k => recordCid lib car head k.1 k.2

/-- A write of a batch with the CID of its record, as a write of the tree. -/
def treeWrite (w : RepoWrite × Cid) : Write (String × String) Cid where
  key := (w.1.collection, w.1.rkey)
  fresh := w.1.action = .create
  value := if w.1.action = .delete then none else some w.2

/-- What the repository library is relied on to do: a create and a batch change the tree write
by write, each write finds its key as it expects it, and each record is stored under its CID. -/
structure WritesTree (lib : RepoLibrary) : Prop where
  create : ∀ clock car head collection rkey body built,
    lib.repoCreateRecord clock car head collection rkey body = .ok built →
      ∃ cid, built.records = [cid] ∧ lib.content cid = body ∧
        recordCid lib car head collection rkey = none ∧
        recordTree lib (car ++ built.blocks) built.commit =
          Function.update (recordTree lib car head) (collection, rkey) (some cid)
  apply : ∀ clock car head writes built, lib.repoApplyWrites clock car head writes = .ok built →
    built.records.length = writes.length ∧
      (∀ w ∈ writes.zip built.records, w.1.action ≠ .delete →
        lib.content w.2 = w.1.recordCbor) ∧
      FitAll (recordTree lib car head) ((writes.zip built.records).map treeWrite) ∧
      recordTree lib (car ++ built.blocks) built.commit =
        applyAll ((writes.zip built.records).map treeWrite) (recordTree lib car head)

/-- What is relied on of the JSON parser: what is printed and can be read reads back as it was,
numbers apart, and prints to the same text again. -/
structure PrintsBack (lib : RepoLibrary) (number : Double → Json) : Prop where
  plain : ∀ d, number d = .null ∨ ∃ d', number d = .number d'
  reads : ∀ j j', lib.parseJson (lib.printJson j) = some j' → j' = j.reread number
  reprints : ∀ j, lib.printJson (j.reread number) = lib.printJson j

theorem PrintsBack.flat {lib : RepoLibrary} {number : Double → Json} (h : PrintsBack lib number)
    (d : Double) : (number d).isObject = false ∧ (number d).valueString = none := by
  rcases h.plain d with hd | ⟨d', hd⟩ <;> rw [hd] <;> exact ⟨rfl, rfl⟩

/-! ## Staged writes -/

section Staging

variable {lib : RepoLibrary} {number : Double → Json}

/-- An element is staged the same once its text has been read back. -/
theorem stageWrite_reread (hlib : PrintsBack lib number) (tid : Option String) (op : Json) :
    stageWrite lib tid (op.reread number) = stageWrite lib tid op := by
  have hvalue := Json.getObjectItem_reread (fun d => (hlib.flat d).1) op "value"
  unfold stageWrite
  simp only [Json.getString_reread hlib.flat, hvalue]
  cases op.getString "$type" with
  | none => rfl
  | some type =>
    cases op.getString "collection" with
    | none => rfl
    | some collection =>
      cases op.getObjectItem "value" with
      | none => rfl
      | some value => simp only [Option.map_some, hlib.reprints]

theorem stageWrites_reread (hlib : PrintsBack lib number) (tids : Nat → Option String) (i : Nat)
    (ops : List Json) :
    stageWrites lib tids i (ops.map (Json.reread number)) = stageWrites lib tids i ops := by
  induction ops generalizing i with
  | nil => rfl
  | cons op ops ih => rw [List.map_cons, stageWrites, stageWrites, stageWrite_reread hlib, ih]

/-- A batch whose text was printed from some elements is planned from these. -/
theorem planApplyWrites_printed (hlib : PrintsBack lib number) {s : RepoStore} {ops : List Json}
    {swapCommit : Option String} {o : WriteOutcomes} {writes : List RepoWrite}
    {built : RepoCommit}
    (h : planApplyWrites lib s (lib.printJson (.array ops)) swapCommit o = .ok (writes, built)) :
    ops.length ≤ 200 ∧ stageWrites lib o.tids 0 ops = .ok writes ∧
      lib.repoApplyWrites o.clock s.car s.head writes = .ok built := by
  unfold planApplyWrites at h
  split at h
  · next ops' hparse =>
    have hread := hlib.reads _ _ hparse
    rw [Json.reread, Json.array.injEq, Json.rereadItems_eq_map] at hread
    obtain ⟨_, -, h⟩ := except_bind_ok h
    obtain ⟨_, hcount, h⟩ := except_bind_ok h
    obtain ⟨staged, hstaged, h⟩ := except_bind_ok h
    obtain ⟨c, hc, h⟩ := except_bind_ok h
    cases h
    have hlength := refuseIf_ok hcount
    rw [hread] at hstaged hlength
    rw [stageWrites_reread hlib] at hstaged
    rw [List.length_map] at hlength
    exact ⟨by omega, hstaged, hc⟩
  · cases h

/-- A batch is planned if its text can be read back, it is not too long, its elements are
staged, and a commit is made of them. -/
theorem planApplyWrites_of_staged (hlib : PrintsBack lib number) {s : RepoStore} {ops : List Json} {o : WriteOutcomes}
    {writes : List RepoWrite} {built : RepoCommit}
    (hreads : (lib.parseJson (lib.printJson (.array ops))).isSome = true)
    (hcount : ops.length ≤ 200) (hstaged : stageWrites lib o.tids 0 ops = .ok writes)
    (hbuilt : lib.repoApplyWrites o.clock s.car s.head writes = .ok built) :
    planApplyWrites lib s (lib.printJson (.array ops)) none o = .ok (writes, built) := by
  obtain ⟨j, hparse⟩ := Option.isSome_iff_exists.mp hreads
  rw [hlib.reads _ _ hparse, Json.reread, Json.rereadItems_eq_map] at hparse
  rw [← stageWrites_reread hlib] at hstaged
  have hlength : ¬ 200 < (ops.map (Json.reread number)).length := by
    rw [List.length_map]
    omega
  rw [planApplyWrites, hparse]
  simp only [checkSwap, refuseIf, hlength, if_false, hstaged, hbuilt, bind, Except.bind]
  rfl

/-- What a staged write has from its element. -/
structure StagedFrom (lib : RepoLibrary) (op : Json) (write : RepoWrite) : Prop where
  type : op.getString "$type" = some write.action.type
  collection : op.getString "collection" = some write.collection
  collection_ne : write.collection ≠ ""
  rkey : ∀ rkey, op.getString "rkey" = some rkey → rkey ≠ "" → write.rkey = rkey
  given : write.action ≠ .create → op.getString "rkey" = some write.rkey ∧ write.rkey ≠ ""
  value : write.action ≠ .delete → ∃ value, op.getObjectItem "value" = some value ∧
    write.value = lib.printJson value ∧
    encodeRecordJson lib write.value = .ok write.recordCbor

theorem stageKey_ok {action : WriteAction} {rkey tid : Option String} {key : String}
    (h : stageKey lib action rkey tid = .ok key) :
    (∀ r, rkey = some r → r ≠ "" → key = r) ∧
      (action ≠ .create → rkey = some key ∧ key ≠ "") := by
  unfold stageKey at h
  cases hr : rkey.filter (· ≠ "") with
  | some r =>
    rw [hr] at h
    obtain ⟨hsome, hne⟩ := Option.filter_eq_some_iff.mp hr
    dsimp only at h
    split at h
    · cases h
      refine ⟨fun r' hr' _ => ?_, fun _ => ⟨hsome, by simpa using hne⟩⟩
      rw [hsome] at hr'
      exact Option.some.inj hr'
    · cases h
  | none =>
    rw [hr] at h
    dsimp only at h
    split at h
    · cases h
    · next haction =>
      refine ⟨fun r hr' hne => ?_, fun hne => absurd (not_not.mp haction) hne⟩
      rw [hr', Option.filter_some, if_pos (by simpa using hne)] at hr
      cases hr

theorem stageWrite_from {tid : Option String} {op : Json} {write : RepoWrite}
    (h : stageWrite lib tid op = .ok write) : StagedFrom lib op write := by
  have hstages := stageWrite_stages h
  unfold stageWrite at h
  split at h
  · next type collection htype hcollection =>
    split at h
    · cases h
    · next action haction =>
      obtain ⟨_, hempty, h⟩ := except_bind_ok h
      obtain ⟨rkey, hrkey, h⟩ := except_bind_ok h
      obtain ⟨hgiven, htaken⟩ := stageKey_ok hrkey
      split at h
      · next hdelete =>
        cases h
        exact ⟨hstages.type, hcollection, refuseIf_ok hempty, hgiven, htaken,
          fun hne => absurd hdelete hne⟩
      · split at h
        · cases h
        · next value hvalue =>
          obtain ⟨_, -, h⟩ := except_bind_ok h
          obtain ⟨cbor, hcbor, h⟩ := except_bind_ok h
          cases h
          exact ⟨hstages.type, hcollection, refuseIf_ok hempty, hgiven, htaken,
            fun _ => ⟨value, hvalue, rfl, hcbor⟩⟩
  · cases h

theorem stageWrites_from {tids : Nat → Option String} {i : Nat} {ops : List Json}
    {writes : List RepoWrite} (h : stageWrites lib tids i ops = .ok writes) :
    List.Forall₂ (StagedFrom lib) ops writes := by
  induction ops generalizing i writes with
  | nil =>
    cases h
    exact .nil
  | cons op ops ih =>
    obtain ⟨write, hwrite, h⟩ := except_bind_ok h
    obtain ⟨rest, hrest, h⟩ := except_bind_ok h
    cases h
    exact .cons (stageWrite_from hwrite) (ih hrest)

end Staging

/-! ## What a write that succeeds leaves -/

section Success

variable {lib : RepoLibrary} {s : RepoStore} {o : WriteOutcomes}

/-- The new commit is the head, over its blocks. -/
structure Stored (s : RepoStore) (built : RepoCommit) (s' : RepoStore) : Prop where
  head : s'.head = built.commit
  car : s'.car = s.car ++ built.blocks
  did : s'.did = s.did

theorem Stored.tree {built : RepoCommit} {s' : RepoStore} (h : Stored s built s') :
    recordTree lib s'.car s'.head = recordTree lib (s.car ++ built.blocks) built.commit := by
  rw [h.car, h.head]

theorem indexUpsertRecord_frame (lib : RepoLibrary) (s : RepoStore) (collection rkey : String)
    (cid : Cid) (value : String) (writes : Bool) :
    let s' := indexUpsertRecord lib s collection rkey cid value writes
    s'.head = s.head ∧ s'.car = s.car ∧ s'.did = s.did := by
  cases writes <;> exact ⟨rfl, rfl, rfl⟩

theorem indexWrites_frame (lib : RepoLibrary) (indexes : Nat → Bool) (i : Nat)
    (writes : List (RepoWrite × Cid)) (s : RepoStore) :
    let s' := indexWrites lib indexes i writes s
    s'.head = s.head ∧ s'.car = s.car ∧ s'.did = s.did := by
  induction writes generalizing i s with
  | nil => exact ⟨rfl, rfl, rfl⟩
  | cons w writes ih =>
    rw [indexWrites]
    obtain ⟨hhead, hcar, hdid⟩ := ih (i + 1) (if w.1.action = .delete then
      indexDeleteRecord s w.1.collection w.1.rkey (indexes i)
      else indexUpsertRecord lib s w.1.collection w.1.rkey w.2 w.1.value (indexes i))
    refine ⟨hhead.trans ?_, hcar.trans ?_, hdid.trans ?_⟩ <;> split <;> cases indexes i <;> rfl

/-- A create without conflicts that succeeds. -/
theorem landRecord_ok {collection rkey recordJson : String} {built : RepoCommit}
    {action : WriteAction} {prev : Option Cid} {uri cid : String}
    (h : (landRecord lib s collection rkey recordJson built action prev o).returned =
      .ok (uri, cid)) :
    uri = makeUri s.did collection rkey ∧
      ∃ s', commitPersist lib.toBlockLibrary { s with car := s.car ++ built.blocks } built.commit
          o.persist = (s', none) ∧
        (landRecord lib s collection rkey recordJson built action prev o).store =
          indexUpsertRecord lib s' collection rkey (built.records.headD "") recordJson
            (o.indexes 0) ∧
        Stored s built s' := by
  obtain ⟨hhead, -, hcar, hdid⟩ := commitPersist_frame lib.toBlockLibrary
    { s with car := s.car ++ built.blocks } built.commit o.persist
  rw [landRecord] at h ⊢
  revert h hhead hcar hdid
  generalize commitPersist lib.toBlockLibrary { s with car := s.car ++ built.blocks } built.commit
    o.persist = r
  obtain ⟨s', error⟩ := r
  intro h hhead hcar hdid
  cases error with
  | some error => cases h
  | none =>
    dsimp only at h ⊢
    split at h
    · cases h
    · next halloc =>
      cases h
      rw [if_neg halloc]
      exact ⟨rfl, s', rfl, rfl, hhead, hcar, hdid⟩

/-- A batch that succeeds. -/
theorem applyWritesLocked_ok {writesJson : String} {swapCommit : Option String}
    {applied : ApplyReturn}
    (h : (applyWritesLocked lib s writesJson swapCommit o).returned = .ok applied) :
    ∃ writes built, planApplyWrites lib s writesJson swapCommit o = .ok (writes, built) ∧
      applied.results = lib.printJson (.array ((writes.zip built.records).map fun w =>
        writeResultJson s.did w.1 w.2)) ∧
      ∃ s', commitPersist lib.toBlockLibrary { s with car := s.car ++ built.blocks } built.commit
          o.persist = (s', none) ∧
        (applyWritesLocked lib s writesJson swapCommit o).store =
          indexWrites lib o.indexes 0 (writes.zip built.records) s' ∧
        Stored s built s' := by
  cases hplan : planApplyWrites lib s writesJson swapCommit o with
  | error error =>
    rw [applyWritesLocked_error hplan] at h
    cases h
  | ok planned =>
    obtain ⟨writes, built⟩ := planned
    obtain ⟨-, -, hresults⟩ := applyWritesLocked_spec hplan
    refine ⟨writes, built, rfl, hresults applied h, ?_⟩
    obtain ⟨hhead, -, hcar, hdid⟩ := commitPersist_frame lib.toBlockLibrary
      { s with car := s.car ++ built.blocks } built.commit o.persist
    clear hresults
    rw [applyWritesLocked, hplan] at h ⊢
    revert h hhead hcar hdid
    dsimp only
    generalize commitPersist lib.toBlockLibrary { s with car := s.car ++ built.blocks }
      built.commit o.persist = r
    obtain ⟨s', error⟩ := r
    intro h hhead hcar hdid
    cases error with
    | some error => cases h
    | none =>
      dsimp only at h ⊢
      split at h
      · cases h
      · next halloc =>
        split at h
        · cases h
        · next halloc' =>
          rw [if_neg halloc, if_neg halloc']
          exact ⟨s', rfl, rfl, hhead, hcar, hdid⟩

end Success

/-! ## The batch of a cleanup -/

section Cleanup

variable {lib : RepoLibrary} {collection rkey : String} {value : Json} {conflicts : List String}

/-- The elements of the batch of a cleanup. -/
def cleanupElements (collection rkey : String) (value : Json) (conflicts : List String) :
    List Json :=
  conflicts.map (fun conflict => .object [("$type", .string WriteAction.delete.type),
      ("collection", .string collection), ("rkey", .string conflict)]) ++
    [.object [("$type", .string WriteAction.create.type), ("collection", .string collection),
      ("rkey", .string rkey), ("value", value)]]

theorem cleanupWrites_eq :
    cleanupWrites collection rkey value conflicts =
      .array (cleanupElements collection rkey value conflicts) := rfl

/-- The writes of the batch of a cleanup. -/
def cleanupBatch (collection rkey : String) (cbor : List UInt8) (text : String)
    (conflicts : List String) : List RepoWrite :=
  conflicts.map (fun conflict => ⟨.delete, collection, conflict, [], ""⟩) ++
    [⟨.create, collection, rkey, cbor, text⟩]

/-- A given key is taken if it is valid. -/
theorem stageKey_given (action : WriteAction) {rkey : String} (hrkey : rkey ≠ "")
    (tid : Option String) :
    stageKey lib action (some rkey) tid =
      if lib.recordKeyIsValid rkey then .ok rkey else .error .invalidArg := by
  have hfilter : (some rkey).filter (· ≠ "") = some rkey := by simpa using hrkey
  unfold stageKey
  rw [hfilter]

theorem stageKey_delete (rkey : String) (tid : Option String) :
    stageKey lib .delete (some rkey) tid =
      if rkey ≠ "" ∧ lib.recordKeyIsValid rkey then .ok rkey else .error .invalidArg := by
  by_cases hrkey : rkey = ""
  · rw [if_neg fun h => h.1 hrkey, hrkey]
    rfl
  · rw [stageKey_given _ hrkey]
    simp only [ne_eq, hrkey, not_false_eq_true, true_and]

theorem stageWrite_cleanupDelete (hcollection : collection ≠ "") (conflict : String)
    (tid : Option String) :
    stageWrite lib tid (.object [("$type", .string WriteAction.delete.type),
        ("collection", .string collection), ("rkey", .string conflict)]) =
      if conflict ≠ "" ∧ lib.recordKeyIsValid conflict then
        .ok ⟨.delete, collection, conflict, [], ""⟩
      else .error .invalidArg := by
  have htype : writeActionOf WriteAction.delete.type = some .delete := writeActionOf_type _
  simp only [stageWrite, Json.getString, Json.getObjectItem, List.find?, Option.map_some,
    Option.bind_some, Json.valueString, String.reduceBEq, htype, stageKey_delete, refuseIf,
    hcollection, if_false, if_true]
  split <;> rfl

theorem stageWrite_cleanupCreate (hcollection : collection ≠ "") (hrkey : rkey ≠ "")
    (tid : Option String) :
    stageWrite lib tid (.object [("$type", .string WriteAction.create.type),
        ("collection", .string collection), ("rkey", .string rkey), ("value", value)]) =
      if lib.recordKeyIsValid rkey ∧ recordTypeMatches lib (lib.printJson value) collection then
        (encodeRecordJson lib (lib.printJson value)).map fun cbor =>
          ⟨.create, collection, rkey, cbor, lib.printJson value⟩
      else .error .invalidArg := by
  have htype : writeActionOf WriteAction.create.type = some .create := writeActionOf_type _
  have hgiven : stageKey lib .create (some rkey) tid = _ := stageKey_given .create hrkey tid
  simp only [stageWrite, Json.getString, Json.getObjectItem, List.find?, Option.map_some,
    Option.bind_some, Json.valueString, String.reduceBEq, htype, hgiven, refuseIf, hcollection,
    if_false, reduceCtorEq]
  cases lib.recordKeyIsValid rkey <;>
    cases recordTypeMatches lib (lib.printJson value) collection <;>
    cases encodeRecordJson lib (lib.printJson value) <;> rfl

/-- The batch of a cleanup is staged exactly if its keys are valid and its record is. -/
theorem stageWrites_cleanup_iff (hcollection : collection ≠ "") (hrkey : rkey ≠ "")
    (tids : Nat → Option String) (i : Nat) (writes : List RepoWrite) :
    stageWrites lib tids i (cleanupElements collection rkey value conflicts) = .ok writes ↔
      (∀ conflict ∈ conflicts, conflict ≠ "" ∧ lib.recordKeyIsValid conflict = true) ∧
        lib.recordKeyIsValid rkey = true ∧
        recordTypeMatches lib (lib.printJson value) collection = true ∧
        ∃ cbor, encodeRecordJson lib (lib.printJson value) = .ok cbor ∧
          writes = cleanupBatch collection rkey cbor (lib.printJson value) conflicts := by
  induction conflicts generalizing i writes with
  | nil =>
    rw [cleanupElements, List.map_nil, List.nil_append, stageWrites,
      stageWrite_cleanupCreate hcollection hrkey]
    cases lib.recordKeyIsValid rkey with
    | false => simp [bind, Except.bind]
    | true =>
      cases recordTypeMatches lib (lib.printJson value) collection with
      | false => simp [bind, Except.bind]
      | true =>
        cases encodeRecordJson lib (lib.printJson value) with
        | error error => simp [bind, Except.bind, Except.map]
        | ok cbor =>
          simp only [stageWrites, cleanupBatch, bind, Except.bind, pure, Except.pure, Except.map,
            and_self, if_true, List.map_nil, List.nil_append, Except.ok.injEq, exists_eq_left',
            List.not_mem_nil, false_imp_iff, implies_true, true_and]
          exact eq_comm
  | cons conflict conflicts ih =>
    rw [cleanupElements, List.map_cons, List.cons_append, stageWrites,
      stageWrite_cleanupDelete hcollection conflict]
    have hrest := ih (i + 1)
    rw [cleanupElements] at hrest
    rw [List.forall_mem_cons]
    by_cases hvalid : conflict ≠ "" ∧ lib.recordKeyIsValid conflict = true
    · rw [if_pos hvalid]
      constructor
      · intro h
        obtain ⟨_, hwrite, h⟩ := except_bind_ok h
        cases hwrite
        obtain ⟨rest, hstaged, h⟩ := except_bind_ok h
        cases h
        obtain ⟨hkeys, hkey, hmatches, cbor, hcbor, rfl⟩ := (hrest rest).mp hstaged
        exact ⟨⟨hvalid, hkeys⟩, hkey, hmatches, cbor, hcbor, rfl⟩
      · rintro ⟨⟨-, hkeys⟩, hkey, hmatches, cbor, hcbor, rfl⟩
        have hstaged := (hrest _).mpr ⟨hkeys, hkey, hmatches, cbor, hcbor, rfl⟩
        simp only [hstaged, bind, Except.bind]
        rfl
    · rw [if_neg hvalid]
      simp [bind, Except.bind, hvalid]

/-- The results of a cleanup, once they are read back, end with those of the new record. -/
theorem lastResult_cleanup {number : Double → Json} (hlib : PrintsBack lib number)
    {did text : String} {cbor : List UInt8} {rest : List Cid}
    (hrest : rest.length = conflicts.length) (cid : Cid)
    (hreads : (lib.parseJson (lib.printJson (.array
      (((cleanupBatch collection rkey cbor text conflicts).zip (rest ++ [cid])).map fun w =>
        writeResultJson did w.1 w.2)))).isSome = true) :
    lastResult lib (lib.printJson (.array
      (((cleanupBatch collection rkey cbor text conflicts).zip (rest ++ [cid])).map fun w =>
        writeResultJson did w.1 w.2))) = some (makeUri did collection rkey, cid) := by
  obtain ⟨j, hparse⟩ := Option.isSome_iff_exists.mp hreads
  have hread := hlib.reads _ _ hparse
  rw [Json.reread, Json.rereadItems_eq_map] at hread
  have hlength : (conflicts.map fun conflict =>
      (⟨.delete, collection, conflict, [], ""⟩ : RepoWrite)).length = rest.length := by
    simpa using hrest.symm
  rw [lastResult, hparse, hread, cleanupBatch, List.zip_append hlength]
  simp only [List.zip_cons_cons, List.zip_nil_right, List.map_append, List.map_cons, List.map_nil,
    List.getLast?_concat, bind, Option.bind, writeResultJson, Json.getString_reread hlib.flat]
  rfl

/-- The URI that is read from the results of a cleanup is that of the new record. -/
theorem uri_of_lastResult {number : Double → Json} (hlib : PrintsBack lib number)
    {did text : String} {cbor : List UInt8} {records : List Cid}
    (hlength : records.length = (cleanupBatch collection rkey cbor text conflicts).length)
    {uri cid : String}
    (h : lastResult lib (lib.printJson (.array
      (((cleanupBatch collection rkey cbor text conflicts).zip records).map fun w =>
        writeResultJson did w.1 w.2))) = some (uri, cid)) :
    uri = makeUri did collection rkey := by
  rcases List.eq_nil_or_concat records with rfl | ⟨rest, last, rfl⟩
  · simp [cleanupBatch] at hlength
  · rw [List.concat_eq_append] at h hlength
    have hrest : rest.length = conflicts.length := by simpa [cleanupBatch] using hlength
    rw [lastResult_cleanup hlib hrest last] at h
    · cases h
      rfl
    · unfold lastResult at h
      split at h
      · next hparse => rw [hparse, Option.isSome_some]
      · cases h

/-- A cleanup that succeeds. -/
theorem createRecordWithBacklinkCleanup_ok {number : Double → Json} (hlib : PrintsBack lib number)
    (htree : WritesTree lib) {s : RepoStore} {record : Json} {o : WriteOutcomes}
    (hcollection : collection ≠ "") (hrkey : rkey ≠ "") {uri cid : String}
    (h : (createRecordWithBacklinkCleanup lib s collection rkey (lib.printJson record) conflicts
      o).returned = .ok (uri, cid)) :
    uri = makeUri s.did collection rkey ∧ ∃ cbor built,
      encodeRecordJson lib (lib.printJson record) = .ok cbor ∧
      lib.repoApplyWrites o.clock s.car s.head
        (cleanupBatch collection rkey cbor (lib.printJson record) conflicts) = .ok built ∧
      ∃ s', commitPersist lib.toBlockLibrary { s with car := s.car ++ built.blocks } built.commit
          o.persist = (s', none) ∧
        (createRecordWithBacklinkCleanup lib s collection rkey (lib.printJson record) conflicts
          o).store = indexWrites lib o.indexes 0
            ((cleanupBatch collection rkey cbor (lib.printJson record) conflicts).zip
              built.records) s' ∧
        Stored s built s' := by
  unfold createRecordWithBacklinkCleanup at h ⊢
  split at h
  · cases h
  · next value hvalue =>
    dsimp only at h ⊢
    have hprint : lib.printJson value = lib.printJson record := by
      rw [hlib.reads _ _ hvalue, hlib.reprints]
    split at h
    · cases h
    · next applied happlied =>
      obtain ⟨writes, built, hplan, hresults, s', hpersist, hstore, hstored⟩ :=
        applyWritesLocked_ok happlied
      rw [cleanupWrites_eq] at hplan
      obtain ⟨-, hstaged, hbuilt⟩ := planApplyWrites_printed hlib hplan
      obtain ⟨-, -, -, cbor, hcbor, rfl⟩ :=
        (stageWrites_cleanup_iff hcollection hrkey _ _ _).mp hstaged
      rw [hprint] at hcbor hbuilt hstore hresults
      split at h
      · cases h
      · next result hlast =>
        split at h
        · cases h
        · next halloc =>
          cases h
          rw [hresults] at hlast
          refine ⟨uri_of_lastResult hlib (htree.apply _ _ _ _ _ hbuilt).1 hlast, cbor, built,
            hcbor, hbuilt, s', hpersist, ?_, hstored⟩
          rw [if_neg halloc]
          exact hstore

end Cleanup

end MetalBear.Repo
