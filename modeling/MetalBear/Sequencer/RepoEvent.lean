import MetalBear.Repo.BlobAssociations
import MetalBear.Sequencer.Log

/-!
# Repository events

The data of the four kinds of events in the log, as the arrays of `wf_subscribe_event` hold
them, and `metalbear_sequencer_repo_event`, which turns an event of the repository store into
a frame. A #commit frame names the records of its commit by paths.
-/

namespace MetalBear.Sequencer

open KeyedWrites MetalBear.Repo

/-! ## Events and frames -/

/-- `wf_subscribe_repo_op`. -/
structure SubscribeRepoOp where
  action : String
  path : String
  cid : Option Cid
  prev : Option Cid
  deriving DecidableEq, Repr

/-- `wf_subscribe_commit`, its `seq` and `time` apart. -/
structure SubscribeCommit where
  did : String
  commitCid : Cid
  rev : String
  /-- Empty where there is no commit before. -/
  since : String
  prevData : Option Cid
  ops : List SubscribeRepoOp
  blocks : List Cid
  deriving DecidableEq, Repr

/-- `wf_subscribe_sync`. -/
structure SubscribeSync where
  did : String
  rev : String
  blocks : List Cid
  deriving DecidableEq, Repr

/-- `wf_subscribe_identity`. -/
structure SubscribeIdentity where
  did : String
  handle : Option String
  deriving DecidableEq, Repr

/-- `wf_subscribe_account`. -/
structure SubscribeAccount where
  did : String
  active : Bool
  status : Option String
  deriving DecidableEq, Repr

/-- `wf_subscribe_event.data`. -/
inductive SubscribeData where
  | commit (commit : SubscribeCommit)
  | sync (sync : SubscribeSync)
  | identity (identity : SubscribeIdentity)
  | account (account : SubscribeAccount)
  deriving DecidableEq, Repr

/-- What `append_event` reads of an event. -/
def SubscribeData.event : SubscribeData → SubscribeEvent
  | .commit data => ⟨.commit, data.did⟩
  | .sync data => ⟨.sync, data.did⟩
  | .identity data => ⟨.identity, data.did⟩
  | .account data => ⟨.account, data.did⟩

/-- The sizes of the arrays in `wf_subscribe_event`. -/
structure EventBuffers where
  did : Nat
  rev : Nat
  since : Nat
  action : Nat
  handle : Nat
  status : Nat

/-- The frames of the library: `wf_sync_publish_event`, given the sequence number and the time,
and `wf_subscribe_decode_frame`. -/
structure FrameCodec where
  buffers : EventBuffers
  encode : SubscribeData → Int → String → WfStatus × Frame
  decode : Frame → Option SubscribeData

/-- The decoder inverts the encoder. -/
def FrameCodec.Inverts (codec : FrameCodec) : Prop :=
  ∀ data seq time, (codec.encode data seq time).1 = .ok →
    codec.decode (codec.encode data seq time).2 = some data

/-- `append_event` with the data of the event. -/
def appendData (codec : FrameCodec) (l : EventLog) (data : SubscribeData) (env : AppendEnv) :
    EventLog × WfStatus :=
  appendEvent l data.event { env with publish := fun seq => codec.encode data seq env.now }

/-- An append that succeeds has encoded its event. -/
theorem publish_of_appendEvent {l : EventLog} {event : SubscribeEvent} {env : AppendEnv}
    (h : (appendEvent l event env).2 = .ok) : (env.publish (l.events.highWater + 1)).1 = .ok := by
  by_contra hfail
  unfold appendEvent at h
  split at h
  · cases h
  · cases ht : appendTransaction l event env with
    | error status =>
      rw [ht] at h
      rcases appendTransaction_cases l event env with ⟨status', ht', hne⟩ | ⟨_, _, ht', -⟩
      · rw [ht] at ht'
        cases ht'
        exact hne h
      · rw [ht] at ht'
        cases ht'
    | ok l' =>
      simp only [appendTransaction, hfail, ne_eq, not_false_eq_true, if_true] at ht
      split at ht
      · cases ht
      · split at ht <;> cases ht

/-- An append leaves the log alone, or adds one row whose frame is decoded to the event. -/
theorem appendData_cases {codec : FrameCodec} (hcodec : codec.Inverts) (l : EventLog)
    (data : SubscribeData) (env : AppendEnv) :
    ((appendData codec l data env).1 = l ∧ (appendData codec l data env).2 ≠ .ok) ∨
      ∃ row, (appendData codec l data env).2 = .ok ∧ codec.decode row.frame = some data ∧
        (appendData codec l data env).1.events.rows =
          l.events.rows ++ [(l.events.highWater + 1, row)] ∧
        (appendData codec l data env).1.events.highWater = l.events.highWater + 1 := by
  unfold appendData
  rcases appendEvent_cases l data.event
    { env with publish := fun seq => codec.encode data seq env.now } with
    hsame | ⟨row, hok, -, hframe, hrows, hmark⟩
  · exact Or.inl hsame
  · refine Or.inr ⟨row, hok, ?_, hrows, hmark⟩
    have hpublish := publish_of_appendEvent hok
    dsimp only at hframe hpublish
    rw [← hframe]
    exact hcodec _ _ _ hpublish

/-! ## `metalbear_sequencer_repo_event` -/

/-- `metalbear_repo_store_event`. -/
inductive StoreEvent where
  | commit (event : CommitEvent)
  | sync (rev : String) (blocks : List Cid)

/-- The text of `action`. -/
def actionName : WriteAction → String
  | .create => "create"
  | .update => "update"
  | .delete => "delete"

/-- The path of a record in its repository, and in the tree of its commits. -/
def recordPath (collection rkey : String) : String := collection ++ "/" ++ rkey

/-- One turn of the loop over the ops; a path has 512 bytes. -/
def repoEventOp (buffers : EventBuffers) (op : RepoOp) : SubscribeRepoOp where
  action := CString.snprintf buffers.action (actionName op.action)
  path := CString.snprintf 512 (recordPath op.collection op.rkey)
  cid := op.cid
  prev := op.prev

/-- The event of a commit. -/
def repoEventCommit (buffers : EventBuffers) (did : String) (event : CommitEvent) :
    SubscribeCommit where
  did := CString.snprintf buffers.did did
  commitCid := event.commitCid
  rev := CString.snprintf buffers.rev event.rev
  since := CString.snprintf buffers.since (event.since.getD "")
  prevData := event.prevData
  ops := event.ops.map (repoEventOp buffers)
  blocks := event.blocks

/-- `metalbear_sequencer_repo_event`; `allocated` tells whether there is memory for the ops and
their paths. -/
def sequencerRepoEvent (codec : FrameCodec) (l : EventLog) (did : String) (event : StoreEvent)
    (allocated : Bool) (env : AppendEnv) : EventLog :=
  match event with
  | .sync rev blocks =>
    (appendData codec l (.sync ⟨CString.snprintf codec.buffers.did did,
      CString.snprintf codec.buffers.rev rev, blocks⟩) env).1
  | .commit event =>
    if event.ops ≠ [] ∧ allocated = false then l
    else (appendData codec l (.commit (repoEventCommit codec.buffers did event)) env).1

/-! ## What the paths are to say -/

/-- The parts of a path: before and after its first slash. -/
def pathParts (path : String) : String × String :=
  (String.ofList (path.toList.takeWhile (· ≠ '/')),
    String.ofList ((path.toList.dropWhile (· ≠ '/')).drop 1))

/-- The record that a tree has under a path. -/
def treeAtPath (tree : Map (String × String) Cid) (path : String) : Option Cid :=
  tree (pathParts path)

/-- The key of the record that a write is about. -/
def writeKey (w : RepoWrite) : String × String := (w.collection, w.rkey)

/-- A list of ops names the records of the writes: one op a write in their order, under the
paths of the records, which tell records apart, and lead to what the last write of a record
left in the tree of the commit. -/
structure NamesRecords (tree : Map (String × String) Cid) (writes : List RepoWrite)
    (ops : List SubscribeRepoOp) : Prop where
  paths : ops.map SubscribeRepoOp.path = writes.map fun w => recordPath w.collection w.rkey
  distinct : (writes.zip ops).Pairwise fun a b => writeKey a.1 ≠ writeKey b.1 → a.2.path ≠ b.2.path
  resolves : ∀ before w op after, writes.zip ops = before ++ (w, op) :: after →
    (∀ later ∈ after, writeKey later.1 ≠ writeKey w) → treeAtPath tree op.path = op.cid

/-- The path of a record has its two parts. -/
theorem pathParts_recordPath {collection : String} (h : '/' ∉ collection.toList) (rkey : String) :
    pathParts (recordPath collection rkey) = (collection, rkey) := by
  have htake : (recordPath collection rkey).toList = collection.toList ++ '/' :: rkey.toList := by
    simp [recordPath]
  have hall : ∀ c ∈ collection.toList, decide (c ≠ '/') = true := fun c hc =>
    decide_eq_true fun heq => h (heq ▸ hc)
  rw [pathParts, htake, List.takeWhile_append_of_pos hall, List.dropWhile_append_of_pos hall]
  simp

/-- The paths are exact when they fit their buffers. -/
theorem path_repoEventOp_iff (buffers : EventBuffers) (op : RepoOp) :
    (repoEventOp buffers op).path = recordPath op.collection op.rkey ↔
      op.collection.utf8ByteSize + 1 + op.rkey.utf8ByteSize < 512 := by
  rw [repoEventOp, CString.snprintf_eq_self_iff (by decide), recordPath,
    String.utf8ByteSize_append, String.utf8ByteSize_append]
  rfl

/-! ## A batch and its frame -/

section Batch

variable {lib : RepoLibrary} {s : RepoStore} {o : WriteOutcomes}

/-- The event of a batch that succeeds has an op for each write, in the order of the batch. -/
theorem ops_of_batch {writesJson : String} {swapCommit : Option String} {applied : ApplyReturn}
    (hok : (applyWritesLocked lib s writesJson swapCommit o).returned = .ok applied)
    {event : CommitEvent}
    (hevent : (applyWritesLocked lib s writesJson swapCommit o).event = some event)
    {writes : List RepoWrite} {built : RepoCommit}
    (hplan : planApplyWrites lib s writesJson swapCommit o = .ok (writes, built)) :
    event.ops = (writes.zip built.records).map fun w => batchOp w.1 w.2 := by
  rw [applyWritesLocked, hplan] at hok hevent
  revert hok hevent
  dsimp only
  generalize commitPersist lib.toBlockLibrary { s with car := s.car ++ built.blocks } built.commit
    o.persist = r
  obtain ⟨s', error⟩ := r
  intro hevent hok
  cases error with
  | some error => cases hok
  | none =>
    dsimp only at hok hevent
    by_cases h0 : o.allocates 0 = false
    · rw [if_pos h0] at hok
      cases hok
    rw [if_neg h0] at hok hevent
    by_cases h1 : o.allocates 1 = false
    · rw [if_pos h1] at hok
      cases hok
    rw [if_neg h1] at hevent
    simp only [emitCommitEventOps, Option.bind_eq_bind, Option.bind_eq_some_iff] at hevent
    obtain ⟨current, -, blocks, -, heq⟩ := hevent
    cases heq
    rfl

omit lib s o in
/-- Writes beside what is made of them. -/
theorem zip_map_zip {α β γ : Type*} (f : α × β → γ) (xs : List α) (ys : List β) :
    xs.zip ((xs.zip ys).map f) = (xs.zip ys).map fun p => (p.1, f p) := by
  induction xs generalizing ys with
  | nil => rfl
  | cons x xs ih =>
    cases ys with
    | nil => rfl
    | cons y ys => simp [ih]

/-- Ops whose paths fit name the records of their writes. -/
theorem namesRecords_of_fit (htree : WritesTree lib) (hkeys : PathKeys lib)
    (buffers : EventBuffers) {clock : Nat} {car : List Cid} {head : Cid}
    {writes : List RepoWrite} {built : RepoCommit}
    (happly : lib.repoApplyWrites clock car head writes = .ok built)
    (hfit : ∀ w ∈ writes, w.collection.utf8ByteSize + 1 + w.rkey.utf8ByteSize < 512) :
    NamesRecords (recordTree lib (car ++ built.blocks) built.commit) writes
      (((writes.zip built.records).map fun w => batchOp w.1 w.2).map (repoEventOp buffers)) := by
  obtain ⟨hlength, -, -, htree⟩ := htree.apply _ _ _ _ _ happly
  have hslash : ∀ w ∈ writes, '/' ∉ w.collection.toList := fun w hw =>
    (hkeys.apply _ _ _ _ _ happly w hw).collection_slash
  have hpath : ∀ w ∈ writes.zip built.records,
      (repoEventOp buffers (batchOp w.1 w.2)).path = recordPath w.1.collection w.1.rkey :=
    fun w hw => (path_repoEventOp_iff buffers _).mpr (hfit w.1 (List.of_mem_zip hw).1)
  have hzip : writes.zip (((writes.zip built.records).map fun w => batchOp w.1 w.2).map
      (repoEventOp buffers)) =
      (writes.zip built.records).map fun w => (w.1, repoEventOp buffers (batchOp w.1 w.2)) := by
    rw [List.map_map]
    exact zip_map_zip _ _ _
  refine ⟨?_, ?_, ?_⟩
  · rw [List.map_map, List.map_map]
    calc (writes.zip built.records).map _
        = (writes.zip built.records).map fun w => recordPath w.1.collection w.1.rkey :=
          List.map_congr_left hpath
      _ = ((writes.zip built.records).map Prod.fst).map
            fun w => recordPath w.collection w.rkey := by
          rw [List.map_map]
          rfl
      _ = writes.map fun w => recordPath w.collection w.rkey := by
          rw [List.map_fst_zip hlength.ge]
  · rw [hzip, List.pairwise_map]
    refine List.pairwise_of_forall_mem_list fun a ha b hb hne heq => hne ?_
    rw [hpath a ha, hpath b hb] at heq
    have hparts := congrArg pathParts heq
    rwa [pathParts_recordPath (hslash a.1 (List.of_mem_zip ha).1),
      pathParts_recordPath (hslash b.1 (List.of_mem_zip hb).1)] at hparts
  · intro before w op after hsplit hlast
    rw [hzip] at hsplit
    obtain ⟨front, back, hws, hfront, hback⟩ := List.map_eq_append_iff.mp hsplit
    obtain ⟨landed, rest, hback', hlanded, hrest⟩ := List.map_eq_cons_iff.mp hback
    cases hlanded
    subst hback'
    have hmem : landed ∈ writes.zip built.records := by
      rw [hws]
      exact List.mem_append_right _ List.mem_cons_self
    rw [treeAtPath, hpath landed hmem, pathParts_recordPath (hslash _ (List.of_mem_zip hmem).1),
      htree, hws, List.map_append, List.map_cons, applyAll_append, applyAll_cons]
    have huntouched : ∀ later ∈ rest.map treeWrite, later.key ≠ (treeWrite landed).key := by
      intro later hlater
      obtain ⟨l, hl, rfl⟩ := List.mem_map.mp hlater
      refine hlast (l.1, repoEventOp buffers (batchOp l.1 l.2)) ?_
      rw [← hrest]
      exact List.mem_map_of_mem hl
    have happlied := applyAll_of_untouched (t := (treeWrite landed).apply
      (applyAll (front.map treeWrite) (recordTree lib car head))) huntouched
    rw [apply_key] at happlied
    exact happlied

/-- The ops name the records of the writes exactly if their paths fit. -/
theorem namesRecords_iff_fit (htree : WritesTree lib) (hkeys : PathKeys lib)
    (buffers : EventBuffers) {clock : Nat} {car : List Cid} {head : Cid}
    {writes : List RepoWrite} {built : RepoCommit}
    (happly : lib.repoApplyWrites clock car head writes = .ok built) :
    NamesRecords (recordTree lib (car ++ built.blocks) built.commit) writes
        (((writes.zip built.records).map fun w => batchOp w.1 w.2).map (repoEventOp buffers)) ↔
      ∀ w ∈ writes, w.collection.utf8ByteSize + 1 + w.rkey.utf8ByteSize < 512 := by
  refine ⟨fun hnames w hw => ?_, namesRecords_of_fit htree hkeys buffers happly⟩
  obtain ⟨hlength, -⟩ := htree.apply _ _ _ _ _ happly
  obtain ⟨i, hi, rfl⟩ := List.getElem_of_mem hw
  have hrec : i < built.records.length := by omega
  have hpath := congrArg (fun paths => paths[i]?) hnames.paths
  simp only [List.map_map, List.getElem?_map, List.getElem?_eq_getElem hi, Option.map_some] at hpath
  rw [List.getElem?_eq_getElem (by simpa using ⟨hi, hrec⟩), Option.map_some,
    Option.some.injEq, List.getElem_zip] at hpath
  exact (path_repoEventOp_iff buffers (batchOp writes[i] built.records[i])).mp hpath

/-- The frame of a batch that succeeds names the records of its writes exactly if every path fits
512 bytes with its terminator. -/
theorem commitFrame_namesRecords_iff (codec : FrameCodec) (hcodec : codec.Inverts)
    (htree : WritesTree lib) (hkeys : PathKeys lib) (writesJson : String)
    (swapCommit : Option String) (applied : ApplyReturn)
    (hok : (applyWritesLocked lib s writesJson swapCommit o).returned = .ok applied)
    (event : CommitEvent)
    (hevent : (applyWritesLocked lib s writesJson swapCommit o).event = some event)
    (l : EventLog) (did : String) (allocated : Bool) (env : AppendEnv) (row : Int × EventRow)
    (hrow : row ∈ (sequencerRepoEvent codec l did (.commit event) allocated env).events.rows)
    (hnew : row ∉ l.events.rows) :
    ∃ writes built commit, planApplyWrites lib s writesJson swapCommit o = .ok (writes, built) ∧
      codec.decode row.2.frame = some (.commit commit) ∧ commit.ops.length = writes.length ∧
      (NamesRecords
          (recordTree lib (applyWritesLocked lib s writesJson swapCommit o).store.car
            (applyWritesLocked lib s writesJson swapCommit o).store.head) writes commit.ops ↔
        ∀ w ∈ writes, w.collection.utf8ByteSize + 1 + w.rkey.utf8ByteSize < 512) := by
  obtain ⟨writes, built, hplan, -, s', hpersist, hstore, hstored⟩ := applyWritesLocked_ok hok
  have happly := planApplyWrites_built hplan
  obtain ⟨hlength, -⟩ := htree.apply _ _ _ _ _ happly
  have hops := ops_of_batch hok hevent hplan
  refine ⟨writes, built, repoEventCommit codec.buffers did event, hplan, ?_, ?_, ?_⟩
  · rw [sequencerRepoEvent] at hrow
    split at hrow
    · exact absurd hrow hnew
    · rcases appendData_cases hcodec l (.commit (repoEventCommit codec.buffers did event)) env with
        ⟨hsame, -⟩ | ⟨appended, -, hdecode, hrows, -⟩
      · rw [hsame] at hrow
        exact absurd hrow hnew
      · rw [hrows, List.mem_append, List.mem_singleton] at hrow
        obtain rfl := hrow.resolve_left hnew
        exact hdecode
  · simp [repoEventCommit, hops, hlength]
  · obtain ⟨hhead, hcar, -⟩ := indexWrites_frame lib o.indexes 0 (writes.zip built.records) s'
    rw [hstore, hhead, hcar, hstored.tree, repoEventCommit, hops]
    exact namesRecords_iff_fit htree hkeys codec.buffers happly

end Batch

/-! ## A key that does not fit -/

section LongKey

/-- The collection of the one record. -/
def post : String := "app.example.post"

/-- The record, its text, and its block. -/
def postRecord : Json := .object [("$type", .string post)]

def postText : String := "\x7b\"$type\":\"app.example.post\"\x7d"

def postCbor : List UInt8 :=
  [0xa1, 0x65, 0x24, 0x74, 0x79, 0x70, 0x65, 0x70, 0x61, 0x70, 0x70, 0x2e, 0x65, 0x78, 0x61,
    0x6d, 0x70, 0x6c, 0x65, 0x2e, 0x70, 0x6f, 0x73, 0x74]

/-- The element that creates the record under a key. -/
def postElement (rkey : String) : Json :=
  .object [("$type", .string "com.atproto.repo.applyWrites#create"),
    ("collection", .string post), ("rkey", .string rkey), ("value", postRecord)]

/-- The write that is staged for it. -/
def postWrite (rkey : String) : RepoWrite := ⟨.create, post, rkey, postCbor, postText⟩

/-- What the library builds for it. -/
def postCommit : RepoCommit := ⟨["r1", "n1", "c1"], "c1", ["r1"]⟩

/-- Its text, and that of the batch of the element. -/
def postElementText (rkey : String) : String :=
  "\x7b\"$type\":\"com.atproto.repo.applyWrites#create\",\"collection\":\"app.example.post\"" ++
    ",\"rkey\":\"" ++ rkey ++ "\",\"value\":" ++ postText ++ "\x7d"

def batchText (rkey : String) : String := "[" ++ postElementText rkey ++ "]"

/-- The library that knows the one record and the batch that creates it. -/
def postLibrary (rkey : String) : RepoLibrary where
  content cid := if cid = "c1" then [1] else postCbor
  commitParse data := if data = [1] then some ⟨"rev1", "n1"⟩ else none
  mstNodeParse _ := .error .parse
  cidFromString _ := none
  cidToString _ := none
  base64urlDecode _ := none
  base64urlEncode _ := none
  parseJson text :=
    if text = batchText rkey then some (.array [postElement rkey])
    else if text = postText then some postRecord else none
  printJson _ := postText
  jsonExtract _ _ := none
  cborSerialize item :=
    match item with
    | .map [(some "$type", .string "app.example.post")] => some postCbor
    | _ => none
  cborParse data :=
    if data = postCbor then some (.map [(some "$type", .string post)]) else none
  cidOfBlock data := if data = postCbor then some "r1" else none
  recordKeyIsValid key := key == rkey
  repoGetRecord _ head collection key :=
    if head = "c1" ∧ (collection, key) = (post, rkey) then .ok "r1" else .error .notFound
  repoCreateRecord _ _ _ _ _ _ := .error .internal
  repoUpdateRecord _ _ _ _ _ _ := .error .internal
  repoDeleteRecord _ _ _ _ _ := .error .internal
  repoApplyWrites _ _ head writes :=
    if head = "" ∧ writes = [postWrite rkey] then .ok postCommit
    else .error .internal

variable {rkey : String}

theorem recordTree_post (car : List Cid) (head : Cid) : recordTree (postLibrary rkey) car head =
    fun k => if head = "c1" ∧ k = (post, rkey) then some "r1" else none := by
  funext k
  simp only [recordTree, recordCid, postLibrary]
  by_cases hhead : head = ""
  · simp [hhead]
  · rw [if_neg hhead]
    split <;> rfl

theorem writesTree_post : WritesTree (postLibrary rkey) where
  create clock car head collection key body built h := by cases h
  apply clock car head writes built h := by
    simp only [postLibrary] at h
    split at h
    · next hbatch =>
      obtain ⟨rfl, rfl⟩ := hbatch
      cases h
      refine ⟨rfl, fun w hw _ => ?_, ⟨?_, trivial⟩, ?_⟩
      · obtain rfl := List.mem_singleton.mp hw
        rfl
      · rw [recordTree_post]
        simp [Write.Fits, treeWrite, postWrite]
      · rw [recordTree_post, recordTree_post]
        funext k
        by_cases hk : k = (post, rkey) <;>
          simp [hk, treeWrite, Write.apply, postWrite, postCommit]
    · cases h

/-- The key is one that a record can have. -/
theorem pathKeys_post (hne : rkey ≠ "") (hslash : '/' ∉ rkey.toList) :
    PathKeys (postLibrary rkey) := by
  have hkey : PathKey post rkey := ⟨by decide, hne, by decide, hslash⟩
  refine ⟨fun car head collection key cid h => ?_, fun clock car head writes built h w hw => ?_⟩
  · simp only [postLibrary] at h
    split at h
    · next hsame =>
      obtain ⟨rfl, rfl⟩ := Prod.mk.injEq .. ▸ hsame.2
      exact hkey
    · cases h
  · simp only [postLibrary] at h
    split at h
    · next hbatch =>
      rw [hbatch.2, List.mem_singleton] at hw
      rw [hw]
      exact hkey
    · cases h

/-- The texts of the batch and of the record are told apart. -/
theorem parse_batchText :
    (postLibrary rkey).parseJson (batchText rkey) = some (.array [postElement rkey]) := by
  simp only [postLibrary, if_true]

theorem parse_postText : (postLibrary rkey).parseJson postText = some postRecord := by
  have hne : postText ≠ batchText rkey := by
    intro h
    have hfirst := congrArg (fun text => text.toList.head?) h
    simp [batchText, postText] at hfirst
  simp only [postLibrary, hne, if_false, if_true]

/-- The element is staged. -/
theorem stageWrite_post (hne : rkey ≠ "") :
    stageWrite (postLibrary rkey) none (postElement rkey) = .ok (postWrite rkey) := by
  have htype : (postElement rkey).getString "$type" =
      some "com.atproto.repo.applyWrites#create" := rfl
  have hcollection : (postElement rkey).getString "collection" = some post := rfl
  have hrkey : (postElement rkey).getString "rkey" = some rkey := rfl
  have hvalue : (postElement rkey).getObjectItem "value" = some postRecord := rfl
  have haction : writeActionOf "com.atproto.repo.applyWrites#create" = some .create := by decide
  have hkey : stageKey (postLibrary rkey) .create (some rkey) none = .ok rkey := by
    have hfilter : (some rkey).filter (· ≠ "") = some rkey := by
      rw [Option.filter_some, if_pos (by simpa using hne)]
    unfold stageKey
    rw [hfilter]
    simp [postLibrary]
  have hmatches : recordTypeMatches (postLibrary rkey) postText post = true := by
    rw [recordTypeMatches, parse_postText]
    rfl
  have hencode : encodeRecordJson (postLibrary rkey) postText = .ok postCbor := by
    rw [encodeRecordJson, parse_postText]
    rfl
  have hprint : (postLibrary rkey).printJson postRecord = postText := rfl
  have hpost : refuseIf (post = "") .invalidArg = .ok () := by decide
  simp only [stageWrite, htype, hcollection, hrkey, hvalue, haction, hkey, hpost, hprint, hmatches,
    hencode]
  rfl

/-- The batch is accepted. -/
theorem plan_post (hne : rkey ≠ "") :
    planApplyWrites (postLibrary rkey) (.new "did") (batchText rkey) none .good =
      .ok ([postWrite rkey], postCommit) := by
  have hstage : stageWrites (postLibrary rkey) WriteOutcomes.good.tids 0 [postElement rkey] =
      .ok [postWrite rkey] := by
    have htid : WriteOutcomes.good.tids 0 = none := rfl
    rw [stageWrites, htid, stageWrite_post hne]
    rfl
  have happly : (postLibrary rkey).repoApplyWrites WriteOutcomes.good.clock
      (RepoStore.new "did").car (RepoStore.new "did").head [postWrite rkey] = .ok postCommit := by
    have hhead : (RepoStore.new "did").head = "" := rfl
    simp [postLibrary, hhead]
  simp only [planApplyWrites, parse_batchText, hstage]
  rw [show checkSwap none (RepoStore.new "did").head = .ok () from rfl]
  have hcap : refuseIf (200 < [postElement rkey].length) .invalidArg = .ok () := rfl
  simp only [hcap]
  change ((postLibrary rkey).repoApplyWrites WriteOutcomes.good.clock (RepoStore.new "did").car
    (RepoStore.new "did").head [postWrite rkey] >>= fun commit =>
      pure ([postWrite rkey], commit)) = _
  rw [happly]
  rfl

theorem signed_post : Signed (postLibrary rkey) "" postCommit where
  ne := by decide
  mem := by decide
  later := by
    refine ⟨⟨"rev1", "n1"⟩, rfl, fun previous h => ?_⟩
    cases h

/-- The batch succeeds and has an event. -/
theorem batch_post (hne : rkey ≠ "") :
    ∃ applied event,
      (applyWritesLocked (postLibrary rkey) (.new "did") (batchText rkey) none .good).returned =
        .ok applied ∧
      (applyWritesLocked (postLibrary rkey) (.new "did") (batchText rkey) none .good).event =
        some event := by
  have hlands := ((applyWritesLocked_landsAs good_nothingFails (plan_post hne)).2 rfl).1
  obtain ⟨applied, happlied⟩ := status_ok_of_forget hlands.status
  obtain ⟨event, hevent, -⟩ := hlands.emits (held_exec (postLibrary rkey).toBlockLibrary "did"
    ⟨[], none, []⟩ []) signed_post
  exact ⟨applied, event, happlied, hevent⟩

/-- The items of DAG-CBOR that a frame is made of: the head, with a length in up to two bytes,
texts, byte strings, links, and maps. -/
def cborHead (major : UInt8) (n : Nat) : List UInt8 :=
  if n < 24 then [32 * major + n.toUInt8]
  else if n < 256 then [32 * major + 24, n.toUInt8]
  else [32 * major + 25, (n / 256).toUInt8, n.toUInt8]

def cborText (s : String) : List UInt8 := cborHead 3 s.utf8ByteSize ++ s.toUTF8.toList

def cborBytes (bytes : List UInt8) : List UInt8 := cborHead 2 bytes.length ++ bytes

def cborLink (cid : Cid) : List UInt8 := [0xd8, 0x2a] ++ cborBytes (0 :: cid.toUTF8.toList)

def cborMap (members : List (String × List UInt8)) : List UInt8 :=
  cborHead 5 members.length ++ members.flatMap fun m => cborText m.1 ++ m.2

/-- An op of a #commit frame. -/
def opItem (op : SubscribeRepoOp) : List UInt8 :=
  cborMap [("cid", (op.cid.map cborLink).getD [0xf6]), ("path", cborText op.path),
    ("action", cborText op.action)]

/-- The body of a frame. Of the blocks it has the CIDs, one after the other. -/
def eventBody (seq : Int) (time : String) : SubscribeData → List UInt8
  | .commit data => cborMap [
      ("ops", cborHead 4 data.ops.length ++ data.ops.flatMap opItem), ("rev", cborText data.rev),
      ("seq", cborHead 0 seq.toNat), ("repo", cborText data.did), ("time", cborText time),
      ("since", if data.since = "" then [0xf6] else cborText data.since),
      ("blocks", cborBytes (data.blocks.flatMap fun cid => cid.toUTF8.toList)),
      ("commit", cborLink data.commitCid), ("rebase", [0xf4]), ("tooBig", [0xf4]),
      ("prevData", (data.prevData.map cborLink).getD [0xf6])]
  | .sync data => cborMap [("did", cborText data.did), ("rev", cborText data.rev),
      ("seq", cborHead 0 seq.toNat), ("time", cborText time),
      ("blocks", cborBytes (data.blocks.flatMap fun cid => cid.toUTF8.toList))]
  | .identity data => cborMap ([("did", cborText data.did), ("seq", cborHead 0 seq.toNat),
      ("time", cborText time)] ++ (data.handle.map fun handle => ("handle", cborText handle)).toList)
  | .account data => cborMap ([("did", cborText data.did), ("seq", cborHead 0 seq.toNat),
      ("time", cborText time), ("active", if data.active then [0xf5] else [0xf4])] ++
        (data.status.map fun status => ("status", cborText status)).toList)

/-- The header of a frame says what it is about. -/
def eventHeader : SubscribeData → List UInt8
  | .commit _ => cborMap [("t", cborText "#commit"), ("op", [0x01])]
  | .sync _ => cborMap [("t", cborText "#sync"), ("op", [0x01])]
  | .identity _ => cborMap [("t", cborText "#identity"), ("op", [0x01])]
  | .account _ => cborMap [("t", cborText "#account"), ("op", [0x01])]

theorem eventHeader_ne (data : SubscribeData) : eventHeader data ≠ [] := by
  cases data <;> simp [eventHeader, cborMap, cborHead]

/-- The frame of an event. -/
def eventFrame (event : SubscribeData × Int × String) : Frame :=
  eventHeader event.1 ++ eventBody event.2.1 event.2.2 event.1

/-- The frames of the library, as far as some events need them. -/
def framesOf (known : List (SubscribeData × Int × String)) : FrameCodec where
  buffers := ⟨2048, 64, 64, 16, 256, 64⟩
  encode data seq time :=
    if (data, seq, time) ∈ known then (.ok, eventFrame (data, seq, time)) else (.internal, [])
  decode frame := (known.find? fun event => eventFrame event = frame).map Prod.fst

variable {known : List (SubscribeData × Int × String)}

theorem inverts_framesOf (h : ∀ event ∈ known, ∀ event' ∈ known,
    eventFrame event = eventFrame event' → event.1 = event'.1) : (framesOf known).Inverts := by
  intro data seq time hok
  simp only [framesOf] at hok ⊢
  split at hok
  · next hmem =>
    rw [if_pos hmem]
    cases hfind : known.find? fun event => eventFrame event = eventFrame (data, seq, time) with
    | none =>
      have hnot := List.find?_eq_none.mp hfind _ hmem
      exact absurd (decide_eq_true rfl) hnot
    | some event =>
      have hsame : eventFrame event = eventFrame (data, seq, time) := by
        simpa using List.find?_some hfind
      rw [Option.map_some, h event (List.mem_of_find?_eq_some hfind) _ hmem hsame]
  · cases hok

/-- No event has the empty frame. -/
theorem framesOf_empty : (framesOf known).decode [] = none := by
  rw [framesOf, Option.map_eq_none_iff, List.find?_eq_none]
  intro event _ hframe
  have hnil := of_decide_eq_true hframe
  rw [eventFrame, List.append_eq_nil_iff] at hnil
  exact eventHeader_ne event.1 hnil.1

/-- Everything an append needs gets through. -/
def AppendEnv.working : AppendEnv where
  closing := false
  begun := true
  inserted := true
  now := "2026-01-01T00:00:00.000Z"
  publish := fun _ => (.ok, [])
  updated := true
  committed := true

/-- The codec that knows the event of one commit. -/
def commitFrame (event : CommitEvent) : FrameCodec :=
  framesOf [(.commit (repoEventCommit ⟨2048, 64, 64, 16, 256, 64⟩ "did" event), 1,
    "2026-01-01T00:00:00.000Z")]

theorem inverts_commitFrame (event : CommitEvent) : (commitFrame event).Inverts := by
  refine inverts_framesOf fun e he e' he' _ => ?_
  rw [List.mem_singleton.mp he, List.mem_singleton.mp he']

/-- The event of the commit gets a row, from which it is decoded. -/
theorem row_commitFrame (event : CommitEvent) :
    ∃ row ∈ (sequencerRepoEvent (commitFrame event) .empty "did" (.commit event) true
        .working).events.rows, row ∉ EventLog.empty.events.rows ∧
      (commitFrame event).decode row.2.frame =
        some (.commit (repoEventCommit (commitFrame event).buffers "did" event)) := by
  let data := SubscribeData.commit (repoEventCommit (commitFrame event).buffers "did" event)
  have hok : (appendData (commitFrame event) .empty data .working).2 = .ok := by
    simp [appendData, appendEvent, appendTransaction, commitFrame, framesOf, AppendEnv.working,
      SubscribeData.event, EventLog.empty, AutoTable.empty, maxRowid, data]
  rcases appendData_cases (inverts_commitFrame event) .empty data .working with
    ⟨-, hfail⟩ | ⟨row, -, hdecode, hrows, -⟩
  · exact absurd hok hfail
  · refine ⟨(EventLog.empty.events.highWater + 1, row), ?_, List.not_mem_nil, hdecode⟩
    rw [sequencerRepoEvent, if_neg (by simp)]
    change _ ∈ (appendData (commitFrame event) .empty data .working).1.events.rows
    rw [hrows]
    exact List.mem_append_right _ List.mem_cons_self

/-- A batch of one create under a short key: its frame names the record. -/
theorem commitFrame_namesRecords_short :
    ∃ event row writes commit,
      (commitFrame event).decode (Prod.snd row : EventRow).frame = some (.commit commit) ∧
      row ∈ (sequencerRepoEvent (commitFrame event) .empty "did" (.commit event) true
        .working).events.rows ∧
      NamesRecords (recordTree (postLibrary "a")
          (applyWritesLocked (postLibrary "a") (.new "did") (batchText "a") none .good).store.car
          (applyWritesLocked (postLibrary "a") (.new "did") (batchText "a") none .good).store.head)
        writes commit.ops := by
  have hne : "a" ≠ "" := by decide
  obtain ⟨applied, event, hok, hevent⟩ := batch_post hne
  obtain ⟨row, hrow, hnew, -⟩ := row_commitFrame event
  obtain ⟨writes, built, commit, hplan, hdecode, -, hiff⟩ :=
    commitFrame_namesRecords_iff (commitFrame event) (inverts_commitFrame event) writesTree_post
      (pathKeys_post hne (by decide)) (batchText "a") none applied hok event hevent .empty "did" true
      .working row hrow hnew
  refine ⟨event, row, writes, commit, hdecode, hrow, hiff.mpr fun w hw => ?_⟩
  rw [plan_post hne] at hplan
  cases hplan
  rw [List.mem_singleton.mp hw]
  decide

/-- A batch of one create under a key that does not fit: the path in its frame is cut. -/
theorem cut_post (hlong : 495 ≤ rkey.utf8ByteSize) :
    ∃ applied event row commit,
      (applyWritesLocked (postLibrary rkey) (.new "did") (batchText rkey) none .good).returned =
        .ok applied ∧
      (applyWritesLocked (postLibrary rkey) (.new "did") (batchText rkey) none .good).event =
        some event ∧
      row ∈ (sequencerRepoEvent (commitFrame event) .empty "did" (.commit event) true
        .working).events.rows ∧
      (commitFrame event).decode row.2.frame = some (.commit commit) ∧
      ¬ NamesRecords (recordTree (postLibrary rkey)
          (applyWritesLocked (postLibrary rkey) (.new "did") (batchText rkey) none .good).store.car
          (applyWritesLocked (postLibrary rkey) (.new "did") (batchText rkey) none .good).store.head)
        [postWrite rkey] commit.ops := by
  have hne : rkey ≠ "" := by
    rintro rfl
    revert hlong
    decide
  obtain ⟨applied, event, hok, hevent⟩ := batch_post hne
  obtain ⟨row, hrow, -, hdecode⟩ := row_commitFrame event
  refine ⟨applied, event, row, _, hok, hevent, hrow, hdecode, fun hnames => ?_⟩
  have hpaths := hnames.paths
  rw [repoEventCommit, ops_of_batch hok hevent (plan_post hne)] at hpaths
  have hpath := List.head_eq_of_cons_eq hpaths
  have hfit := (path_repoEventOp_iff _ (batchOp (postWrite rkey) "r1")).mp hpath
  have hpost : post.utf8ByteSize = 16 := by decide
  simp only [batchOp, postWrite, hpost] at hfit
  omega

/-- A text of so many letters. -/
def letters (n : Nat) : String := String.ofList (List.replicate n 'a')

theorem utf8ByteSize_letters (n : Nat) : (letters n).utf8ByteSize = n := by
  rw [letters, String.utf8ByteSize_ofList]
  induction n with
  | zero => rfl
  | succ n ih =>
    rw [List.replicate_succ, String.utf8Len_cons, ih]
    rfl

/-- A record key of 500 characters; record keys have up to 512. -/
def longKey : String := letters 500

/-- The record with that key is announced under a shorter path. -/
theorem long_key_is_cut :
    ∃ applied event row commit,
      (applyWritesLocked (postLibrary longKey) (.new "did") (batchText longKey) none .good).returned =
        .ok applied ∧
      (applyWritesLocked (postLibrary longKey) (.new "did") (batchText longKey) none .good).event =
        some event ∧
      row ∈ (sequencerRepoEvent (commitFrame event) .empty "did" (.commit event) true
        .working).events.rows ∧
      (commitFrame event).decode row.2.frame = some (.commit commit) ∧
      ¬ NamesRecords (recordTree (postLibrary longKey)
          (applyWritesLocked (postLibrary longKey) (.new "did") (batchText longKey) none .good).store.car
          (applyWritesLocked (postLibrary longKey) (.new "did") (batchText longKey) none .good).store.head)
        [postWrite longKey] commit.ops := by
  have hsize : longKey.utf8ByteSize = 500 := utf8ByteSize_letters 500
  exact cut_post (by omega)

end LongKey

end MetalBear.Sequencer
