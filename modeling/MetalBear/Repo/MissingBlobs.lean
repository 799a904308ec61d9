import MetalBear.Library.FirstSeen
import MetalBear.Repo.Listing

/-!
# Missing blobs

Two walks over all records: one counts the blobs that they reference, the other lists those
that the blob store lacks. The second is made anew for every page, with the cursor applied
before anything is kept and the order made at the end.
-/

namespace MetalBear.Repo

open Paging Sync FirstSeen

/-! ## The walks -/

section Walks

variable (parse : String → Option Json)

/-- The SELECT of `foreach_record_locked`. -/
def RecordTable.inOrder (t : RecordTable) : List RecordRow :=
  t.rows.mergeSort fun a b =>
    decide (a.collection < b.collection ∨ a.collection = b.collection ∧ a.rkey ≤ b.rkey)

/-- `metalbear_blob_store_exists`. -/
def BlobStore.blobExists (s : BlobStore) (cid : String) : Bool :=
  blobCidIsValid cid && decide (s.Stores cid)

/-- `missing_blob_ref`. -/
structure MissingBlobRef where
  cid : String
  recordUri : String
  deriving DecidableEq

/-- `missing_blobs_scan`, as far as it stays the same. -/
structure MissingBlobsScan where
  blobsStore : BlobStore
  cursor : Option String
  did : String

namespace MissingBlobsScan

/-- The URI of a record. -/
def recordUri (did : String) (row : RecordRow) : String :=
  "at://" ++ did ++ "/" ++ row.collection ++ "/" ++ row.rkey

/-- `missing_blob_candidate`, where memory is had. -/
def candidate (scan : MissingBlobsScan) (row : RecordRow) (refs : List MissingBlobRef)
    (cid : String) : List MissingBlobRef :=
  if scan.cursor.any fun cursor => decide (cid ≤ cursor) then refs
  else if refs.any fun ref => ref.cid == cid then refs
  else if scan.blobsStore.blobExists cid then refs
  else refs ++ [⟨cid, recordUri scan.did row⟩]

/-- `missing_blobs_visit`. -/
def visit (scan : MissingBlobsScan) (refs : List MissingBlobRef) (row : RecordRow) :
    List MissingBlobRef :=
  match parse row.value with
  | none => refs
  | some value => (blobWalkRefs value).foldl (scan.candidate row) refs

/-- What the walk leaves in `refs`. -/
def walk (scan : MissingBlobsScan) (t : RecordTable) : List MissingBlobRef :=
  t.inOrder.foldl (scan.visit parse) []

end MissingBlobsScan

/-- `list_missing_blobs`, as a client asks it for a page. An empty cursor is no cursor. -/
def askMissingBlobs (t : RecordTable) (s : BlobStore) (did : String) (limit : LimitParam)
    (cursor : Option String) : Answer MissingBlobRef String :=
  let limit := (queryParamInt limit 500 1 1000).toNat
  let scan : MissingBlobsScan := ⟨s, cursor.filter (· ≠ ""), did⟩
  let refs := (scan.walk parse t).mergeSort fun a b => decide (a.cid ≤ b.cid)
  let emitted := refs.take limit
  ⟨emitted, if refs.length > limit ∧ emitted ≠ [] then emitted.getLast?.map MissingBlobRef.cid
    else none⟩

/-- `blob_ref_tally_add`. -/
def blobRefTallyAdd (tally : List String) (cid : String) : List String :=
  if tally.any (· == cid) then tally else tally ++ [cid]

/-- `blob_ref_tally_visit`. -/
def blobRefTallyVisit (tally : List String) (row : RecordRow) : List String :=
  match parse row.value with
  | none => tally
  | some value => (blobWalkRefs value).foldl blobRefTallyAdd tally

/-- `count_referenced_blobs`, which is the `expectedBlobs` of `check_account_status`. -/
def countReferencedBlobs (t : RecordTable) : Nat :=
  (t.inOrder.foldl (blobRefTallyVisit parse) []).length

/-- The `importedBlobs` of `check_account_status`. -/
def BlobStore.importedBlobs (s : BlobStore) : Nat := s.nodes.length

/-! ## What is referenced -/

/-- The record references the blob. -/
def RecordRow.References (row : RecordRow) (cid : String) : Prop :=
  ∃ value, parse row.value = some value ∧ cid ∈ blobWalkRefs value

/-- A record of the repository references the blob. -/
def RecordTable.References (t : RecordTable) (cid : String) : Prop :=
  ∃ row ∈ t.rows, row.References parse cid

/-- A blob is referenced, and the store lacks it. -/
def Missing (t : RecordTable) (s : BlobStore) (cid : String) : Prop :=
  t.References parse cid ∧ ¬ s.Stores cid

/-- Following the cursor ends, with each missing blob once and in order, with the URI of a record
that references it. -/
def ListsMissing (t : RecordTable) (s : BlobStore) (did : String) (limit : LimitParam)
    (refs : List MissingBlobRef) : Prop :=
  (∃ turns, run (fun _ => askMissingBlobs parse t s did limit) turns 0 none = (refs, true)) ∧
    (refs.map MissingBlobRef.cid).Pairwise (· < ·) ∧
    (∀ cid, cid ∈ refs.map MissingBlobRef.cid ↔ Missing parse t s cid) ∧
    ∀ ref ∈ refs, ∃ row ∈ t.rows, row.References parse ref.cid ∧
      ref.recordUri = MissingBlobsScan.recordUri did row

/-- Once all that was listed is stored too, nothing is missing and no fewer blobs are imported than
are expected. -/
def CompletesBlobs (t : RecordTable) (s : BlobStore) (did : String) (refs : List MissingBlobRef) :
    Prop :=
  ∀ s' : BlobStore, (∀ cid, s.Stores cid → s'.Stores cid) →
    (∀ ref ∈ refs, s'.Stores ref.cid) →
    (∀ limit, askMissingBlobs parse t s' did limit none = ⟨[], none⟩) ∧
      countReferencedBlobs parse t ≤ s'.importedBlobs

/-- The listing is exact, and what is expected is the number of blobs that are referenced. -/
def MissingBlobsExact (t : RecordTable) (s : BlobStore) (did : String) (limit : LimitParam) :
    Prop :=
  (∃ refs, ListsMissing parse t s did limit refs ∧ CompletesBlobs parse t s did refs) ∧
    {cid | t.References parse cid}.ncard = countReferencedBlobs parse t

/-- With one blob a page, the first page ends in a blob that is referenced by an empty CID. -/
def EmptyCidFirst (t : RecordTable) (s : BlobStore) (limit : LimitParam) : Prop :=
  queryParamInt limit 500 1 1000 = 1 ∧ Missing parse t s "" ∧
    ∃ cid, cid ≠ "" ∧ Missing parse t s cid

end Walks

/-! ## What the walks leave -/

section Kept

variable {parse : String → Option Json} {t : RecordTable} {s : BlobStore} {did : String}
  {limit : LimitParam} {cid : String}

theorem BlobStore.blobExists_iff : s.blobExists cid = true ↔ s.Stores cid := by
  rw [blobExists, Bool.and_eq_true, decide_eq_true_eq, and_iff_right_iff_imp]
  intro h
  obtain ⟨node, -, rfl⟩ := List.mem_map.mp h
  exact node.valid

/-- The references of a record, with its URI. -/
def RecordRow.missingRefs (parse : String → Option Json) (did : String) (row : RecordRow) :
    List MissingBlobRef :=
  match parse row.value with
  | none => []
  | some value => (blobWalkRefs value).map fun cid => ⟨cid, MissingBlobsScan.recordUri did row⟩

theorem RecordRow.mem_missingRefs {row : RecordRow} {ref : MissingBlobRef} :
    ref ∈ row.missingRefs parse did ↔
      row.References parse ref.cid ∧ ref.recordUri = MissingBlobsScan.recordUri did row := by
  obtain ⟨cid, uri⟩ := ref
  unfold missingRefs References
  cases parse row.value with
  | none => simp
  | some value => simp [eq_comm]

/-- The references of all records, in the order of the walk. -/
def RecordTable.refs (parse : String → Option Json) (did : String) (t : RecordTable) :
    List MissingBlobRef :=
  t.inOrder.flatMap (RecordRow.missingRefs parse did)

theorem RecordTable.mem_refs {ref : MissingBlobRef} :
    ref ∈ t.refs parse did ↔ ∃ row ∈ t.rows, row.References parse ref.cid ∧
      ref.recordUri = MissingBlobsScan.recordUri did row := by
  simp only [refs, List.mem_flatMap, inOrder, List.mem_mergeSort, RecordRow.mem_missingRefs]

theorem RecordTable.mem_cids_refs :
    cid ∈ (t.refs parse did).map MissingBlobRef.cid ↔ t.References parse cid := by
  rw [List.mem_map]
  constructor
  · rintro ⟨ref, href, rfl⟩
    obtain ⟨row, hrow, hcid, -⟩ := mem_refs.mp href
    exact ⟨row, hrow, hcid⟩
  · rintro ⟨row, hrow, hcid⟩
    exact ⟨⟨cid, MissingBlobsScan.recordUri did row⟩, mem_refs.mpr ⟨row, hrow, hcid, rfl⟩, rfl⟩

/-- The walk keeps the first reference to each blob that comes after the cursor and is not
stored. -/
theorem MissingBlobsScan.walk_eq (scan : MissingBlobsScan) (t : RecordTable) :
    scan.walk parse t = firsts MissingBlobRef.cid ((t.refs parse scan.did).filter fun ref =>
      scan.cursor.all (fun cursor => decide (cursor < ref.cid)) &&
        !scan.blobsStore.blobExists ref.cid) := by
  have hstep (row : RecordRow) (refs : List MissingBlobRef) (cid : String) :
      scan.candidate row refs cid =
        if scan.cursor.all (fun cursor => decide (cursor < cid)) && !scan.blobsStore.blobExists cid
        then add MissingBlobRef.cid refs ⟨cid, recordUri scan.did row⟩ else refs := by
    have hcursor : scan.cursor.all (fun cursor => decide (cursor < cid)) =
        !scan.cursor.any fun cursor => decide (cid ≤ cursor) := by
      cases scan.cursor with
      | none => rfl
      | some cursor => simp [← not_lt]
    have hkept : (refs.any fun ref => ref.cid == cid) = true ↔
        cid ∈ refs.map MissingBlobRef.cid := by
      simp [List.any_eq_true]
    rw [candidate, hcursor, add]
    cases scan.cursor.any fun cursor => decide (cid ≤ cursor) with
    | true => rfl
    | false =>
      cases scan.blobsStore.blobExists cid with
      | true => simp
      | false =>
        simp only [Bool.false_eq_true, if_false, hkept, Bool.not_false, Bool.and_true, if_true]
  have hvisit (refs : List MissingBlobRef) (row : RecordRow) :
      scan.visit parse refs row = ((row.missingRefs parse scan.did).filter fun ref =>
        scan.cursor.all (fun cursor => decide (cursor < ref.cid)) &&
          !scan.blobsStore.blobExists ref.cid).foldl (add MissingBlobRef.cid) refs := by
    rw [visit, RecordRow.missingRefs]
    cases parse row.value with
    | none => rfl
    | some value =>
      rw [List.foldl_filter, List.foldl_map]
      exact List.foldl_ext _ _ _ fun refs cid _ => hstep row refs cid
  rw [walk, firsts, RecordTable.refs, List.filter_flatMap, List.foldl_flatMap]
  exact List.foldl_ext _ _ _ fun refs row _ => hvisit refs row

/-- What the walk counts. -/
theorem tally_eq (t : RecordTable) (did : String) :
    t.inOrder.foldl (blobRefTallyVisit parse) [] =
      firsts id ((t.refs parse did).map MissingBlobRef.cid) := by
  have hvisit (tally : List String) (row : RecordRow) :
      blobRefTallyVisit parse tally row =
        ((row.missingRefs parse did).map MissingBlobRef.cid).foldl (add id) tally := by
    rw [blobRefTallyVisit, RecordRow.missingRefs]
    cases parse row.value with
    | none => rfl
    | some value =>
      have hcids : (blobWalkRefs value).map (fun cid => (MissingBlobRef.mk cid
          (MissingBlobsScan.recordUri did row)).cid) = blobWalkRefs value := List.map_id _
      rw [List.map_map, Function.comp_def, hcids]
      refine List.foldl_ext _ _ _ fun tally cid _ => ?_
      simp [blobRefTallyAdd, add]
  rw [firsts, RecordTable.refs, List.map_flatMap, List.foldl_flatMap]
  exact List.foldl_ext _ _ _ fun tally row _ => hvisit tally row

theorem mem_tally :
    cid ∈ t.inOrder.foldl (blobRefTallyVisit parse) [] ↔ t.References parse cid := by
  have hmem : cid ∈ (firsts id ((t.refs parse "").map MissingBlobRef.cid)).map id ↔
      cid ∈ ((t.refs parse "").map MissingBlobRef.cid).map id := mem_keys_firsts
  rw [List.map_id, List.map_id, RecordTable.mem_cids_refs] at hmem
  rw [tally_eq t ""]
  exact hmem

theorem nodup_tally (t : RecordTable) : (t.inOrder.foldl (blobRefTallyVisit parse) []).Nodup := by
  have hnodup : ((firsts id ((t.refs parse "").map MissingBlobRef.cid)).map id).Nodup :=
    nodup_firsts _
  rw [List.map_id] at hnodup
  rw [tally_eq t ""]
  exact hnodup

/-- The number that is expected is that of the blobs referenced. -/
theorem countReferencedBlobs_eq (t : RecordTable) :
    {cid | t.References parse cid}.ncard = countReferencedBlobs parse t := by
  have hset : {cid | t.References parse cid} =
      ↑(t.inOrder.foldl (blobRefTallyVisit parse) []).toFinset := by
    ext cid
    rw [Finset.mem_coe, List.mem_toFinset]
    exact mem_tally.symm
  rw [countReferencedBlobs, hset, Set.ncard_coe_finset, List.toFinset_card_of_nodup (nodup_tally t)]

/-! ## The pages -/

/-- All that a page without a cursor is cut from. -/
def missingInOrder (parse : String → Option Json) (t : RecordTable) (s : BlobStore)
    (did : String) : List MissingBlobRef :=
  (MissingBlobsScan.walk parse ⟨s, none, did⟩ t).mergeSort fun a b => decide (a.cid ≤ b.cid)

theorem mem_missingInOrder {ref : MissingBlobRef} (h : ref ∈ missingInOrder parse t s did) :
    (∃ row ∈ t.rows, row.References parse ref.cid ∧
      ref.recordUri = MissingBlobsScan.recordUri did row) ∧ ¬ s.Stores ref.cid := by
  rw [missingInOrder, List.mem_mergeSort, MissingBlobsScan.walk_eq] at h
  obtain ⟨href, hwanted⟩ := List.mem_filter.mp (mem_of_mem_firsts h)
  refine ⟨RecordTable.mem_refs.mp href, fun hstored => ?_⟩
  simp [BlobStore.blobExists_iff.mpr hstored] at hwanted

/-- What is listed is what is missing. -/
theorem mem_cids_missingInOrder :
    cid ∈ (missingInOrder parse t s did).map MissingBlobRef.cid ↔ Missing parse t s cid := by
  constructor
  · intro h
    obtain ⟨ref, href, rfl⟩ := List.mem_map.mp h
    obtain ⟨⟨row, hrow, hcid, -⟩, hstored⟩ := mem_missingInOrder href
    exact ⟨⟨row, hrow, hcid⟩, hstored⟩
  · rintro ⟨hreferenced, hstored⟩
    have hwanted : cid ∈ (MissingBlobsScan.walk parse ⟨s, none, did⟩ t).map MissingBlobRef.cid := by
      obtain ⟨ref, href, rfl⟩ : ∃ ref ∈ t.refs parse did, ref.cid = cid :=
        List.mem_map.mp (RecordTable.mem_cids_refs.mpr hreferenced)
      rw [MissingBlobsScan.walk_eq, mem_keys_firsts]
      refine List.mem_map.mpr ⟨ref, List.mem_filter.mpr ⟨href, ?_⟩, rfl⟩
      rw [← BlobStore.blobExists_iff] at hstored
      simpa using hstored
    obtain ⟨ref, hkept, rfl⟩ := List.mem_map.mp hwanted
    exact List.mem_map.mpr ⟨ref, List.mem_mergeSort.mpr hkept, rfl⟩

theorem nodup_walk (scan : MissingBlobsScan) (t : RecordTable) :
    ((scan.walk parse t).map MissingBlobRef.cid).Nodup := by
  rw [MissingBlobsScan.walk_eq]
  exact nodup_firsts _

theorem ordered_missingInOrder : Paging.Ordered MissingBlobRef.cid (missingInOrder parse t s did) :=
  ordered_mergeSort (nodup_walk _ t)

/-- A scan with a cursor keeps what comes after it of a scan without. -/
theorem walk_cursor (cursor : Option String) :
    MissingBlobsScan.walk parse ⟨s, cursor, did⟩ t =
      rowsAfter MissingBlobRef.cid (MissingBlobsScan.walk parse ⟨s, none, did⟩ t) cursor := by
  rw [MissingBlobsScan.walk_eq, MissingBlobsScan.walk_eq, rowsAfter,
    filter_firsts (fun cid => cursor.all fun c => decide (c < cid)), List.filter_filter]
  simp

def missingLimit (limit : LimitParam) : Nat := (queryParamInt limit 500 1 1000).toNat

theorem missingLimit_pos (limit : LimitParam) : 0 < missingLimit limit := by
  have hmem : 1 ≤ queryParamInt limit 500 1 1000 ∧ queryParamInt limit 500 1 1000 ≤ 1000 :=
    queryParamInt_mem limit (by omega) (by omega)
  rw [missingLimit]
  omega

/-- The answer to a cursor is a page of what is missing. -/
theorem askMissingBlobs_eq {cursor : Option String} (h : cursor ≠ some "") :
    askMissingBlobs parse t s did limit cursor =
      pageAfter MissingBlobRef.cid (missingLimit limit) (missingInOrder parse t s did) cursor := by
  have hfilter : cursor.filter (· ≠ "") = cursor := by
    cases cursor with
    | none => rfl
    | some c =>
      have hc : c ≠ "" := fun hc => h (by rw [hc])
      simp [hc]
  have hsorted : (MissingBlobsScan.walk parse ⟨s, cursor, did⟩ t).mergeSort
      (fun a b => decide (a.cid ≤ b.cid)) =
        rowsAfter MissingBlobRef.cid (missingInOrder parse t s did) cursor := by
    rw [walk_cursor, missingInOrder, rowsAfter_mergeSort (nodup_walk _ t)]
  rw [askMissingBlobs, hfilter, hsorted, pageAfter]
  congr 1
  unfold missingLimit
  split_ifs with hnext hmore hmore
  · rfl
  · exact absurd hnext.1 hmore
  · have hempty := not_not.mp (not_and.mp hnext hmore)
    rw [hempty]
    rfl
  · rfl

/-- Where the first page does not end in an empty CID, no cursor is empty. -/
theorem run_askMissingBlobs (h : ¬ EmptyCidFirst parse t s limit) (turns : Nat) :
    run (fun _ => askMissingBlobs parse t s did limit) turns 0 none =
      run (fun _ => pageAfter MissingBlobRef.cid (missingLimit limit)
        (missingInOrder parse t s did)) turns 0 none := by
  refine run_congr id (J := fun mark => mark ≠ some "") (fun i mark hmark => ?_) turns 0 (by simp)
  have hask : askMissingBlobs parse t s did limit mark = _ := askMissingBlobs_eq hmark
  rw [hask, Option.map_id, id]
  refine ⟨rfl, by simp, fun m hm hempty => h ?_⟩
  obtain rfl := Option.some.inj hempty
  obtain ⟨hone, ⟨ref, href, hcid⟩, later, hlater, hlt⟩ :=
    pageAfter_next_least not_lt_empty hm ordered_missingInOrder
  have hlimit := missingLimit_pos limit
  have hmissing {ref : MissingBlobRef} (href : ref ∈ missingInOrder parse t s did) :
      Missing parse t s ref.cid := mem_cids_missingInOrder.mp (List.mem_map.mpr ⟨ref, href, rfl⟩)
  refine ⟨?_, hcid ▸ hmissing href, later.cid, hlt.ne', hmissing hlater⟩
  rw [missingLimit] at hone
  omega

/-- An empty cursor leads back to the first page. -/
theorem run_emptyCid (h : EmptyCidFirst parse t s limit) (did : String) (turns : Nat) :
    (run (fun _ => askMissingBlobs parse t s did limit) turns 0 none).2 = false := by
  obtain ⟨hlimit, hempty, other, hne, hother⟩ := h
  have hone : missingLimit limit = 1 := by
    rw [missingLimit, hlimit]
    rfl
  have hfirst : (askMissingBlobs parse t s did limit none).next = some "" := by
    have hnone : (none : Option String) ≠ some "" := nofun
    rw [askMissingBlobs_eq hnone, hone]
    refine pageAfter_one_least not_lt_empty ordered_missingInOrder
      (List.mem_map.mp (mem_cids_missingInOrder.mpr hempty)) ?_
    obtain ⟨ref, href, rfl⟩ := List.mem_map.mp (mem_cids_missingInOrder.mpr hother)
    exact ⟨ref, href, hne⟩
  have hagain : askMissingBlobs parse t s did limit (some "") =
      askMissingBlobs parse t s did limit none := rfl
  refine run_endless (J := fun mark => mark = none ∨ mark = some "") (fun i mark hmark => ?_)
    turns 0 (Or.inl rfl)
  refine ⟨"", ?_, Or.inr rfl⟩
  obtain rfl | rfl := hmark
  · exact hfirst
  · rw [hagain]
    exact hfirst

/-- Once nothing is missing, the list is empty. -/
theorem askMissingBlobs_of_complete (h : ∀ cid, t.References parse cid → s.Stores cid) :
    askMissingBlobs parse t s did limit none = ⟨[], none⟩ := by
  have hempty : missingInOrder parse t s did = [] := by
    apply List.eq_nil_iff_forall_not_mem.mpr
    intro ref href
    obtain ⟨⟨row, hrow, hcid, -⟩, hstored⟩ := mem_missingInOrder href
    exact hstored (h _ ⟨row, hrow, hcid⟩)
  have hnone : (none : Option String) ≠ some "" := nofun
  rw [askMissingBlobs_eq hnone, hempty]
  simp [pageAfter, rowsAfter]

theorem countReferencedBlobs_le (h : ∀ cid, t.References parse cid → s.Stores cid) :
    countReferencedBlobs parse t ≤ s.importedBlobs := by
  have hsub : t.inOrder.foldl (blobRefTallyVisit parse) [] ⊆ s.nodes.map BlobNode.cid :=
    fun cid hcid => h cid (mem_tally.mp hcid)
  have hle := (List.subperm_of_subset (nodup_tally t) hsub).length_le
  rw [List.length_map] at hle
  exact hle

end Kept

/-- The listing of missing blobs is exact, unless a page of one blob begins with a reference by
an empty CID and more blobs are missing. -/
theorem missingBlobs_exact_iff (parse : String → Option Json) (t : RecordTable) (s : BlobStore)
    (did : String) (limit : LimitParam) :
    MissingBlobsExact parse t s did limit ↔ ¬ EmptyCidFirst parse t s limit := by
  constructor
  · rintro ⟨⟨refs, ⟨⟨turns, hturns⟩, -⟩, -⟩, -⟩ hempty
    have hendless := run_emptyCid hempty did turns
    rw [hturns] at hendless
    cases hendless
  · intro h
    have hordered : Paging.Ordered MissingBlobRef.cid (missingInOrder parse t s did) :=
      ordered_missingInOrder
    obtain ⟨turns, hturns⟩ := run_pageAfter (missingLimit_pos limit) hordered 0 none
    have hall : rowsAfter MissingBlobRef.cid (missingInOrder parse t s did) none =
        missingInOrder parse t s did := List.filter_eq_self.mpr fun _ _ => rfl
    rw [hall, ← run_askMissingBlobs h] at hturns
    refine ⟨⟨missingInOrder parse t s did, ⟨⟨turns, hturns⟩, List.pairwise_map.mpr hordered,
      fun cid => mem_cids_missingInOrder, fun ref href => (mem_missingInOrder href).1⟩,
      fun s' hkept hlisted => ?_⟩, countReferencedBlobs_eq t⟩
    have hcomplete (cid : String) (hcid : t.References parse cid) : s'.Stores cid := by
      by_cases hstored : s.Stores cid
      · exact hkept cid hstored
      · obtain ⟨ref, href, rfl⟩ : ∃ ref ∈ missingInOrder parse t s did, ref.cid = cid :=
          List.mem_map.mp (mem_cids_missingInOrder.mpr ⟨hcid, hstored⟩)
        exact hlisted ref href
    exact ⟨fun _ => askMissingBlobs_of_complete hcomplete, countReferencedBlobs_le hcomplete⟩

/-- The text of a record with two references in the old form, the first by an empty CID. -/
def oldFormText : String :=
  "\x7b\"a\":\x7b\"cid\":\"\",\"mimeType\":\"image/png\"\x7d," ++
    "\"b\":\x7b\"cid\":\"bafkrei\",\"mimeType\":\"image/png\"\x7d\x7d"

def oldFormRecord : Json := .object
  [("a", .object [("cid", .string ""), ("mimeType", .string "image/png")]),
    ("b", .object [("cid", .string "bafkrei"), ("mimeType", .string "image/png")])]

def oldFormParse (text : String) : Option Json :=
  if text = oldFormText then some oldFormRecord else none

def oldFormTable : RecordTable where
  rows := [⟨"app.example", "self", "bafyrei", oldFormText, none⟩]
  nodup := by decide

/-- With one blob a page, the listing of that record's blobs never ends. -/
theorem emptyCid_not_exact :
    ¬ MissingBlobsExact oldFormParse oldFormTable .empty "did:plc:abc" (.number 1) := by
  have hreferences (cid : String) (h : cid ∈ blobWalkRefs oldFormRecord) :
      Missing oldFormParse oldFormTable .empty cid :=
    ⟨⟨_, List.mem_singleton_self _, oldFormRecord, if_pos rfl, h⟩, List.not_mem_nil⟩
  rintro ⟨⟨refs, ⟨⟨turns, hturns⟩, -⟩, -⟩, -⟩
  have hempty : EmptyCidFirst oldFormParse oldFormTable .empty (.number 1) :=
    ⟨by decide, hreferences "" (by decide +kernel), "bafkrei", by decide,
      hreferences "bafkrei" (by decide +kernel)⟩
  have hendless := run_emptyCid hempty "did:plc:abc" turns
  rw [hturns] at hendless
  cases hendless

end MetalBear.Repo
