import MetalBear.Repo.BlobStore
import MetalBear.Repo.Store
import MetalBear.Sync.Enumeration

/-!
# Listing the records and the blobs of a repository

Both listings give a page at a time, and the mark of the last item on it as the cursor of the
next. The records of a collection are read from their table, in either direction; the blobs are
collected from the index in memory, which may change between two pages.
-/

namespace MetalBear.Repo

open Paging Sync

/-! ## Records -/

/-- The `records` table, with its primary key. -/
structure RecordTable where
  rows : List RecordRow
  nodup : (rows.map fun r => (r.collection, r.rkey)).Nodup

/-- The row comes after the cursor, in the direction of the listing. -/
def afterCursor (reverse : Bool) (cursor : Option String) (rkey : String) : Bool :=
  match cursor with
  | none => true
  | some c => if reverse then c < rkey else rkey < c

/-- The order of the listing: ascending when `reverse`, descending otherwise. -/
def listsBefore (reverse : Bool) (a b : RecordRow) : Bool :=
  if reverse then a.rkey ≤ b.rkey else b.rkey ≤ a.rkey

/-- The SELECT of `list_records_locked`, without its LIMIT. -/
def RecordTable.select (t : RecordTable) (collection : String) (cursor : Option String)
    (reverse : Bool) : List RecordRow :=
  (t.rows.filter fun r => r.collection == collection && afterCursor reverse cursor r.rkey).mergeSort
    (listsBefore reverse)

/-- The variables of the loop over the rows; `count` is the number of records. -/
structure ListState where
  records : List RecordRow
  hasMore : Bool
  lastRkey : Option String

/-- The loop over the rows. -/
def readRows (limit : Nat) : List RecordRow → ListState → ListState
  | [], s => s
  | row :: rest, s =>
    if limit ≤ s.records.length then { s with hasMore := true }
    else readRows limit rest { s with records := s.records ++ [row], lastRkey := some row.rkey }

/-- `list_records_locked`: the records of the page and its cursor. -/
def listRecordsLocked (t : RecordTable) (collection : String) (cursor : Option String)
    (reverse : Bool) (limit : Int) : Except WfError (Answer RecordRow String) :=
  if collection = "" then .error .invalidArg
  else
    let limit := (if limit ≤ 0 ∨ 100 < limit then 50 else limit).toNat
    -- An empty cursor is no cursor.
    let rows := (t.select collection (cursor.filter (· ≠ "")) reverse).take (limit + 1)
    let s := readRows limit rows ⟨[], false, none⟩
    .ok ⟨s.records, if s.hasMore then s.lastRkey else none⟩

/-- `h_list_records`, as a client asks it for a page: an error gives nothing. -/
def askRecords (t : RecordTable) (collection : String) (reverse : Bool) (limit : LimitParam)
    (cursor : Option String) : Answer RecordRow String :=
  match listRecordsLocked t collection cursor reverse (queryParamInt limit 50 1 100) with
  | .ok answer => answer
  | .error _ => ⟨[], none⟩

/-- Following the cursor ends, with every record of the collection once and in order. -/
def ListsRecords (t : RecordTable) (collection : String) (reverse : Bool) (limit : LimitParam) :
    Prop :=
  ∃ turns records, run (fun _ => askRecords t collection reverse limit) turns 0 none =
      (records, true) ∧
    records.Pairwise (fun a b => if reverse then a.rkey < b.rkey else b.rkey < a.rkey) ∧
    ∀ r, r ∈ records ↔ r ∈ t.rows ∧ r.collection = collection

/-- The records of the collection. -/
def RecordTable.inCollection (t : RecordTable) (collection : String) : List RecordRow :=
  t.rows.filter (·.collection = collection)

/-- The first page ends in a record without a key. -/
def EmptyCursor (t : RecordTable) (collection : String) (reverse : Bool) (limit : LimitParam) :
    Prop :=
  reverse = true ∧ queryParamInt limit 50 1 100 = 1 ∧
    (∃ r ∈ t.inCollection collection, r.rkey = "") ∧ 1 < (t.inCollection collection).length

/-! ## Blobs -/

/-- `metalbear_blob_node`, as far as the listing reads it. -/
structure ListedBlob where
  cid : String
  /-- The TID at which the blob was first seen; empty when unknown. -/
  rev : String
  valid : blobCidIsValid cid = true

/-- The index of a blob store: one node a CID. -/
structure BlobIndex where
  nodes : List ListedBlob
  nodup : (nodes.map ListedBlob.cid).Nodup

/-- The blob was first seen after the rev. -/
def seenSince (since : Option String) (n : ListedBlob) : Bool :=
  match since with
  | none => true
  | some rev => n.rev ≠ "" && decide (rev < n.rev)

/-- The loop of `metalbear_blob_store_list_page` over the nodes, sorted. -/
def BlobIndex.matched (s : BlobIndex) (since cursor : Option String) : List String :=
  ((s.nodes.filter fun n => seenSince since n &&
    (cursor.filter (· ≠ "")).all fun c => decide (c < n.cid)).map ListedBlob.cid).mergeSort
      fun a b => decide (a ≤ b)

/-- `metalbear_blob_store_list_page`: the page, and whether there are more. -/
def BlobIndex.listPage (s : BlobIndex) (since cursor : Option String) (limit : Nat) :
    Except WfError (List String × Bool) :=
  if limit = 0 then .error .invalidArg
  else
    let matched := s.matched since cursor
    .ok (matched.take limit, decide (limit < matched.length))

/-- The page as `list_blobs` answers it, with the cursor of the next. -/
def askBlobs (s : BlobIndex) (since : Option String) (limit : Nat) (cursor : Option String) :
    Answer String String :=
  match s.listPage since cursor limit with
  | .ok (page, more) => ⟨page, if more then page.getLast? else none⟩
  | .error _ => ⟨[], none⟩

/-- The blob is in the store, and was first seen after the rev. -/
def BlobIndex.Lists (s : BlobIndex) (since : Option String) (cid : String) : Prop :=
  ∃ n ∈ s.nodes, n.cid = cid ∧ ∀ rev, since = some rev → rev < n.rev

/-- No text comes before the empty one. -/
theorem not_lt_empty (s : String) : ¬ s < "" := by
  rw [String.lt_iff_toList_lt]
  exact List.not_lt_nil _

/-! ## Every record once -/

section Records

variable {t : RecordTable} {collection : String} {reverse : Bool}

/-- What the loop leaves: the rows of the page, and whether one is left over. -/
theorem readRows_eq (limit : Nat) (rows : List RecordRow) (s : ListState)
    (hroom : s.records.length ≤ limit)
    (hlast : s.lastRkey = s.records.getLast?.map RecordRow.rkey) :
    (readRows limit rows s).records = s.records ++ rows.take (limit - s.records.length) ∧
      (readRows limit rows s).hasMore =
        (s.hasMore || decide (limit < s.records.length + rows.length)) ∧
      (readRows limit rows s).lastRkey =
        (s.records ++ rows.take (limit - s.records.length)).getLast?.map RecordRow.rkey := by
  induction rows generalizing s with
  | nil =>
    refine ⟨by simp [readRows], ?_, by simp [readRows, hlast]⟩
    have : ¬ limit < s.records.length + 0 := by omega
    simp [readRows, hroom]
  | cons row rest ih =>
    rw [readRows]
    by_cases hfull : limit ≤ s.records.length
    · have hzero : limit - s.records.length = 0 := by omega
      have hmore : limit < s.records.length + (row :: rest).length := by
        rw [List.length_cons]
        omega
      rw [if_pos hfull, hzero, List.take_zero, List.append_nil, decide_eq_true hmore]
      exact ⟨rfl, by simp, hlast⟩
    · obtain ⟨room, hr⟩ := Nat.exists_eq_add_of_lt (Nat.not_le.mp hfull)
      have hsucc : (s.records ++ [row]).length = s.records.length + 1 := by simp
      have hnext := ih { s with records := s.records ++ [row], lastRkey := some row.rkey }
        (by rw [hsucc]; omega) (by simp)
      have htake : limit - s.records.length = room + 1 := by omega
      have htake' : limit - (s.records ++ [row]).length = room := by omega
      have hlength : (s.records ++ [row]).length + rest.length =
          s.records.length + (row :: rest).length := by
        rw [hsucc, List.length_cons]
        omega
      have happend : s.records ++ [row] ++ rest.take room =
          s.records ++ (row :: rest).take (room + 1) := by
        rw [List.take_succ_cons, List.append_assoc, List.singleton_append]
      rw [if_neg hfull, htake]
      dsimp only at hnext
      rw [htake', hlength, happend] at hnext
      exact hnext

/-- The records of the collection, in the order of the listing. -/
theorem RecordTable.select_nodup (t : RecordTable) (collection : String) :
    ((t.inCollection collection).map RecordRow.rkey).Nodup := by
  have hsub : ((t.inCollection collection).map fun r => (r.collection, r.rkey)).Nodup :=
    t.nodup.sublist (List.filter_sublist.map _)
  have hpair : (t.inCollection collection).map (fun r => (r.collection, r.rkey)) =
      ((t.inCollection collection).map RecordRow.rkey).map fun rkey => (collection, rkey) := by
    rw [List.map_map]
    refine List.map_congr_left fun r hr => ?_
    have hcollection : r.collection = collection := by
      simpa using (List.mem_filter.mp hr).2
    rw [Function.comp_apply, hcollection]
  rw [hpair] at hsub
  exact hsub.of_map _

/-- The effective limit of a page. -/
def recordLimit (limit : LimitParam) : Nat := (queryParamInt limit 50 1 100).toNat

theorem recordLimit_pos (limit : LimitParam) : 0 < recordLimit limit := by
  have hmem : 1 ≤ queryParamInt limit 50 1 100 ∧ queryParamInt limit 50 1 100 ≤ 100 :=
    queryParamInt_mem limit (by omega) (by omega)
  rw [recordLimit]
  omega

/-- A page of the records after the cursor, with the key of its last row if there are more. -/
theorem askRecords_eq (t : RecordTable) (reverse : Bool) (hcollection : collection ≠ "")
    (limit : LimitParam)
    {cursor : Option String} (hcursor : cursor ≠ some "") :
    askRecords t collection reverse limit cursor =
      let rows := t.select collection cursor reverse
      ⟨rows.take (recordLimit limit),
        if recordLimit limit < rows.length then
          (rows.take (recordLimit limit)).getLast?.map RecordRow.rkey
        else none⟩ := by
  have hmem : 1 ≤ queryParamInt limit 50 1 100 ∧ queryParamInt limit 50 1 100 ≤ 100 :=
    queryParamInt_mem limit (by omega) (by omega)
  have hlimit : ¬ (queryParamInt limit 50 1 100 ≤ 0 ∨ 100 < queryParamInt limit 50 1 100) := by
    omega
  have hfilter : cursor.filter (· ≠ "") = cursor := by
    cases cursor with
    | none => rfl
    | some c =>
      have hc : c ≠ "" := fun h => hcursor (by rw [h])
      simp [hc]
  rw [askRecords, listRecordsLocked, if_neg hcollection, if_neg hlimit, hfilter]
  dsimp only
  change _ = Answer.mk ((t.select collection cursor reverse).take (recordLimit limit)) _
  rw [recordLimit]
  generalize (queryParamInt limit 50 1 100).toNat = n
  generalize t.select collection cursor reverse = rows
  obtain ⟨hrecords, hmore, hlast⟩ := readRows_eq n (rows.take (n + 1)) ⟨[], false, none⟩
    (Nat.zero_le _) rfl
  rw [hrecords, hmore, hlast]
  have htake : (rows.take (n + 1)).take n = rows.take n := by
    rw [List.take_take, Nat.min_eq_left (Nat.le_succ n)]
  have hlength : decide (n < 0 + (rows.take (n + 1)).length) = decide (n < rows.length) := by
    rw [decide_eq_decide, List.length_take]
    omega
  simp only [List.length_nil, Nat.sub_zero, List.nil_append, htake, hlength, Bool.false_or,
    decide_eq_true_eq]

/-- An order of the keys in which the listing goes up. -/
structure Directs {κ : Type} [LinearOrder κ] (reverse : Bool) (markOf : String → κ) : Prop where
  injective : Function.Injective markOf
  after : ∀ c rkey, afterCursor reverse (some c) rkey = decide (markOf c < markOf rkey)
  before : ∀ a b, listsBefore reverse a b = decide (markOf a.rkey ≤ markOf b.rkey)
  listed : ∀ a b : RecordRow, markOf a.rkey < markOf b.rkey →
    if reverse then a.rkey < b.rkey else b.rkey < a.rkey

theorem directs_reverse : Directs true (id : String → String) where
  injective := Function.injective_id
  after _ _ := rfl
  before _ _ := rfl
  listed _ _ h := h

theorem directs_default : Directs false (OrderDual.toDual : String → Stringᵒᵈ) where
  injective := OrderDual.toDual.injective
  after _ _ := rfl
  before _ _ := rfl
  listed _ _ h := h

section Direction

variable {κ : Type} [LinearOrder κ] {markOf : String → κ}

theorem RecordTable.select_none (t : RecordTable) (collection : String)
    (hdir : Directs reverse markOf) :
    t.select collection none reverse = (t.inCollection collection).mergeSort
      fun a b => decide (markOf a.rkey ≤ markOf b.rkey) := by
  have hbefore : listsBefore reverse = fun a b => decide (markOf a.rkey ≤ markOf b.rkey) := by
    funext a b
    exact hdir.before a b
  rw [RecordTable.select, hbefore, RecordTable.inCollection]
  congr 2
  funext r
  rw [afterCursor, Bool.and_true]
  rfl

theorem RecordTable.select_ordered (t : RecordTable) (collection : String)
    (hdir : Directs reverse markOf) :
    Paging.Ordered (fun r => markOf r.rkey) (t.select collection none reverse) := by
  rw [t.select_none collection hdir]
  apply ordered_mergeSort
  have h := (t.select_nodup collection).map hdir.injective
  rwa [List.map_map] at h

/-- The rows after a cursor are those after its mark. -/
theorem RecordTable.select_cursor (t : RecordTable) (collection : String)
    (hdir : Directs reverse markOf) (cursor : Option String) :
    t.select collection cursor reverse =
      rowsAfter (fun r => markOf r.rkey) (t.select collection none reverse)
        (cursor.map markOf) := by
  have hnodup : ((t.inCollection collection).map fun r => markOf r.rkey).Nodup := by
    have h := (t.select_nodup collection).map hdir.injective
    rwa [List.map_map] at h
  have hbefore : listsBefore reverse = fun a b => decide (markOf a.rkey ≤ markOf b.rkey) := by
    funext a b
    exact hdir.before a b
  rw [t.select_none collection hdir, rowsAfter_mergeSort hnodup, RecordTable.select, hbefore,
    rowsAfter, RecordTable.inCollection, List.filter_filter]
  congr 2
  funext r
  rw [Bool.and_comm]
  cases cursor with
  | none => rfl
  | some c =>
    rw [hdir.after]
    rfl

theorem RecordTable.mem_select (t : RecordTable) (collection : String)
    (hdir : Directs reverse markOf) {r : RecordRow} :
    r ∈ t.select collection none reverse ↔ r ∈ t.rows ∧ r.collection = collection := by
  rw [t.select_none collection hdir, List.mem_mergeSort, RecordTable.inCollection, List.mem_filter,
    decide_eq_true_eq]

theorem RecordTable.select_sub (t : RecordTable) (collection : String)
    (hdir : Directs reverse markOf) (cursor : Option String) :
    (∀ r ∈ t.select collection cursor reverse, r ∈ t.inCollection collection) ∧
      (t.select collection cursor reverse).length ≤ (t.inCollection collection).length := by
  rw [t.select_cursor collection hdir, t.select_none collection hdir]
  constructor
  · intro r hr
    exact List.mem_mergeSort.mp (mem_rowsAfter.mp hr).1
  · refine (List.length_filter_le _ _).trans ?_
    rw [List.length_mergeSort]

/-- The cursor is empty only where a page of one record ends in a record without a key. -/
theorem next_ne_empty (hdir : Directs reverse markOf) (hcollection : collection ≠ "")
    {limit : LimitParam} (hnot : ¬ EmptyCursor t collection reverse limit)
    {cursor : Option String} (hcursor : cursor ≠ some "") {m : String}
    (hm : (askRecords t collection reverse limit cursor).next = some m) : m ≠ "" := by
  rintro rfl
  rw [askRecords_eq t reverse hcollection limit hcursor] at hm
  dsimp only at hm
  have hordered := (t.select_ordered collection hdir).rowsAfter (cursor.map markOf)
  rw [← t.select_cursor collection hdir] at hordered
  obtain ⟨hmem, hlength⟩ := t.select_sub collection hdir cursor
  generalize t.select collection cursor reverse = rows at hm hordered hmem hlength
  split at hm
  · next hmore =>
    obtain ⟨last, hlast, hrkey⟩ := Option.map_eq_some_iff.mp hm
    obtain ⟨before, hbefore⟩ := List.getLast?_eq_some_iff.mp hlast
    have hrest : rows.drop (recordLimit limit) ≠ [] := by
      rw [ne_eq, List.drop_eq_nil_iff]
      omega
    obtain ⟨later, hlater⟩ := List.exists_mem_of_ne_nil _ hrest
    have hsplit := (List.take_append_drop (recordLimit limit) rows).symm
    rw [hbefore] at hsplit
    have hlastMem : last ∈ rows := List.mem_of_mem_take (List.mem_of_getLast? hlast)
    rw [Paging.Ordered, hsplit, List.pairwise_append, List.pairwise_append] at hordered
    obtain ⟨⟨-, -, hearlier⟩, -, hacross⟩ := hordered
    have hlt := hdir.listed last later (hacross last (by simp) later hlater)
    have hfirst : ∀ a ∈ before, if reverse then a.rkey < last.rkey else last.rkey < a.rkey :=
      fun a ha => hdir.listed a last (hearlier a ha last (by simp))
    rw [hrkey] at hlt hfirst
    cases reverse with
    | false => exact not_lt_empty _ hlt
    | true =>
      have hnil : before = [] := by
        rw [List.eq_nil_iff_forall_not_mem]
        intro a ha
        exact not_lt_empty _ (hfirst a ha)
      have hone : recordLimit limit = 1 := by
        have htake := congrArg List.length hbefore
        rw [hnil, List.length_take, List.nil_append, List.length_singleton] at htake
        omega
      refine hnot ⟨rfl, ?_, ⟨last, hmem last hlastMem, hrkey⟩, by omega⟩
      have hpos := recordLimit_pos limit
      rw [recordLimit] at hone
      omega
  · cases hm

/-- Without an empty cursor the listing is complete. -/
theorem run_askRecords (hdir : Directs reverse markOf) (hcollection : collection ≠ "")
    {limit : LimitParam} (hnot : ¬ EmptyCursor t collection reverse limit) :
    ListsRecords t collection reverse limit := by
  have hordered := t.select_ordered collection hdir
  obtain ⟨turns, hturns⟩ := run_pageAfter (recordLimit_pos limit) hordered 0 none
  refine ⟨turns, t.select collection none reverse, ?_, ?_, fun r => t.mem_select collection hdir⟩
  · have hcongr : run (fun _ => askRecords t collection reverse limit) turns 0 none =
        run (fun _ => pageAfter (fun r => markOf r.rkey) (recordLimit limit)
          (t.select collection none reverse)) turns 0 (Option.map markOf none) := by
      refine run_congr markOf (J := fun mark => mark ≠ some "") (fun i mark hmark => ?_) turns 0
        (by simp)
      have hask := askRecords_eq t reverse hcollection limit hmark
      refine ⟨?_, ?_, fun m hm h => next_ne_empty hdir hcollection hnot hmark hm (by simpa using h)⟩
      · rw [hask, pageAfter, ← t.select_cursor collection hdir]
      · rw [hask, pageAfter, ← t.select_cursor collection hdir]
        dsimp only
        split
        · rw [Option.map_map]
          rfl
        · rfl
    rw [hcongr, Option.map_none, hturns]
    simp [rowsAfter]
  · exact hordered.imp fun {a b} h => hdir.listed a b h

end Direction

/-- An empty cursor leads back to the first page. -/
theorem run_emptyCursor (hcollection : collection ≠ "") {limit : LimitParam}
    (h : EmptyCursor t collection reverse limit) (turns : Nat) :
    (run (fun _ => askRecords t collection reverse limit) turns 0 none).2 = false := by
  obtain ⟨rfl, hone, ⟨empty, hmem, hrkey⟩, hlength⟩ := h
  have hlimit : recordLimit limit = 1 := by
    rw [recordLimit, hone]
    rfl
  have hselect := t.select_none collection directs_reverse
  have hordered := t.select_ordered collection directs_reverse
  have hfirst : (askRecords t collection true limit none).next = some "" := by
    rw [askRecords_eq t true hcollection limit (by simp)]
    dsimp only
    have hmemSelect : empty ∈ t.select collection none true := by
      rw [hselect, List.mem_mergeSort]
      exact hmem
    have hlengthSelect : (t.select collection none true).length =
        (t.inCollection collection).length := by
      rw [hselect, List.length_mergeSort]
    rw [hlimit, if_pos (by omega)]
    cases hrows : t.select collection none true with
    | nil =>
      rw [hrows] at hmemSelect
      cases hmemSelect
    | cons first rest =>
      rw [hrows] at hmemSelect hordered
      have hempty : first.rkey = "" := by
        rcases List.mem_cons.mp hmemSelect with rfl | hrest
        · exact hrkey
        · have hlt := (List.pairwise_cons.mp hordered).1 empty hrest
          simp only [hrkey] at hlt
          exact absurd hlt (not_lt_empty _)
      simp [hempty]
  have hagain : askRecords t collection true limit (some "") =
      askRecords t collection true limit none := rfl
  refine run_endless (J := fun mark => mark = none ∨ mark = some "") (fun i mark hmark => ?_)
    turns 0 (Or.inl rfl)
  refine ⟨"", ?_, Or.inr rfl⟩
  rcases hmark with rfl | rfl
  · exact hfirst
  · rw [hagain]
    exact hfirst

end Records

/-- Following the cursor of a listing ends with every record of the collection once and in
order, if and only if no page of one record ends in a record without a key. -/
theorem listRecords_complete_iff (t : RecordTable) (collection : String) (reverse : Bool)
    (limit : LimitParam) :
    ListsRecords t collection reverse limit ↔
      (collection = "" → t.inCollection collection = []) ∧
        ¬ EmptyCursor t collection reverse limit := by
  by_cases hcollection : collection = ""
  · have hask : ∀ mark, askRecords t collection reverse limit mark = ⟨[], none⟩ := by
      intro mark
      rw [askRecords, listRecordsLocked, if_pos hcollection]
    constructor
    · rintro ⟨turns, records, hrun, -, hrecords⟩
      have hnil : records = [] := by
        cases turns with
        | zero => cases hrun
        | succ n =>
          rw [run, hask] at hrun
          exact (congrArg Prod.fst hrun).symm
      have hnone : t.inCollection collection = [] := by
        rw [List.eq_nil_iff_forall_not_mem]
        intro r hr
        obtain ⟨hmem, heq⟩ := List.mem_filter.mp hr
        have := (hrecords r).mpr ⟨hmem, by simpa using heq⟩
        rw [hnil] at this
        cases this
      refine ⟨fun _ => hnone, fun h => ?_⟩
      have hlength := h.2.2.2
      rw [hnone] at hlength
      cases hlength
    · rintro ⟨hnone, -⟩
      refine ⟨1, [], ?_, List.Pairwise.nil, fun r => ?_⟩
      · rw [run, hask]
      · refine iff_of_false (by simp) fun hr => ?_
        have hmem : r ∈ t.inCollection collection := List.mem_filter.mpr ⟨hr.1, by simpa using hr.2⟩
        rw [hnone hcollection] at hmem
        cases hmem
  · constructor
    · rintro ⟨turns, records, hrun, -⟩
      refine ⟨fun h => absurd h hcollection, fun hempty => ?_⟩
      have hendless := run_emptyCursor hcollection hempty turns
      rw [hrun] at hendless
      cases hendless
    · rintro ⟨-, hnot⟩
      cases reverse with
      | true => exact run_askRecords directs_reverse hcollection hnot
      | false => exact run_askRecords directs_default hcollection hnot

/-- Two records of a collection, of which the first has no key. -/
def keylessTable : RecordTable where
  rows := [⟨"app.example", "", "c1", "{}", none⟩, ⟨"app.example", "a", "c2", "{}", none⟩]
  nodup := by decide

/-- With one record a page, the listing never leaves the first. -/
theorem keyless_listing_endless : ¬ ListsRecords keylessTable "app.example" true (.number 1) := by
  rintro ⟨turns, records, hrun, -⟩
  have hempty : EmptyCursor keylessTable "app.example" true (.number 1) :=
    ⟨rfl, by decide, ⟨⟨"app.example", "", "c1", "{}", none⟩, by decide, rfl⟩, by decide⟩
  have hendless := run_emptyCursor (by decide) hempty turns
  rw [hrun] at hendless
  cases hendless

/-! ## Every blob once -/

section Blobs

variable {s : BlobIndex} {since : Option String} {limit : Nat}

theorem seenSince_iff {n : ListedBlob} :
    seenSince since n = true ↔ ∀ rev, since = some rev → rev < n.rev := by
  cases since with
  | none => simp [seenSince]
  | some rev =>
    have hne : rev < n.rev → n.rev ≠ "" := by
      rintro hlt hempty
      rw [hempty] at hlt
      exact not_lt_empty rev hlt
    simpa [seenSince] using hne

/-- What is collected without a cursor. -/
theorem BlobIndex.mem_matched {cid : String} :
    cid ∈ s.matched since none ↔ s.Lists since cid := by
  rw [BlobIndex.matched, List.mem_mergeSort, List.mem_map]
  constructor
  · rintro ⟨n, hn, rfl⟩
    obtain ⟨hmem, hseen⟩ := List.mem_filter.mp hn
    exact ⟨n, hmem, rfl, seenSince_iff.mp (Bool.and_eq_true_iff.mp hseen).1⟩
  · rintro ⟨n, hmem, rfl, hseen⟩
    exact ⟨n, List.mem_filter.mpr ⟨hmem, Bool.and_eq_true_iff.mpr
      ⟨seenSince_iff.mpr hseen, rfl⟩⟩, rfl⟩

/-- The CIDs that are collected, before they are sorted. -/
theorem BlobIndex.matched_eq (s : BlobIndex) (since cursor : Option String) :
    s.matched since cursor =
      (rowsAfter id ((s.nodes.filter (seenSince since)).map ListedBlob.cid)
        (cursor.filter (· ≠ ""))).mergeSort fun a b => decide (id a ≤ id b) := by
  rw [BlobIndex.matched, rowsAfter, List.filter_map, List.filter_filter]
  congr 3
  funext n
  rw [Bool.and_comm]
  rfl

theorem BlobIndex.nodup_seen (s : BlobIndex) (since : Option String) :
    (((s.nodes.filter (seenSince since)).map ListedBlob.cid).map id).Nodup := by
  rw [List.map_id]
  exact s.nodup.sublist (List.filter_sublist.map _)

theorem BlobIndex.ordered (s : BlobIndex) (since : Option String) :
    Paging.Ordered id (s.matched since none) := by
  have h := ordered_mergeSort (s.nodup_seen since)
  rw [BlobIndex.matched_eq]
  simpa [rowsAfter] using h

/-- No blob is without a CID. -/
theorem BlobIndex.matched_ne_empty {cid : String} (h : cid ∈ s.matched since none) : cid ≠ "" := by
  obtain ⟨n, -, rfl, -⟩ := BlobIndex.mem_matched.mp h
  have hvalid := n.valid
  rintro hempty
  rw [hempty] at hvalid
  cases hvalid

/-- The page after a cursor is a page of the blobs that are collected. -/
theorem askBlobs_eq (s : BlobIndex) (since : Option String) (hlimit : 0 < limit)
    {cursor : Option String} (hcursor : cursor ≠ some "") :
    askBlobs s since limit cursor = pageAfter id limit (s.matched since none) cursor := by
  have hfilter : cursor.filter (· ≠ "") = cursor := by
    cases cursor with
    | none => rfl
    | some c =>
      have hc : c ≠ "" := fun h => hcursor (by rw [h])
      simp [hc]
  have hmatched : s.matched since cursor = rowsAfter id (s.matched since none) cursor := by
    have hsort := rowsAfter_mergeSort (s.nodup_seen since) cursor
    rw [BlobIndex.matched_eq, BlobIndex.matched_eq s since none, hfilter]
    rw [← hsort]
    congr 2
    simp [rowsAfter]
  rw [askBlobs, BlobIndex.listPage, if_neg hlimit.ne', pageAfter]
  dsimp only
  rw [hmatched, Option.map_id_fun, id]
  simp only [decide_eq_true_eq]

/-- On the marks that are reached, the answers are pages of what is collected. -/
theorem run_askBlobs (hlimit : 0 < limit) (stores : Nat → BlobIndex) (since : Option String)
    (turns : Nat) : run (fun i => askBlobs (stores i) since limit) turns 0 none =
      run (fun i => pageAfter id limit ((stores i).matched since none)) turns 0 none := by
  refine run_congr id (J := fun mark => mark ≠ some "") (fun i mark hmark => ?_) turns 0 (by simp)
  have hask := askBlobs_eq (stores i) since hlimit hmark
  rw [hask, Option.map_id, id]
  refine ⟨rfl, rfl, fun m hm => ?_⟩
  obtain ⟨cid, hcid, rfl⟩ := pageAfter_next_mem hm
  exact fun h => (stores i).matched_ne_empty hcid (Option.some.inj h)

end Blobs

/-- The pages of the blobs that were first seen after a rev come in the order of the CIDs. Each
page gives only blobs that are there at the time, none is given twice, and once there is no
cursor every blob is given that was there on each page. Of a store that stays as it is, all
blobs are given and the pages end. -/
theorem listBlobs_pages (stores : Nat → BlobIndex) (since : Option String) (limit : Nat)
    (hlimit : 0 < limit) :
    (∀ turns, (run (fun i => askBlobs (stores i) since limit) turns 0 none).1.Pairwise (· < ·) ∧
      (∀ cid ∈ (run (fun i => askBlobs (stores i) since limit) turns 0 none).1,
        ∃ i < turns, (stores i).Lists since cid) ∧
      ((run (fun i => askBlobs (stores i) since limit) turns 0 none).2 = true →
        ∀ cid, (∀ i < turns, (stores i).Lists since cid) →
          cid ∈ (run (fun i => askBlobs (stores i) since limit) turns 0 none).1)) ∧
    ((∀ i, stores i = stores 0) → ∃ turns cids,
      run (fun i => askBlobs (stores i) since limit) turns 0 none = (cids, true) ∧
        ∀ cid, cid ∈ cids ↔ (stores 0).Lists since cid) := by
  simp only [run_askBlobs hlimit]
  have hordered : ∀ i, Paging.Ordered id ((stores i).matched since none) :=
    fun i => (stores i).ordered since
  refine ⟨fun turns => ⟨(run_ordered hordered turns 0 none).1, fun cid hcid => ?_,
    fun hended cid hcid => ?_⟩, fun hsame => ?_⟩
  · obtain ⟨i, -, hi, hmem⟩ := run_sound turns 0 none hcid
    exact ⟨i, by omega, BlobIndex.mem_matched.mp hmem⟩
  · have hk : ∀ i, 0 ≤ i → i < 0 + turns → ∃ r ∈ (stores i).matched since none, id r = cid :=
      fun i _ hi => ⟨cid, BlobIndex.mem_matched.mpr (hcid i (by omega)), rfl⟩
    obtain ⟨r, hr, rfl⟩ := run_mem hlimit hordered turns 0 none hended hk (by simp)
    exact hr
  · obtain ⟨turns, hturns⟩ := run_pageAfter hlimit (hordered 0) 0 none
    refine ⟨turns, rowsAfter id ((stores 0).matched since none) none, ?_, fun cid => ?_⟩
    · rw [← hturns]
      simp only [hsame]
    · rw [mem_rowsAfter, BlobIndex.mem_matched]
      exact ⟨And.left, fun h => ⟨h, by simp⟩⟩

/-- A store in which blobs were seen at four revs, and the same once another has come. -/
def fewBlobs : BlobIndex where
  nodes := [⟨"bafkreid", "3kd", by decide⟩, ⟨"bafkreib", "3kb", by decide⟩,
    ⟨"bafkreia", "3ka", by decide⟩, ⟨"bafkreie", "3kc", by decide⟩]
  nodup := by decide

def moreBlobs : BlobIndex where
  nodes := ⟨"bafkreic", "3ke", by decide⟩ :: fewBlobs.nodes
  nodup := by decide

/-- What is collected, by its order. -/
theorem BlobIndex.matched_of_perm {s : BlobIndex} {since cursor : Option String} {cids : List String}
    (hperm : ((s.nodes.filter fun n => seenSince since n && (cursor.filter (· ≠ "")).all
      fun c => decide (c < n.cid)).map ListedBlob.cid).Perm cids)
    (hsorted : cids.Pairwise (· ≤ ·)) : s.matched since cursor = cids := by
  have hmatched : (s.matched since cursor).Pairwise (· ≤ ·) := by
    have hsort := @List.pairwise_mergeSort String (fun a b => decide (a ≤ b))
      (fun a b c hab hbc => decide_eq_true (le_trans (of_decide_eq_true hab) (of_decide_eq_true hbc)))
      (fun a b => by simpa using le_total a b)
    exact (hsort _).imp of_decide_eq_true
  exact ((List.mergeSort_perm _ _).trans hperm).eq_of_pairwise' hmatched hsorted

/-- The blobs since a rev, one a page, where the other blob comes after the first page. -/
theorem listBlobs_pages_growing :
    let stores : Nat → BlobIndex := fun i => if i = 0 then fewBlobs else moreBlobs
    run (fun i => askBlobs (stores i) (some "3ka") 1) 4 0 none =
        (["bafkreib", "bafkreic", "bafkreid", "bafkreie"], true) ∧
      ∀ cid, (∀ i < 4, (stores i).Lists (some "3ka") cid) →
        cid ∈ ["bafkreib", "bafkreic", "bafkreid", "bafkreie"] := by
  intro stores
  have hfirst : fewBlobs.matched (some "3ka") none = ["bafkreib", "bafkreid", "bafkreie"] :=
    BlobIndex.matched_of_perm (by decide +kernel) (by decide +kernel)
  have hsecond : moreBlobs.matched (some "3ka") (some "bafkreib") =
      ["bafkreic", "bafkreid", "bafkreie"] :=
    BlobIndex.matched_of_perm (by decide +kernel) (by decide +kernel)
  have hthird : moreBlobs.matched (some "3ka") (some "bafkreic") = ["bafkreid", "bafkreie"] :=
    BlobIndex.matched_of_perm (by decide +kernel) (by decide +kernel)
  have hlast : moreBlobs.matched (some "3ka") (some "bafkreid") = ["bafkreie"] :=
    BlobIndex.matched_of_perm (by decide +kernel) (by decide +kernel)
  have hrun : run (fun i => askBlobs (stores i) (some "3ka") 1) 4 0 none =
      (["bafkreib", "bafkreic", "bafkreid", "bafkreie"], true) := by
    simp [run, askBlobs, BlobIndex.listPage, stores, hfirst, hsecond, hthird, hlast]
  refine ⟨hrun, ?_⟩
  have hlisted := ((listBlobs_pages stores (some "3ka") 1 (by decide)).1 4).2.2
  rw [hrun] at hlisted
  exact hlisted rfl

end MetalBear.Repo
