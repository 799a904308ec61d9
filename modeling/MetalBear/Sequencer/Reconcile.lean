import MetalBear.Repo.AnnouncedRev
import MetalBear.Sequencer.RepoEvent

/-!
# Start-up reconciliation

When the host starts, every hosted repository and every account is compared with what the log
last said of it, and announced again where the two differ. The log is walked from its newest
event to the first one that tells anything about the repository, or about the account.
-/

namespace MetalBear.Sequencer

open MetalBear.Repo

/-! ## The scan -/

/-- What becomes of `SELECT frame FROM events ORDER BY seq DESC`. -/
structure ScanOutcome where
  prepares : Bool
  /-- The number of rows after which a step fails, if one does. -/
  failsAfter : Option Nat

/-- The scan gets to the event it looks for, or to the end of the log. -/
def ScanOutcome.Completes (o : ScanOutcome) : Prop := o.prepares = true ∧ o.failsAfter = none

/-- The event in a row, where `frame && length > 0` and the decoder takes it. -/
def rowData (codec : FrameCodec) (row : EventRow) : Option SubscribeData :=
  if row.frame = [] then none else codec.decode row.frame

/-- The loop over the rows, the newest first: what the first event that tells something says. A
scan that fails has found nothing. -/
def scanLog {β : Type} (codec : FrameCodec) (l : EventLog) (tells : SubscribeData → Option β)
    (o : ScanOutcome) : Option β :=
  if o.prepares then
    let rows := l.events.rows.insertionSort fun a b => b.1 ≤ a.1
    let rows := match o.failsAfter with
      | some n => rows.take n
      | none => rows
    rows.findSome? fun row => (rowData codec row.2).bind tells
  else none

/-- The rev of a #commit or #sync event of the repository. -/
def repoRev (did : String) : SubscribeData → Option String
  | .commit data => if data.did = did then some data.rev else none
  | .sync data => if data.did = did then some data.rev else none
  | _ => none

/-- The `active` of an #account event of the account. -/
def accountActive (did : String) : SubscribeData → Option Bool
  | .account data => if data.did = did then some data.active else none
  | _ => none

/-! ## The reconciliations -/

/-- What the outside decides while something is reconciled. -/
structure ReconcileOutcome where
  scan : ScanOutcome
  /-- There is memory for the head's rev and CID. -/
  headRead : Bool
  exported : Bool
  append : AppendEnv

/-- `metalbear_sequencer_reconcile_repo`. -/
def reconcileRepo (codec : FrameCodec) (lib : BlockLibrary) (l : EventLog) (s : RepoStore)
    (o : ReconcileOutcome) : EventLog × WfStatus :=
  match storeGetHead lib s with
  | .error error => (l, if error = .notFound then .ok else error.status)
  | .ok (rev, _) =>
    if o.headRead = false then (l, .alloc)
    else if scanLog codec l (repoRev s.did) o.scan = some rev then (l, .ok)
    else
      match exportCommit s o.exported with
      | .error error => (l, error.status)
      | .ok block =>
        appendData codec l (.sync ⟨CString.snprintf codec.buffers.did s.did,
          CString.snprintf codec.buffers.rev rev, [block]⟩) o.append

/-- `metalbear_sequencer_account_status`. -/
def sequencerAccountStatus (codec : FrameCodec) (l : EventLog) (did : String) (active : Bool)
    (statusText : Option String) (env : AppendEnv) : EventLog × WfStatus :=
  appendData codec l (.account ⟨CString.snprintf codec.buffers.did did, active,
    (statusText.filter (· ≠ "")).map (CString.snprintf codec.buffers.status)⟩) env

/-- `metalbear_sequencer_reconcile_account`. -/
def reconcileAccount (codec : FrameCodec) (l : EventLog) (did : String) (active : Bool)
    (o : ReconcileOutcome) : EventLog × WfStatus :=
  if scanLog codec l (accountActive did) o.scan = some active then (l, .ok)
  else sequencerAccountStatus codec l did active (if active then none else some "deactivated")
    o.append

/-! ## What the log last said -/

section Newest

variable {β : Type}

/-- The newest event that tells something tells this. -/
def TellsLast (codec : FrameCodec) (l : EventLog) (tells : SubscribeData → Option β) (b : β) :
    Prop :=
  ∃ row ∈ l.events.rows, (rowData codec row.2).bind tells = some b ∧
    ∀ other ∈ l.events.rows, (rowData codec other.2).bind tells ≠ none → other.1 ≤ row.1

variable {codec : FrameCodec} {l : EventLog} {tells : SubscribeData → Option β} {b : β}

/-- A scan that completes finds what the log last said. -/
theorem scanLog_eq_some_iff {o : ScanOutcome} (ho : o.Completes) :
    scanLog codec l tells o = some b ↔ TellsLast codec l tells b := by
  obtain ⟨hprep, hfails⟩ := ho
  have hsorted := List.pairwise_insertionSort (fun a b : Int × EventRow => b.1 ≤ a.1)
    l.events.rows
  have hmem : ∀ row, row ∈ l.events.rows.insertionSort (fun a b => b.1 ≤ a.1) ↔
      row ∈ l.events.rows := fun row => List.mem_insertionSort _
  simp only [scanLog, hprep, hfails, if_true]
  rw [List.findSome?_eq_some_iff]
  constructor
  · rintro ⟨newer, row, older, hsplit, htells, hsilent⟩
    rw [hsplit] at hmem hsorted
    refine ⟨row, (hmem row).mp (by simp), htells, fun other hother hspeaks => ?_⟩
    rcases List.mem_append.mp ((hmem other).mpr hother) with hnew | hrest
    · exact absurd (hsilent other hnew) hspeaks
    · rcases List.mem_cons.mp hrest with rfl | hold
      · exact le_refl _
      · exact List.rel_of_pairwise_cons (List.pairwise_append.mp hsorted).2.1 hold
  · rintro ⟨row, hrow, htells, hlast⟩
    obtain ⟨newer, older, hsplit⟩ := List.append_of_mem ((hmem row).mpr hrow)
    refine ⟨newer, row, older, hsplit, htells, fun other hother => ?_⟩
    rw [hsplit] at hmem hsorted
    by_contra hspeaks
    have hin : other ∈ l.events.rows := (hmem other).mp (List.mem_append_left _ hother)
    -- a newer row that speaks would have the number of the row itself
    have hge := (List.pairwise_append.mp hsorted).2.2 other hother row List.mem_cons_self
    have hle := hlast other hin hspeaks
    have hsame : other = row :=
      List.inj_on_of_nodup_map l.events.nodup hin hrow (le_antisymm hle hge)
    have hnodup : (newer ++ row :: older).Nodup := by
      rw [← hsplit]
      exact (List.perm_insertionSort _ _).nodup_iff.mpr (List.Nodup.of_map _ l.events.nodup)
    exact (List.nodup_append.mp hnodup).2.2 other hother row List.mem_cons_self hsame

/-- Two logs with the same events that speak say the same. -/
theorem tellsLast_congr {l' : EventLog}
    (h : ∀ row, (rowData codec row.2).bind tells ≠ none →
      (row ∈ l.events.rows ↔ row ∈ l'.events.rows)) :
    TellsLast codec l tells b ↔ TellsLast codec l' tells b := by
  have hspeaks : ∀ row : Int × EventRow, (rowData codec row.2).bind tells = some b →
      (rowData codec row.2).bind tells ≠ none := fun row hrow hnone => by
    rw [hrow] at hnone
    cases hnone
  constructor
  · rintro ⟨row, hrow, htells, hlast⟩
    exact ⟨row, (h row (hspeaks row htells)).mp hrow, htells,
      fun other hother hs => hlast other ((h other hs).mpr hother) hs⟩
  · rintro ⟨row, hrow, htells, hlast⟩
    exact ⟨row, (h row (hspeaks row htells)).mpr hrow, htells,
      fun other hother hs => hlast other ((h other hs).mp hother) hs⟩

/-- One event is appended. -/
def AppendsEvent (codec : FrameCodec) (l l' : EventLog) (data : SubscribeData) : Prop :=
  ∃ row, l'.events.rows = l.events.rows ++ [(l.events.highWater + 1, row)] ∧
    rowData codec row = some data

/-- An append of an event that is encoded is one. -/
theorem appendsEvent_of_ok (hcodec : codec.Inverts) (hempty : codec.decode [] = none)
    {data : SubscribeData} {env : AppendEnv} (hok : (appendData codec l data env).2 = .ok) :
    AppendsEvent codec l (appendData codec l data env).1 data := by
  rcases appendData_cases hcodec l data env with ⟨-, hfail⟩ | ⟨row, -, hdecode, hrows, -⟩
  · exact absurd hok hfail
  · refine ⟨row, hrows, ?_⟩
    rw [rowData, if_neg, hdecode]
    intro hframe
    rw [hframe, hempty] at hdecode
    cases hdecode

/-- An event that is appended is the newest. -/
theorem AppendsEvent.tellsLast {l' : EventLog} {data : SubscribeData}
    (h : AppendsEvent codec l l' data) (htells : tells data = some b) :
    TellsLast codec l' tells b := by
  obtain ⟨row, hrows, hdata⟩ := h
  refine ⟨(l.events.highWater + 1, row), by simp [hrows], by simp [hdata, htells], ?_⟩
  intro other hother _
  rw [hrows, List.mem_append, List.mem_singleton] at hother
  rcases hother with hold | rfl
  · have := l.events.le_highWater other hold
    dsimp only
    omega
  · exact le_refl _

/-- An event that tells nothing changes nothing. -/
theorem AppendsEvent.tellsLast_iff {l' : EventLog} {data : SubscribeData}
    (h : AppendsEvent codec l l' data) (hsilent : tells data = none) :
    TellsLast codec l' tells b ↔ TellsLast codec l tells b := by
  obtain ⟨row, hrows, hdata⟩ := h
  refine tellsLast_congr fun other hspeaks => ?_
  rw [hrows, List.mem_append, List.mem_singleton]
  refine or_iff_left ?_
  rintro rfl
  exact hspeaks (by simp [hdata, hsilent])

end Newest

/-! ## One reconciliation -/

/-- What is reconciled when the host starts. -/
inductive Reconciliation where
  | repo (s : RepoStore)
  | account (did : String) (active : Bool)

section Host

variable (codec : FrameCodec) (lib : BlockLibrary)

/-- The reconciliation is carried out. -/
def Reconciliation.run (l : EventLog) (o : ReconcileOutcome) :
    Reconciliation → EventLog × WfStatus
  | .repo s => reconcileRepo codec lib l s o
  | .account did active => reconcileAccount codec l did active o

/-- The log last told the rev of the head, or the state of the account. A repository without a
head has nothing to tell. -/
def Reconciliation.Settled (l : EventLog) : Reconciliation → Prop
  | .repo s => ∀ rev cid, storeGetHead lib s = .ok (rev, cid) →
      TellsLast codec l (repoRev s.did) rev
  | .account did active => TellsLast codec l (accountActive did) active

/-- The event that is due: a #sync with the rev of the head, or an #account with the state. -/
def Reconciliation.Announces (data : SubscribeData) : Reconciliation → Prop
  | .repo s => ∃ rev cid blocks, storeGetHead lib s = .ok (rev, cid) ∧
      data = .sync ⟨s.did, rev, blocks⟩
  | .account did active => ∃ status, data = .account ⟨did, active, status⟩

/-- The event in the row is about the repository's commits, or about the account. -/
def Reconciliation.Concerns (row : EventRow) : Reconciliation → Prop
  | .repo s => (rowData codec row).bind (repoRev s.did) ≠ none
  | .account did _ => (rowData codec row).bind (accountActive did) ≠ none

/-- The arrays of the library's events hold the DID and the rev. -/
def Reconciliation.Fits : Reconciliation → Prop
  | .repo s => s.did.utf8ByteSize < codec.buffers.did ∧
      ∀ rev cid, storeGetHead lib s = .ok (rev, cid) → rev.utf8ByteSize < codec.buffers.rev
  | .account did _ => did.utf8ByteSize < codec.buffers.did

/-- The two are not about one DID with different heads or different states. -/
def Reconciliation.Agrees : Reconciliation → Reconciliation → Prop
  | .repo s, .repo s' => s.did = s'.did → ∀ rev cid rev' cid', storeGetHead lib s = .ok (rev, cid) →
      storeGetHead lib s' = .ok (rev', cid') → rev = rev'
  | .account did active, .account did' active' => did = did' → active = active'
  | _, _ => True

/-- Whatever a reconciliation needs is there: the memory, the block of the head, the statements,
a sequence number and an encoder that takes the event that is due. -/
structure Reconciliation.GetsThrough (r : Reconciliation) (l : EventLog) (o : ReconcileOutcome) :
    Prop where
  headRead : o.headRead = true
  exported : o.exported = true
  stored : ∀ s, r = .repo s → s.head ≠ "" → s.head ∈ s.car
  begun : o.append.closing = false ∧ o.append.begun = true
  room : l.events.highWater < maxRowid
  inserted : o.append.inserted = true
  encodes : ∀ data, r.Announces lib data →
    (codec.encode data (l.events.highWater + 1) o.append.now).1 = .ok
  updated : o.append.updated = true
  committed : o.append.committed = true

variable {codec lib}

/-- Only the events about the repository, or about the account, decide. -/
theorem Reconciliation.settled_congr {r : Reconciliation} {l l' : EventLog}
    (h : ∀ row : Int × EventRow, r.Concerns codec row.2 →
      (row ∈ l.events.rows ↔ row ∈ l'.events.rows)) :
    r.Settled codec lib l ↔ r.Settled codec lib l' := by
  cases r with
  | repo s =>
    refine forall_congr' fun rev => forall_congr' fun cid => ?_
    exact imp_congr_right fun _ => tellsLast_congr h
  | account did active => exact tellsLast_congr h

/-- A reconciliation that is settled appends nothing. -/
theorem Reconciliation.run_of_settled {r : Reconciliation} {l : EventLog} {o : ReconcileOutcome}
    (ho : o.scan.Completes) (h : r.Settled codec lib l) : (r.run codec lib l o).1 = l := by
  cases r with
  | repo s =>
    simp only [Reconciliation.run, reconcileRepo]
    cases hhead : storeGetHead lib s with
    | error error => rfl
    | ok head =>
      obtain ⟨rev, cid⟩ := head
      dsimp only
      split
      · rfl
      · rw [if_pos ((scanLog_eq_some_iff ho).mpr (h rev cid hhead))]
  | account did active =>
    simp only [Reconciliation.run, reconcileAccount]
    rw [if_pos ((scanLog_eq_some_iff ho).mpr h)]

/-- A reconciliation that is not settled, and succeeds, appends the event that is due. -/
theorem Reconciliation.run_of_not_settled (hcodec : codec.Inverts) (hempty : codec.decode [] = none)
    {r : Reconciliation} (hfits : r.Fits codec lib) {l : EventLog} {o : ReconcileOutcome}
    (ho : o.scan.Completes) (h : ¬ r.Settled codec lib l) (hok : (r.run codec lib l o).2 = .ok) :
    ∃ data, AppendsEvent codec l (r.run codec lib l o).1 data ∧ r.Announces lib data := by
  cases r with
  | repo s =>
    simp only [Reconciliation.Settled, not_forall] at h
    obtain ⟨rev, cid, hhead, hlast⟩ := h
    have hdid : CString.snprintf codec.buffers.did s.did = s.did :=
      (CString.snprintf_eq_self_iff (by have := hfits.1; omega)).mpr hfits.1
    have hrev : CString.snprintf codec.buffers.rev rev = rev :=
      (CString.snprintf_eq_self_iff (by have := hfits.2 rev cid hhead; omega)).mpr
        (hfits.2 rev cid hhead)
    simp only [Reconciliation.run, reconcileRepo, hhead, hdid, hrev] at hok ⊢
    rw [if_neg (mt (scanLog_eq_some_iff ho).mp hlast)] at hok ⊢
    split at hok
    · cases hok
    · next hread =>
      rw [if_neg hread]
      cases hexport : exportCommit s o.exported with
      | error error =>
        rw [hexport] at hok
        exact absurd hok error.ne_ok
      | ok block =>
        rw [hexport] at hok
        exact ⟨_, appendsEvent_of_ok hcodec hempty hok, rev, cid, _, hhead, rfl⟩
  | account did active =>
    have hdid : CString.snprintf codec.buffers.did did = did :=
      (CString.snprintf_eq_self_iff (Nat.zero_lt_of_lt hfits)).mpr hfits
    simp only [Reconciliation.run, reconcileAccount, sequencerAccountStatus, hdid] at hok ⊢
    rw [if_neg (mt (scanLog_eq_some_iff ho).mp h)] at hok ⊢
    exact ⟨_, appendsEvent_of_ok hcodec hempty hok, _, rfl⟩

/-- An append that has all it needs succeeds. -/
theorem Reconciliation.GetsThrough.append {r : Reconciliation} {l : EventLog} {o : ReconcileOutcome}
    (h : r.GetsThrough codec lib l o) {data : SubscribeData} (hdue : r.Announces lib data) :
    (appendData codec l data o.append).2 = .ok := by
  have htype : data.event.type ≠ .other := by cases data <;> nofun
  have hroom : ¬ maxRowid ≤ l.events.highWater := not_le.mpr h.room
  have hencodes := h.encodes data hdue
  simp [appendData, appendEvent, appendTransaction, h.begun, h.inserted, h.updated, h.committed,
    hroom, htype, hencodes]

/-- A reconciliation that has all it needs succeeds. -/
theorem Reconciliation.run_ok {r : Reconciliation} (hfits : r.Fits codec lib) {l : EventLog}
    {o : ReconcileOutcome} (h : r.GetsThrough codec lib l o) : (r.run codec lib l o).2 = .ok := by
  cases r with
  | repo s =>
    simp only [Reconciliation.run, reconcileRepo]
    cases hhead : storeGetHead lib s with
    | error error =>
      rw [storeGetHead] at hhead
      split at hhead
      · cases hhead
        rfl
      · cases hhead
    | ok head =>
      obtain ⟨rev, cid⟩ := head
      have hdid : CString.snprintf codec.buffers.did s.did = s.did :=
        (CString.snprintf_eq_self_iff (by have := hfits.1; omega)).mpr hfits.1
      have hrev : CString.snprintf codec.buffers.rev rev = rev :=
        (CString.snprintf_eq_self_iff (by have := hfits.2 rev cid hhead; omega)).mpr
          (hfits.2 rev cid hhead)
      have hne : s.head ≠ "" := by
        intro hempty
        rw [storeGetHead, if_pos hempty] at hhead
        cases hhead
      have hexport : exportCommit s o.exported = .ok s.head := by
        simp [exportCommit, hne, h.stored s rfl hne, h.exported]
      simp only [h.headRead, Bool.true_eq_false, if_false, hdid, hrev, hexport]
      split
      · rfl
      · exact h.append ⟨rev, cid, _, hhead, rfl⟩
  | account did active =>
    have hdid : CString.snprintf codec.buffers.did did = did :=
      (CString.snprintf_eq_self_iff (Nat.zero_lt_of_lt hfits)).mpr hfits
    simp only [Reconciliation.run, reconcileAccount, sequencerAccountStatus, hdid]
    split
    · rfl
    · exact h.append ⟨_, rfl⟩

/-- A reconciliation that fails leaves the log alone. -/
theorem Reconciliation.run_of_fails (hcodec : codec.Inverts) {r : Reconciliation} {l : EventLog}
    {o : ReconcileOutcome} (hfail : (r.run codec lib l o).2 ≠ .ok) :
    (r.run codec lib l o).1 = l := by
  have hsame : ∀ data env, (appendData codec l data env).2 ≠ .ok →
      (appendData codec l data env).1 = l := by
    intro data env hne
    rcases appendData_cases hcodec l data env with ⟨hsame, -⟩ | ⟨_, hok, -⟩
    · exact hsame
    · exact absurd hok hne
  cases r with
  | repo s =>
    simp only [Reconciliation.run, reconcileRepo] at hfail ⊢
    cases hhead : storeGetHead lib s with
    | error error => rfl
    | ok head =>
      rw [hhead] at hfail
      dsimp only at hfail ⊢
      split
      · rfl
      · next hread =>
        rw [if_neg hread] at hfail
        split
        · rfl
        · next hscan =>
          rw [if_neg hscan] at hfail
          cases hexport : exportCommit s o.exported with
          | error error => rfl
          | ok block =>
            rw [hexport] at hfail
            exact hsame _ _ hfail
  | account did active =>
    simp only [Reconciliation.run, reconcileAccount] at hfail ⊢
    split
    · rfl
    · next hscan =>
      rw [if_neg hscan] at hfail
      exact hsame _ _ hfail

/-! ## All reconciliations -/

/-- The due event settles its own reconciliation, and every one that agrees with it. -/
theorem Reconciliation.settled_of_announces {r r' : Reconciliation} (hagree : r.Agrees lib r')
    {l l' : EventLog} {data : SubscribeData} (happends : AppendsEvent codec l l' data)
    (hannounces : r.Announces lib data) (h : r'.Settled codec lib l) : r'.Settled codec lib l' := by
  cases r with
  | repo s =>
    obtain ⟨rev, cid, blocks, hhead, rfl⟩ := hannounces
    cases r' with
    | repo s' =>
      intro rev' cid' hhead'
      by_cases hdid : s.did = s'.did
      · obtain rfl := hagree hdid rev cid rev' cid' hhead hhead'
        exact happends.tellsLast (if_pos hdid)
      · exact (happends.tellsLast_iff (if_neg hdid)).mpr (h rev' cid' hhead')
    | account did active => exact (happends.tellsLast_iff rfl).mpr h
  | account did active =>
    obtain ⟨status, rfl⟩ := hannounces
    cases r' with
    | repo s' => exact fun rev cid hhead => (happends.tellsLast_iff rfl).mpr (h rev cid hhead)
    | account did' active' =>
      by_cases hdid : did = did'
      · obtain rfl := hagree hdid
        exact happends.tellsLast (if_pos hdid)
      · exact (happends.tellsLast_iff (if_neg hdid)).mpr h

/-- The due event settles what it is about. -/
theorem Reconciliation.settled_self {r : Reconciliation} {l l' : EventLog} {data : SubscribeData}
    (happends : AppendsEvent codec l l' data) (hannounces : r.Announces lib data) :
    r.Settled codec lib l' := by
  cases r with
  | repo s =>
    obtain ⟨rev, cid, blocks, hhead, rfl⟩ := hannounces
    intro rev' cid' hhead'
    rw [hhead] at hhead'
    cases hhead'
    exact happends.tellsLast (if_pos rfl)
  | account did active =>
    obtain ⟨status, rfl⟩ := hannounces
    exact happends.tellsLast (if_pos rfl)

variable (codec lib)

/-- The reconciliations are carried out one after the other. -/
def runAll : List (Reconciliation × ReconcileOutcome) → EventLog → EventLog
  | [], l => l
  | (r, o) :: rest, l => runAll rest (r.run codec lib l o).1

/-- Each of them scans the log to its end and succeeds. -/
def Succeed : List (Reconciliation × ReconcileOutcome) → EventLog → Prop
  | [], _ => True
  | (r, o) :: rest, l => o.scan.Completes ∧ (r.run codec lib l o).2 = .ok ∧
      Succeed rest (r.run codec lib l o).1

variable {codec lib}

/-- A reconciliation that succeeds is settled, and what was settled stays so. -/
theorem Reconciliation.run_settles (hcodec : codec.Inverts) (hempty : codec.decode [] = none)
    {r : Reconciliation} (hfits : r.Fits codec lib) {l : EventLog} {o : ReconcileOutcome}
    (ho : o.scan.Completes) (hok : (r.run codec lib l o).2 = .ok) :
    r.Settled codec lib (r.run codec lib l o).1 ∧ ∀ r', r.Agrees lib r' →
      r'.Settled codec lib l → r'.Settled codec lib (r.run codec lib l o).1 := by
  by_cases h : r.Settled codec lib l
  · rw [Reconciliation.run_of_settled ho h]
    exact ⟨h, fun _ _ h' => h'⟩
  · obtain ⟨data, happends, hannounces⟩ :=
      Reconciliation.run_of_not_settled hcodec hempty hfits ho h hok
    exact ⟨Reconciliation.settled_self happends hannounces,
      fun _ hagree h' => Reconciliation.settled_of_announces hagree happends hannounces h'⟩

/-- What is settled stays so through reconciliations that agree with it. -/
theorem runAll_keeps (hcodec : codec.Inverts) (hempty : codec.decode [] = none)
    {r' : Reconciliation} {rs : List (Reconciliation × ReconcileOutcome)} {l : EventLog}
    (hfits : ∀ p ∈ rs, p.1.Fits codec lib) (hagree : ∀ p ∈ rs, p.1.Agrees lib r')
    (hok : Succeed codec lib rs l) (h : r'.Settled codec lib l) :
    r'.Settled codec lib (runAll codec lib rs l) := by
  induction rs generalizing l with
  | nil => exact h
  | cons p rest ih =>
    obtain ⟨ho, hstatus, hrest⟩ := hok
    refine ih (fun q hq => hfits q (List.mem_cons_of_mem _ hq))
      (fun q hq => hagree q (List.mem_cons_of_mem _ hq)) hrest ?_
    exact (Reconciliation.run_settles hcodec hempty (hfits p List.mem_cons_self) ho hstatus).2 r'
      (hagree p List.mem_cons_self) h

/-- After all of them each is settled. -/
theorem runAll_settles (hcodec : codec.Inverts) (hempty : codec.decode [] = none)
    {rs : List (Reconciliation × ReconcileOutcome)} {l : EventLog}
    (hfits : ∀ p ∈ rs, p.1.Fits codec lib) (hagree : ∀ p ∈ rs, ∀ q ∈ rs, p.1.Agrees lib q.1)
    (hok : Succeed codec lib rs l) : ∀ p ∈ rs, p.1.Settled codec lib (runAll codec lib rs l) := by
  induction rs generalizing l with
  | nil => exact fun p hp => nomatch hp
  | cons p rest ih =>
    obtain ⟨ho, hstatus, hrest⟩ := hok
    have hfits' : ∀ q ∈ rest, q.1.Fits codec lib := fun q hq => hfits q (List.mem_cons_of_mem _ hq)
    intro q hq
    rw [runAll]
    rcases List.mem_cons.mp hq with rfl | hq
    · exact runAll_keeps hcodec hempty hfits'
        (fun q' hq' => hagree q' (List.mem_cons_of_mem _ hq') q List.mem_cons_self) hrest
        (Reconciliation.run_settles hcodec hempty (hfits q List.mem_cons_self) ho hstatus).1
    · exact ih hfits' (fun a ha b hb => hagree a (List.mem_cons_of_mem _ ha) b
        (List.mem_cons_of_mem _ hb)) hrest q hq

/-- Reconciliations that are settled append nothing. -/
theorem runAll_of_settled {rs : List (Reconciliation × ReconcileOutcome)} {l : EventLog}
    (hscan : ∀ p ∈ rs, p.2.scan.Completes) (h : ∀ p ∈ rs, p.1.Settled codec lib l) :
    runAll codec lib rs l = l := by
  induction rs with
  | nil => rfl
  | cons p rest ih =>
    rw [runAll, Reconciliation.run_of_settled (hscan p List.mem_cons_self) (h p List.mem_cons_self)]
    exact ih (fun q hq => hscan q (List.mem_cons_of_mem _ hq))
      fun q hq => h q (List.mem_cons_of_mem _ hq)

/-- A reconciliation that scans the log to its end and succeeds appends one event, the one that
is due, exactly if the log did not last tell what is so; only events about the repository or
the account decide on that, a reconciliation succeeds if it has all it needs, one that fails
appends nothing, and once all of them have succeeded, in whatever order, all of them again append
nothing. -/
theorem reconciliations_exact (codec : FrameCodec) (hcodec : codec.Inverts)
    (hempty : codec.decode [] = none) (lib : BlockLibrary) :
    (∀ (r : Reconciliation) (l : EventLog) (o : ReconcileOutcome), r.Fits codec lib →
        o.scan.Completes → (r.run codec lib l o).2 = .ok →
        ((r.run codec lib l o).1 = l ↔ r.Settled codec lib l) ∧
          ((∃ data, AppendsEvent codec l (r.run codec lib l o).1 data ∧ r.Announces lib data) ↔
            ¬ r.Settled codec lib l)) ∧
      (∀ (r : Reconciliation) (l l' : EventLog),
        (∀ row : Int × EventRow, r.Concerns codec row.2 →
          (row ∈ l.events.rows ↔ row ∈ l'.events.rows)) →
        (r.Settled codec lib l ↔ r.Settled codec lib l')) ∧
      (∀ (r : Reconciliation) (l : EventLog) (o : ReconcileOutcome), r.Fits codec lib →
        r.GetsThrough codec lib l o → (r.run codec lib l o).2 = .ok) ∧
      (∀ (r : Reconciliation) (l : EventLog) (o : ReconcileOutcome),
        (r.run codec lib l o).2 ≠ .ok → (r.run codec lib l o).1 = l) ∧
      ∀ (rs again : List (Reconciliation × ReconcileOutcome)) (l : EventLog),
        (∀ p ∈ rs, p.1.Fits codec lib) → (∀ p ∈ rs, ∀ q ∈ rs, p.1.Agrees lib q.1) →
        Succeed codec lib rs l →
        (∀ p ∈ again, p.2.scan.Completes ∧ ∃ q ∈ rs, q.1 = p.1) →
        runAll codec lib again (runAll codec lib rs l) = runAll codec lib rs l := by
  refine ⟨fun r l o hfits ho hok => ?_, fun r l l' h => Reconciliation.settled_congr h,
    fun r l o hfits h => Reconciliation.run_ok hfits h,
    fun r l o hfail => Reconciliation.run_of_fails hcodec hfail,
    fun rs again l hfits hagree hok hagain => ?_⟩
  · by_cases h : r.Settled codec lib l
    · have hsame := Reconciliation.run_of_settled ho h
      refine ⟨iff_of_true hsame h, iff_of_false ?_ (not_not.mpr h)⟩
      rintro ⟨data, ⟨row, hrows, -⟩, -⟩
      rw [hsame] at hrows
      simp at hrows
    · obtain ⟨data, happends, hannounces⟩ :=
        Reconciliation.run_of_not_settled hcodec hempty hfits ho h hok
      refine ⟨iff_of_false (fun hsame => ?_) h, iff_of_true ⟨data, happends, hannounces⟩ h⟩
      obtain ⟨row, hrows, -⟩ := happends
      rw [hsame] at hrows
      simp at hrows
  · refine runAll_of_settled (fun p hp => (hagain p hp).1) fun p hp => ?_
    obtain ⟨q, hq, heq⟩ := (hagain p hp).2
    rw [← heq]
    exact runAll_settles hcodec hempty hfits hagree hok q hq

end Host

/-! ## Two repositories and an account, reconciled twice -/

/-- A repository with a first commit. -/
def firstCommit (did : String) : RepoStore :=
  storeOpen did ⟨[⟨"c1", some "rev1"⟩], some ⟨some "c1", none⟩, []⟩

/-- Everything gets through. -/
def ReconcileOutcome.working : ReconcileOutcome where
  scan := ⟨true, none⟩
  headRead := true
  exported := true
  append := .working

/-- The frames that are due, by their numbers. -/
def startupFrames : FrameCodec :=
  framesOf [(.sync ⟨"did:web:b.test", "rev1", ["c1"]⟩, 1, "2026-01-01T00:00:00.000Z"),
    (.sync ⟨"did:web:a.test", "rev1", ["c1"]⟩, 2, "2026-01-01T00:00:00.000Z"),
    (.account ⟨"did:web:a.test", false, some "deactivated"⟩, 3, "2026-01-01T00:00:00.000Z")]

theorem inverts_startupFrames : startupFrames.Inverts := inverts_framesOf (by decide +kernel)

theorem head_firstCommit (did : String) :
    storeGetHead (postLibrary "a").toBlockLibrary (firstCommit did) = .ok ("rev1", "c1") := rfl

/-- The log in which the second repository has been announced. -/
def announcedLog : EventLog :=
  ((Reconciliation.repo (firstCommit "did:web:b.test")).run startupFrames
    (postLibrary "a").toBlockLibrary .empty .working).1

/-- Two repositories and an account that is deactivated. -/
def startup : List (Reconciliation × ReconcileOutcome) :=
  [(.repo (firstCommit "did:web:a.test"), .working),
    (.repo (firstCommit "did:web:b.test"), .working), (.account "did:web:a.test" false, .working)]

/-- The first repository and the account are announced once, the second not again. -/
theorem reconciliations_exact_startup :
    let lib := (postLibrary "a").toBlockLibrary
    let once := runAll startupFrames lib startup announcedLog
    once.events.rows.map (fun row => (row.1, row.2.did)) =
        [(1, some "did:web:b.test"), (2, some "did:web:a.test"), (3, some "did:web:a.test")] ∧
      runAll startupFrames lib startup once = once := by
  intro lib once
  have hagree : ∀ did did', (Reconciliation.repo (firstCommit did)).Agrees lib
      (.repo (firstCommit did')) := by
    intro did did' _ rev cid rev' cid' h h'
    rw [head_firstCommit] at h h'
    cases h
    cases h'
    rfl
  refine ⟨by decide +kernel, (reconciliations_exact startupFrames inverts_startupFrames
    framesOf_empty lib).2.2.2.2 startup startup announcedLog ?_ ?_ ?_ ?_⟩
  · have hfits : ∀ did, did.utf8ByteSize < 2048 →
        (Reconciliation.repo (firstCommit did)).Fits startupFrames lib := by
      refine fun did hdid => ⟨hdid, fun rev cid hhead => ?_⟩
      cases (head_firstCommit did).symm.trans hhead
      decide
    intro p hp
    simp only [startup, List.mem_cons, List.not_mem_nil, or_false] at hp
    rcases hp with rfl | rfl | rfl
    · exact hfits _ (by decide)
    · exact hfits _ (by decide)
    · exact (by decide : "did:web:a.test".utf8ByteSize < 2048)
  · intro p hp q hq
    simp only [startup, List.mem_cons, List.not_mem_nil, or_false] at hp hq
    rcases hp with rfl | rfl | rfl <;> rcases hq with rfl | rfl | rfl
    all_goals first | exact hagree _ _ | exact trivial | exact fun _ => rfl
  · exact ⟨⟨rfl, rfl⟩, by decide +kernel, ⟨rfl, rfl⟩, by decide +kernel, ⟨rfl, rfl⟩,
      by decide +kernel, trivial⟩
  · intro p hp
    refine ⟨?_, p, hp, rfl⟩
    simp only [startup, List.mem_cons, List.not_mem_nil, or_false] at hp
    rcases hp with rfl | rfl | rfl <;> exact ⟨rfl, rfl⟩

end MetalBear.Sequencer
