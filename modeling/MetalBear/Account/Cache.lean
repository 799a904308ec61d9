import MetalBear.Library.FirstMatch
import MetalBear.Library.Machine

/-!
# The account cache

The bounded cache of open account contexts: a singly linked list of entries, most
recently inserted first, each pinned by a reference count. The list is modelled by
the sequence of its entries; a predecessor pointer is a position in it.

What the code frees and what it merely loses are kept apart. `closed` collects the
entries handed to `entry_close`, `leaked` those that no `next` pointer leads to any
more although they were never closed.
-/

namespace MetalBear.Account

/-- `ACCOUNT_CACHE_DEFAULT_MAX_RESIDENT`. -/
def accountCacheDefaultMaxResident : Nat := 256

/-- One `struct cache_entry`; a context is named by its address. -/
structure CacheEntry where
  did : String
  ctx : Nat
  /-- Acquisitions by `get` not yet released. -/
  refcount : Nat
  /-- Touch stamp; lower means evicted first when idle. -/
  seq : Nat
  deriving DecidableEq, Repr

/-- No live reference: the only entries eviction may choose. -/
def CacheEntry.idle (e : CacheEntry) : Bool := e.refcount == 0

@[simp] theorem CacheEntry.idle_iff (e : CacheEntry) : e.idle = true ↔ e.refcount = 0 := by
  simp [CacheEntry.idle]

/-- `struct metalbear_account_cache`, with the entries that have left its list. -/
structure AccountCache where
  entries : List CacheEntry
  seqCounter : Nat
  idleCount : Nat
  totalCount : Nat
  maxResident : Nat
  evictions : Nat
  hits : Nat
  misses : Nat
  /-- Entries freed by `entry_close`, as they were when they were unlinked. -/
  closed : List CacheEntry
  /-- Entries still allocated, context open, that the list no longer reaches. -/
  leaked : List CacheEntry
  deriving DecidableEq, Repr

/-- `metalbear_account_cache_new`. -/
def accountCacheNew : AccountCache where
  entries := []
  seqCounter := 0
  idleCount := 0
  totalCount := 0
  maxResident := accountCacheDefaultMaxResident
  evictions := 0
  hits := 0
  misses := 0
  closed := []
  leaked := []

/-- The contexts open at this moment: those of every entry that is still allocated. -/
def AccountCache.liveContexts (c : AccountCache) : List (String × Nat) :=
  (c.entries ++ c.leaked).map fun e => (e.did, e.ctx)

/-! ## Eviction -/

/-- The three pointers the eviction scan carries, as positions in the list. -/
structure Scan where
  oldest : Option (Nat × CacheEntry)
  oldestPrev : Option Nat
  prev : Option Nat
  deriving DecidableEq, Repr

/-- Nothing scanned yet: all three pointers are NULL. -/
def Scan.start : Scan := ⟨none, none, none⟩

/-- The test `!oldest || e->seq < oldest->seq`. -/
def Scan.older (s : Scan) (e : CacheEntry) : Bool :=
  match s.oldest with
  | none => true
  | some (_, o) => e.seq < o.seq

/-- The body of the scan at position `i`. A pinned entry is skipped by `continue`,
which also skips the advance of `prev`. -/
def Scan.visit (s : Scan) (i : Nat) (e : CacheEntry) : Scan :=
  if e.refcount ≠ 0 then s
  else if s.older e then ⟨some (i, e), s.prev, some i⟩
  else { s with prev := some i }

/-- The whole scan, from position `i` on. -/
def scanFrom : List CacheEntry → Nat → Scan → Scan
  | [], _, s => s
  | e :: es, i, s => scanFrom es (i + 1) (s.visit i e)

/-- How many entries stay linked in front of the victim: up to the recorded
predecessor, or none when the list head itself is redirected. -/
def keepThrough : Option Nat → Nat
  | none => 0
  | some i => i + 1

/-- Redirect the recorded predecessor (or the head) past position `j`, drop both
counters and close the victim. Whatever stood in between is no longer linked. -/
def AccountCache.unlink (c : AccountCache) (oldestPrev : Option Nat) (j : Nat)
    (oldest : CacheEntry) : AccountCache :=
  { c with
    entries := c.entries.take (keepThrough oldestPrev) ++ c.entries.drop (j + 1)
    idleCount := c.idleCount - 1
    totalCount := c.totalCount - 1
    evictions := c.evictions + 1
    closed := oldest :: c.closed
    leaked := (c.entries.take j).drop (keepThrough oldestPrev) ++ c.leaked }

/-! ### What the scan records -/

/-- A stretch of the list as the scan leaves it behind: entries up to the recorded
predecessor, which is idle, then a gap of pinned entries the scan stepped over. -/
structure Stretch (before gap : List CacheEntry) (mark : Option Nat) : Prop where
  length : before.length = keepThrough mark
  pinned : ∀ e ∈ gap, e.refcount ≠ 0
  last : ∀ p ∈ before.getLast?, p.refcount = 0

/-- What the three pointers say about the entries scanned so far. -/
structure Scan.Describes (es : List CacheEntry) (s : Scan) : Prop where
  prev : ∃ before gap, es = before ++ gap ∧ Stretch before gap s.prev
  oldest : ∀ j o, s.oldest = some (j, o) → ∃ before gap after,
    es = before ++ gap ++ o :: after ∧ (before ++ gap).length = j ∧
      Stretch before gap s.oldestPrev ∧ o.refcount = 0
  least : s.oldest.map Prod.snd = (es.filter CacheEntry.idle).argmin CacheEntry.seq

theorem Scan.describes_start : Scan.start.Describes [] where
  prev := ⟨[], [], rfl, rfl, by simp, by simp⟩
  oldest := by simp [Scan.start]
  least := rfl

/-- The scan's comparison is one turn of the least-element search over idle entries. -/
theorem Scan.argmin_snoc {es : List CacheEntry} {s : Scan} {e : CacheEntry}
    (h : s.oldest.map Prod.snd = (es.filter CacheEntry.idle).argmin CacheEntry.seq)
    (he : e.refcount = 0) :
    ((es ++ [e]).filter CacheEntry.idle).argmin CacheEntry.seq =
      if s.older e then some e else s.oldest.map Prod.snd := by
  have hf : (es ++ [e]).filter CacheEntry.idle = es.filter CacheEntry.idle ++ [e] := by
    simp [List.filter_append, he]
  rw [hf, List.argmin_concat, ← h]
  cases ho : s.oldest with
  | none => simp [Scan.older, ho]
  | some p => simp [Scan.older, ho]

/-- One turn of the scan keeps its description. -/
theorem Scan.Describes.visit {es : List CacheEntry} {s : Scan} (h : s.Describes es)
    (e : CacheEntry) : (s.visit es.length e).Describes (es ++ [e]) := by
  obtain ⟨before, gap, hes, hst⟩ := h.prev
  -- An old victim is still where it was; the entries after it have grown by one.
  have keep : ∀ j o, s.oldest = some (j, o) → ∃ before gap after,
      es ++ [e] = before ++ gap ++ o :: after ∧ (before ++ gap).length = j ∧
        Stretch before gap s.oldestPrev ∧ o.refcount = 0 := by
    intro j o ho
    obtain ⟨b, g, a, hsplit, hlen, hs, hidle⟩ := h.oldest j o ho
    exact ⟨b, g, a ++ [e], by rw [hsplit]; simp, hlen, hs, hidle⟩
  by_cases he : e.refcount = 0
  · have hprev : ∃ before gap, es ++ [e] = before ++ gap ∧
        Stretch before gap (some es.length) :=
      ⟨es ++ [e], [], by simp, by simp [keepThrough], by simp, by simp [he]⟩
    have hleast := Scan.argmin_snoc h.least he
    by_cases ho : s.older e = true
    · have hv : s.visit es.length e = ⟨some (es.length, e), s.prev, some es.length⟩ := by
        simp [Scan.visit, he, ho]
      rw [hv]
      refine ⟨hprev, ?_, by simpa [ho] using hleast.symm⟩
      intro j o hjo
      obtain ⟨rfl, rfl⟩ : es.length = j ∧ e = o := by simpa using hjo
      exact ⟨before, gap, [], by simp [← hes], by rw [← hes], hst, he⟩
    · have hv : s.visit es.length e = { s with prev := some es.length } := by
        simp [Scan.visit, he, ho]
      rw [hv]
      exact ⟨hprev, keep, by simpa [ho] using hleast.symm⟩
  · have hv : s.visit es.length e = s := by simp [Scan.visit, he]
    rw [hv]
    refine ⟨⟨before, gap ++ [e], by rw [hes]; simp, hst.length, ?_, hst.last⟩, keep, ?_⟩
    · intro x hx
      rcases List.mem_append.mp hx with hx | hx
      · exact hst.pinned x hx
      · simpa [List.mem_singleton.mp hx] using he
    · rw [h.least, List.filter_append]
      simp [he]

theorem Scan.Describes.scanFrom {done es : List CacheEntry} {s : Scan} (h : s.Describes done) :
    (scanFrom es done.length s).Describes (done ++ es) := by
  induction es generalizing done s with
  | nil => simpa [Account.scanFrom] using h
  | cons e es ih =>
    have hv := h.visit e
    have := ih hv
    simpa [Account.scanFrom, List.append_assoc] using this

/-- The finished scan describes the whole list. -/
theorem scan_describes (es : List CacheEntry) : (scanFrom es 0 Scan.start).Describes es := by
  have h := @Scan.Describes.scanFrom [] es _ Scan.describes_start
  simpa using h

/-- The victim together with what the unlinking makes of the list around it. -/
theorem scan_split {es : List CacheEntry} {j : Nat} {o : CacheEntry} {k : Option Nat}
    {p : Option Nat} (h : scanFrom es 0 Scan.start = ⟨some (j, o), k, p⟩) :
    ∃ before gap after, es = before ++ gap ++ o :: after ∧
      es.take (keepThrough k) ++ es.drop (j + 1) = before ++ after ∧
      (es.take j).drop (keepThrough k) = gap ∧ Stretch before gap k ∧ o.refcount = 0 := by
  have hd := scan_describes es
  rw [h] at hd
  obtain ⟨before, gap, after, rfl, rfl, hst, hidle⟩ := hd.oldest j o rfl
  have htake : (before ++ gap ++ o :: after).take (keepThrough k) = before := by
    rw [List.append_assoc]
    exact List.take_left' hst.length
  have hdrop : (before ++ gap ++ o :: after).drop ((before ++ gap).length + 1) = after := by
    rw [show before ++ gap ++ o :: after = (before ++ gap ++ [o]) ++ after by simp]
    exact List.drop_left' (by simp [Nat.add_assoc])
  refine ⟨before, gap, after, rfl, by rw [htake, hdrop], ?_, hst, hidle⟩
  rw [List.take_left' rfl]
  exact List.drop_left' hst.length

/-- Every turn of the loop shortens the list, however bad the recorded predecessor. -/
theorem unlink_length_lt {c : AccountCache} {j : Nat} {o : CacheEntry} {k p : Option Nat}
    (h : scanFrom c.entries 0 Scan.start = ⟨some (j, o), k, p⟩) :
    (c.unlink k j o).entries.length < c.entries.length := by
  obtain ⟨before, gap, after, hes, hnew, -, -, -⟩ := scan_split h
  simp only [AccountCache.unlink, hnew]
  rw [hes]
  simp only [List.length_append, List.length_cons]
  omega

/-- `evict_if_over_budget_locked`. -/
def evictIfOverBudgetLocked (c : AccountCache) : AccountCache :=
  if c.maxResident < c.totalCount ∧ c.entries ≠ [] then
    match _h : scanFrom c.entries 0 Scan.start with
    | ⟨some (j, o), k, _⟩ => evictIfOverBudgetLocked (c.unlink k j o)
    | ⟨none, _, _⟩ => c  -- nothing idle to evict
  else c
termination_by c.entries.length
decreasing_by exact unlink_length_lt _h

/-! ## Acquiring and releasing -/

/-- The lookup both critical sections of `get` run: on a hit the entry is pinned and
touched, and its context handed out. -/
def AccountCache.lookup (c : AccountCache) (did : String) : Option (AccountCache × Nat) :=
  match c.entries.find? (·.did == did) with
  | none => none
  | some e => some
    ({ c with
       entries := updateFirst (·.did == did)
         (fun e => { e with refcount := e.refcount + 1, seq := c.seqCounter + 1 }) c.entries
       seqCounter := c.seqCounter + 1
       idleCount := if e.refcount = 0 then c.idleCount - 1 else c.idleCount
       hits := c.hits + 1 }, e.ctx)

/-- The insertion at the end of `get`: a pinned head, then the budget. -/
def AccountCache.insert (c : AccountCache) (did : String) (ctx : Nat) : AccountCache :=
  { c with
    entries := ⟨did, ctx, 1, c.seqCounter + 1⟩ :: c.entries
    seqCounter := c.seqCounter + 1
    totalCount := c.totalCount + 1 }

/-- `metalbear_account_cache_get`. `opened` is the context that the registry lookup and
`metalbear_account_context_open_shared` produced between the two critical sections, if
they succeeded; `allocated` tells whether the entry and its DID could be allocated. -/
def accountCacheGet (c : AccountCache) (did : String) (opened : Option Nat)
    (allocated : Bool) : AccountCache × Option Nat :=
  match c.lookup did with
  | some (c', ctx) => (c', some ctx)
  | none =>
    match opened with
    | none => (c, none)
    | some ctx =>
      -- Re-check: another thread may have won while the lock was free.
      match c.lookup did with
      | some (c', existing) => (c', some existing)
      | none =>
        if allocated then
          let c' := evictIfOverBudgetLocked (c.insert did ctx)
          ({ c' with misses := c'.misses + 1 }, some ctx)
        else (c, none)

/-- What `release` writes before it looks at the budget: the reference is dropped and,
when it was the last, the entry is touched and counted idle. -/
def AccountCache.unpin (c : AccountCache) (e : CacheEntry) : AccountCache :=
  if e.refcount = 1 then
    { c with
      entries := updateFirst (·.ctx == e.ctx)
        (fun e => { e with refcount := e.refcount - 1, seq := c.seqCounter + 1 }) c.entries
      seqCounter := c.seqCounter + 1
      idleCount := c.idleCount + 1 }
  else
    { c with
      entries := updateFirst (·.ctx == e.ctx)
        (fun e => { e with refcount := e.refcount - 1 }) c.entries }

/-- `metalbear_account_cache_release`. -/
def accountCacheRelease (c : AccountCache) (ctx : Nat) : AccountCache :=
  match c.entries.find? (·.ctx == ctx) with
  | none => c
  | some e =>
    if 0 < e.refcount then
      if e.refcount = 1 then evictIfOverBudgetLocked (c.unpin e) else c.unpin e
    else c

/-- `metalbear_account_cache_set_max_resident`. -/
def accountCacheSetMaxResident (c : AccountCache) (maxResident : Nat) : AccountCache :=
  { c with
    maxResident := if maxResident ≠ 0 then maxResident else accountCacheDefaultMaxResident }

/-- The cache together with every thread's `acq_buf`. -/
structure CacheProcess where
  cache : AccountCache
  acquired : Nat → List Nat

/-- A fresh cache; no thread has acquired anything. -/
def CacheProcess.new : CacheProcess := ⟨accountCacheNew, fun _ => []⟩

/-- The calls a run is made of. In `get`, `opened` and `allocated` are the outcomes of
opening the context and of the allocations, and `tracked` tells whether
`account_cache_push_acquired` could grow the thread's buffer. -/
inductive CacheCall where
  | get (thread : Nat) (did : String) (opened : Option Nat) (allocated tracked : Bool)
  | release (ctx : Nat)
  | releaseThreadLocal (thread : Nat)
  | setMaxResident (maxResident : Nat)
  deriving Repr

/-- `account_cache_push_acquired`: out of memory just skips the tracking. -/
def accountCachePushAcquired (acquired : Nat → List Nat) (thread ctx : Nat) (tracked : Bool) :
    Nat → List Nat :=
  if tracked then fun t => if t = thread then acquired t ++ [ctx] else acquired t else acquired

/-- One call. -/
def CacheProcess.step (s : CacheProcess) : CacheCall → CacheProcess
  | .get thread did opened allocated tracked =>
    match accountCacheGet s.cache did opened allocated with
    | (c, some ctx) => ⟨c, accountCachePushAcquired s.acquired thread ctx tracked⟩
    | (c, none) => ⟨c, s.acquired⟩
  | .release ctx => ⟨accountCacheRelease s.cache ctx, s.acquired⟩
  | .releaseThreadLocal thread =>
    ⟨Machine.exec accountCacheRelease s.cache (s.acquired thread),
      fun t => if t = thread then [] else s.acquired t⟩
  | .setMaxResident n => ⟨accountCacheSetMaxResident s.cache n, s.acquired⟩

end MetalBear.Account
