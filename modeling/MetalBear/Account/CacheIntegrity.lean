import MetalBear.Account.Cache

/-!
# Integrity of the account cache

The eviction scan advances `prev` over idle entries only, so the predecessor it
records is the true one exactly when no pinned entry stands between the two. This
file says when that is so for every victim of a call, and that the cache keeps its
integrity over a run if and only if it is so in every step.
-/

namespace MetalBear.Account

open Machine

/-- What the cache is to guarantee in every reachable state. -/
structure Integrity (c : AccountCache) : Prop where
  /-- Only idle entries have ever left the list. -/
  removedIdle : ∀ e ∈ c.closed ++ c.leaked, e.refcount = 0
  /-- Every pinned entry that is still allocated can be reached from `entries`. -/
  pinnedListed : ∀ e ∈ c.entries ++ c.leaked, e.refcount ≠ 0 → e ∈ c.entries
  total : c.totalCount = c.entries.length
  idle : c.idleCount = c.entries.countP CacheEntry.idle
  didNodup : (c.entries.map CacheEntry.did).Nodup
  /-- At most one live context for each DID. -/
  oneLive : (c.liveContexts.map Prod.fst).Nodup

/-- What holds in every state, whatever was unlinked: a leaked entry was pinned, and the
list never holds more entries than are counted. -/
structure Background (c : AccountCache) : Prop where
  leakedPinned : ∀ e ∈ c.leaked, e.refcount ≠ 0
  lengthLe : c.entries.length ≤ c.totalCount

/-- More entries are counted than the list holds: one way in which integrity is lost, and
the one that no later call repairs. -/
def Surplus (c : AccountCache) : Prop := c.entries.length < c.totalCount

/-- The idle entry that was touched longest ago. -/
def leastRecentIdle (es : List CacheEntry) : Option CacheEntry :=
  (es.filter CacheEntry.idle).argmin CacheEntry.seq

/-- No pinned entry stands directly in front of `e`. -/
def NoPinnedBefore (es : List CacheEntry) (e : CacheEntry) : Prop :=
  ∀ p ∈ (es.takeWhile (· ≠ e)).getLast?, p.refcount = 0

/-- Take the `n` least recently used idle entries one after the other: at its turn none
of them has a pinned entry directly in front of it. -/
def VictimsReachable : Nat → List CacheEntry → Prop
  | 0, _ => True
  | n + 1, es => ∀ e ∈ leastRecentIdle es, NoPinnedBefore es e ∧ VictimsReachable n (es.erase e)

/-- The entries that are over budget can be unlinked without losing a pinned one. -/
def BudgetReachable (c : AccountCache) : Prop :=
  VictimsReachable (c.totalCount - c.maxResident) c.entries

/-! ## Leaked entries and lost integrity -/

/-- A cache that keeps its integrity has leaked nothing. -/
theorem Integrity.leaked_eq_nil {c : AccountCache} (h : Integrity c) (hb : Background c) :
    c.leaked = [] := by
  rw [List.eq_nil_iff_forall_not_mem]
  intro e he
  exact hb.leakedPinned e he (h.removedIdle e (List.mem_append_right _ he))

/-- Nothing leaked and distinct DIDs in the list: every clause about live entries holds. -/
theorem Integrity.of_no_leak {c : AccountCache} (hl : c.leaked = [])
    (hclosed : ∀ e ∈ c.closed, e.refcount = 0) (ht : c.totalCount = c.entries.length)
    (hi : c.idleCount = c.entries.countP CacheEntry.idle)
    (hd : (c.entries.map CacheEntry.did).Nodup) : Integrity c where
  removedIdle := by simpa [hl] using hclosed
  pinnedListed := by
    intro e he _
    simpa [hl] using he
  total := ht
  idle := hi
  didNodup := hd
  oneLive := by simpa [AccountCache.liveContexts, hl, Function.comp_def] using hd

/-! ## One eviction -/

/-- The victim is idle and unlinking it keeps the background facts. -/
theorem Background.unlink {c : AccountCache} (h : Background c) (hover : c.maxResident < c.totalCount)
    {j : Nat} {o : CacheEntry} {k p : Option Nat}
    (hs : scanFrom c.entries 0 Scan.start = ⟨some (j, o), k, p⟩) : Background (c.unlink k j o) := by
  obtain ⟨before, gap, after, hes, hnew, hgap, hst, -⟩ := scan_split hs
  have hlen := h.lengthLe
  rw [hes] at hlen
  refine ⟨?_, ?_⟩
  · intro e he
    simp only [AccountCache.unlink, hgap, List.mem_append] at he
    rcases he with he | he
    · exact hst.pinned e he
    · exact h.leakedPinned e he
  · simp only [AccountCache.unlink, hnew, List.length_append, List.length_cons] at hlen ⊢
    omega

/-- A surplus of the count over the list can only grow. -/
theorem Surplus.unlink {c : AccountCache} (h : Surplus c) {j : Nat} {o : CacheEntry}
    {k p : Option Nat} (hs : scanFrom c.entries 0 Scan.start = ⟨some (j, o), k, p⟩) :
    Surplus (c.unlink k j o) := by
  have := unlink_length_lt hs
  simp only [Surplus, AccountCache.unlink] at h this ⊢
  omega

/-- The search for the least recent idle entry finds the scan's victim. -/
theorem leastRecentIdle_eq {es : List CacheEntry} {s : Scan}
    (hs : scanFrom es 0 Scan.start = s) : leastRecentIdle es = s.oldest.map Prod.snd := by
  subst hs
  exact (scan_describes es).least.symm

/-- In a list of distinct DIDs the entries in front of one position are what a search
from the head walks past. -/
theorem takeWhile_front {front after : List CacheEntry} {o : CacheEntry}
    (hd : ((front ++ o :: after).map CacheEntry.did).Nodup) :
    (front ++ o :: after).takeWhile (· ≠ o) = front := by
  have hne : ∀ e ∈ front, e ≠ o := by
    rintro e he rfl
    simp only [List.map_append, List.map_cons, List.nodup_append, List.mem_map,
      List.mem_cons] at hd
    exact hd.2.2 e.did ⟨e, he, rfl⟩ e.did (Or.inl rfl) rfl
  rw [List.takeWhile_append_of_pos (by simpa using hne)]
  simp

/-- The recorded predecessor is the true one exactly when nothing pinned precedes. -/
theorem noPinnedBefore_iff {before gap after : List CacheEntry} {o : CacheEntry}
    {k : Option Nat} (hst : Stretch before gap k)
    (hd : ((before ++ gap ++ o :: after).map CacheEntry.did).Nodup) :
    NoPinnedBefore (before ++ gap ++ o :: after) o ↔ gap = [] := by
  rw [NoPinnedBefore, takeWhile_front hd]
  constructor
  · intro h
    rcases List.eq_nil_or_concat gap with hg | ⟨g, e, hg⟩
    · exact hg
    · subst hg
      exact absurd (h e (by simp)) (hst.pinned e (by simp))
  · rintro rfl
    simpa using hst.last

/-- With nothing in the gap, unlinking removes the victim and nothing else. -/
theorem Integrity.unlink {c : AccountCache} (h : Integrity c) (hb : Background c)
    {j : Nat} {o : CacheEntry} {k p : Option Nat}
    (hs : scanFrom c.entries 0 Scan.start = ⟨some (j, o), k, p⟩)
    (hclean : NoPinnedBefore c.entries o) :
    Integrity (c.unlink k j o) ∧ (c.unlink k j o).entries = c.entries.erase o := by
  obtain ⟨before, gap, after, hes, hnew, hgap, hst, hidle⟩ := scan_split hs
  have hd := h.didNodup
  rw [hes] at hd
  rw [hes, noPinnedBefore_iff hst hd] at hclean
  subst hclean
  have herase : c.entries.erase o = before ++ after := by
    have hnot : o ∉ before := by
      intro hm
      simp only [List.append_nil, List.map_append, List.map_cons, List.nodup_append,
        List.mem_map, List.mem_cons] at hd
      exact hd.2.2 o.did ⟨o, hm, rfl⟩ o.did (Or.inl rfl) rfl
    rw [hes, List.append_nil, List.erase_append_right _ hnot, List.erase_cons_head]
  have htotal := h.total
  have hcount := h.idle
  have hcl : ∀ e ∈ c.closed, e.refcount = 0 := fun e he => h.removedIdle e (by simp [he])
  refine ⟨Integrity.of_no_leak ?_ ?_ ?_ ?_ ?_, by rw [herase]; exact hnew⟩
  · simp only [AccountCache.unlink, hgap, List.nil_append]
    exact h.leaked_eq_nil hb
  · simpa [AccountCache.unlink, hidle] using hcl
  · simp only [AccountCache.unlink, hnew]
    rw [htotal, hes]
    simp
  · simp only [AccountCache.unlink, hnew]
    rw [hcount, hes]
    simp [List.countP_append, hidle]
  · simp only [AccountCache.unlink, hnew]
    exact hd.sublist (List.Sublist.map _ (by simp))

/-! ## The eviction loop -/

theorem evict_of_victim {c : AccountCache} (hover : c.maxResident < c.totalCount ∧ c.entries ≠ [])
    {j : Nat} {o : CacheEntry} {k p : Option Nat}
    (hs : scanFrom c.entries 0 Scan.start = ⟨some (j, o), k, p⟩) :
    evictIfOverBudgetLocked c = evictIfOverBudgetLocked (c.unlink k j o) := by
  rw [evictIfOverBudgetLocked, if_pos hover]
  split <;> simp_all

theorem evict_of_no_victim {c : AccountCache} {k p : Option Nat}
    (hs : scanFrom c.entries 0 Scan.start = ⟨none, k, p⟩) : evictIfOverBudgetLocked c = c := by
  rw [evictIfOverBudgetLocked]
  split
  · split <;> simp_all
  · rfl

theorem evict_of_budget {c : AccountCache}
    (hover : ¬ (c.maxResident < c.totalCount ∧ c.entries ≠ [])) :
    evictIfOverBudgetLocked c = c := by
  rw [evictIfOverBudgetLocked, if_neg hover]

/-- The loop rule: what every unlinking keeps, the loop keeps. -/
theorem evict_rule {P : AccountCache → Prop} {c : AccountCache} (h : P c)
    (hstep : ∀ c j o k p, scanFrom c.entries 0 Scan.start = ⟨some (j, o), k, p⟩ →
      c.maxResident < c.totalCount → P c → P (c.unlink k j o)) :
    P (evictIfOverBudgetLocked c) := by
  induction c using evictIfOverBudgetLocked.induct with
  | case1 c hover j o k p hs ih =>
    rw [evict_of_victim hover hs]
    exact ih (hstep c j o k p hs hover.1 h)
  | case2 c hover k p hs => rwa [evict_of_no_victim hs]
  | case3 c hover => rwa [evict_of_budget hover]

theorem Background.evict {c : AccountCache} (h : Background c) :
    Background (evictIfOverBudgetLocked c) :=
  evict_rule h fun _ _ _ _ _ hs hover hb => hb.unlink hover hs

theorem Surplus.evict {c : AccountCache} (h : Surplus c) :
    Surplus (evictIfOverBudgetLocked c) :=
  evict_rule h fun _ _ _ _ _ hs _ hc => hc.unlink hs

/-- A victim behind a pinned entry takes that entry with it. -/
theorem Integrity.unlink_surplus {c : AccountCache} (h : Integrity c) {j : Nat}
    {o : CacheEntry} {k p : Option Nat}
    (hs : scanFrom c.entries 0 Scan.start = ⟨some (j, o), k, p⟩)
    (hclean : ¬ NoPinnedBefore c.entries o) : Surplus (c.unlink k j o) := by
  obtain ⟨before, gap, after, hes, hnew, -, hst, -⟩ := scan_split hs
  have hd := h.didNodup
  rw [hes] at hd
  rw [hes, noPinnedBefore_iff hst hd] at hclean
  have hpos : 0 < gap.length := List.length_pos_iff.mpr hclean
  have ht := h.total
  rw [hes] at ht
  simp only [Surplus, AccountCache.unlink, hnew, List.length_append, List.length_cons] at ht ⊢
  omega

/-- The loop keeps integrity when every victim can be unlinked cleanly, and otherwise
leaves a surplus. -/
theorem Integrity.evict {c : AccountCache} (h : Integrity c) (hb : Background c) :
    (BudgetReachable c → Integrity (evictIfOverBudgetLocked c)) ∧
      (¬ BudgetReachable c → Surplus (evictIfOverBudgetLocked c)) := by
  induction c using evictIfOverBudgetLocked.induct with
  | case1 c hover j o k p hs ih =>
    rw [evict_of_victim hover hs]
    obtain ⟨n, hn⟩ : ∃ n, c.totalCount - c.maxResident = n + 1 :=
      ⟨c.totalCount - c.maxResident - 1, by omega⟩
    have hleast : leastRecentIdle c.entries = some o := by simp [leastRecentIdle_eq hs]
    have hturn : BudgetReachable c ↔
        NoPinnedBefore c.entries o ∧ VictimsReachable n (c.entries.erase o) := by
      simp [BudgetReachable, hn, VictimsReachable, hleast]
    rw [hturn]
    by_cases hclean : NoPinnedBefore c.entries o
    · obtain ⟨hnext, herase⟩ := h.unlink hb hs hclean
      have hn' : (c.unlink k j o).totalCount - (c.unlink k j o).maxResident = n := by
        simp only [AccountCache.unlink]
        omega
      have := ih hnext (hb.unlink hover.1 hs)
      rw [BudgetReachable, hn', herase] at this
      simpa [hclean] using this
    · simpa [hclean] using (h.unlink_surplus hs hclean).evict
  | case2 c hover k p hs =>
    have hleast : leastRecentIdle c.entries = none := by simp [leastRecentIdle_eq hs]
    rw [evict_of_no_victim hs, BudgetReachable]
    cases c.totalCount - c.maxResident <;> simp [VictimsReachable, hleast, h]
  | case3 c hover =>
    have hzero : c.totalCount - c.maxResident = 0 := by
      have ht := h.total
      by_cases hne : c.entries = []
      · simp [ht, hne]
      · have hle : ¬ c.maxResident < c.totalCount := fun hlt => hover ⟨hlt, hne⟩
        omega
    rw [evict_of_budget hover, BudgetReachable, hzero]
    simp [VictimsReachable, h]

/-! ## Pins, insertions and releases -/

/-- Changing one entry in place, its DID kept and the idle count adjusted to match. -/
theorem Integrity.replace {c c' : AccountCache} {before after : List CacheEntry}
    {e e' : CacheEntry} (h : Integrity c) (hb : Background c)
    (hes : c.entries = before ++ e :: after) (hes' : c'.entries = before ++ e' :: after)
    (hdid : e'.did = e.did) (hleak : c'.leaked = c.leaked) (hclosed : c'.closed = c.closed)
    (htotal : c'.totalCount = c.totalCount)
    (hidle : c'.idleCount + e.idle.toNat = c.idleCount + e'.idle.toNat) : Integrity c' := by
  have ht := h.total
  have hi := h.idle
  have hd := h.didNodup
  rw [hes] at ht hi hd
  refine Integrity.of_no_leak ?_ ?_ ?_ ?_ ?_
  · rw [hleak, h.leaked_eq_nil hb]
  · rw [hclosed]
    exact fun x hx => h.removedIdle x (by simp [hx])
  · rw [htotal, ht, hes']
    simp
  · rw [hes']
    simp only [List.countP_append, List.countP_cons] at hi ⊢
    cases he : e.idle <;> cases he' : e'.idle <;> simp [he, he'] at hi hidle ⊢ <;> omega
  · rw [hes']
    simpa [hdid] using hd

theorem Background.replace {c c' : AccountCache} (h : Background c)
    (hlen : c'.entries.length = c.entries.length) (hleak : c'.leaked = c.leaked)
    (htotal : c'.totalCount = c.totalCount) : Background c' where
  leakedPinned := by rw [hleak]; exact h.leakedPinned
  lengthLe := by rw [hlen, htotal]; exact h.lengthLe

/-- A hit pins an entry in place: nothing leaves the list. -/
theorem lookup_integrity {c c' : AccountCache} {did : String} {ctx : Nat}
    (hl : c.lookup did = some (c', ctx)) (hb : Background c) :
    Background c' ∧ (Integrity c → Integrity c') ∧ (Surplus c → Surplus c') := by
  cases hf : c.entries.find? (·.did == did) with
  | none => simp [AccountCache.lookup, hf] at hl
  | some e =>
    obtain ⟨before, after, hes, hup, -⟩ := updateFirst_of_find? hf
      (fun e => { e with refcount := e.refcount + 1, seq := c.seqCounter + 1 })
    simp only [AccountCache.lookup, hf, Option.some.injEq, Prod.mk.injEq] at hl
    obtain ⟨rfl, rfl⟩ := hl
    refine ⟨hb.replace (by simp) rfl rfl, fun h => ?_, by simp [Surplus]⟩
    refine h.replace hb hes hup rfl rfl rfl rfl ?_
    have hi := h.idle
    rw [hes, List.countP_append, List.countP_cons] at hi
    by_cases he : e.refcount = 0
    · have hidle : e.idle = true := by simpa using he
      simp only [hidle, if_true] at hi
      simp [CacheEntry.idle, he]
      omega
    · simp [CacheEntry.idle, he]

/-- A miss means the DID is not in the list, so the pinned head it leads to keeps the
DIDs distinct. -/
theorem insert_integrity {c : AccountCache} {did : String} (ctx : Nat)
    (hl : c.lookup did = none) (hb : Background c) :
    Background (c.insert did ctx) ∧ (Integrity c → Integrity (c.insert did ctx)) ∧
      (Surplus c → Surplus (c.insert did ctx)) := by
  have hf : c.entries.find? (·.did == did) = none := by
    cases hf : c.entries.find? (·.did == did) with
    | none => rfl
    | some e => simp [AccountCache.lookup, hf] at hl
  have hnew : did ∉ c.entries.map CacheEntry.did := by
    simpa [List.find?_eq_none] using hf
  refine ⟨⟨hb.leakedPinned, ?_⟩, fun h => Integrity.of_no_leak ?_ ?_ ?_ ?_ ?_,
    by simp [Surplus, AccountCache.insert]⟩
  · have := hb.lengthLe
    simp only [AccountCache.insert, List.length_cons]
    omega
  · exact h.leaked_eq_nil hb
  · exact fun x hx => h.removedIdle x (List.mem_append_left _ hx)
  · simp [AccountCache.insert, h.total]
  · simp [AccountCache.insert, h.idle, CacheEntry.idle]
  · simpa [AccountCache.insert] using ⟨by simpa using hnew, h.didNodup⟩

/-- Dropping a reference changes one entry in place. -/
theorem unpin_integrity {c : AccountCache} {ctx : Nat} {e : CacheEntry}
    (hf : c.entries.find? (·.ctx == ctx) = some e) (hpos : 0 < e.refcount)
    (hb : Background c) : Background (c.unpin e) ∧ (Integrity c → Integrity (c.unpin e)) ∧
      (Surplus c → Surplus (c.unpin e)) := by
  obtain rfl : e.ctx = ctx := by simpa using List.find?_some hf
  by_cases h1 : e.refcount = 1
  · obtain ⟨before, after, hes, hup, -⟩ := updateFirst_of_find? hf
      (fun e => { e with refcount := e.refcount - 1, seq := c.seqCounter + 1 })
    simp only [AccountCache.unpin, if_pos h1]
    refine ⟨hb.replace (by simp) rfl rfl, fun h => ?_, by simp [Surplus]⟩
    exact h.replace hb hes hup rfl rfl rfl rfl (by simp [CacheEntry.idle, h1])
  · obtain ⟨before, after, hes, hup, -⟩ := updateFirst_of_find? hf
      (fun e => { e with refcount := e.refcount - 1 })
    simp only [AccountCache.unpin, if_neg h1]
    refine ⟨hb.replace (by simp) rfl rfl, fun h => ?_, by simp [Surplus]⟩
    refine h.replace hb hes hup rfl rfl rfl rfl ?_
    have h0 : (e.refcount == 0) = false := by simp; omega
    have h2 : (e.refcount - 1 == 0) = false := by simp; omega
    simp [CacheEntry.idle, h0, h2]

/-! ## When a call keeps integrity -/

/-- The condition on a release: if it makes the entry idle, the victims of the eviction
that follows can be reached. -/
def ReleaseReachable (c : AccountCache) (ctx : Nat) : Prop :=
  ∀ e ∈ c.entries.find? (·.ctx == ctx), e.refcount = 1 → BudgetReachable (c.unpin e)

/-- The condition on a call: no entry it has to evict stands behind a pinned one. -/
def VictimsBehindNoPin (s : CacheProcess) : CacheCall → Prop
  | .get _ did opened allocated _ =>
    s.cache.lookup did = none → ∀ ctx ∈ opened, allocated = true →
      BudgetReachable (s.cache.insert did ctx)
  | .release ctx => ReleaseReachable s.cache ctx
  | .releaseThreadLocal thread =>
    Steps accountCacheRelease ReleaseReachable s.cache (s.acquired thread)
  | .setMaxResident _ => True

/-- One outcome of a call that ends well or badly: kept integrity or a surplus. -/
structure Outcome (good : Prop) (c c' : AccountCache) : Prop where
  background : Background c'
  keeps : Integrity c → good → Integrity c'
  loses : Integrity c → ¬ good → Surplus c'
  surplus : Surplus c → Surplus c'

/-- A call that evicts nothing. -/
theorem Outcome.of_keeps {good : Prop} {c c' : AccountCache} (hg : good) (hb : Background c')
    (h : Integrity c → Integrity c') (hs : Surplus c → Surplus c') : Outcome good c c' :=
  ⟨hb, fun hi _ => h hi, fun _ hn => absurd hg hn, hs⟩

/-- A call that changes the cache and then runs the eviction loop. -/
theorem Outcome.of_evict {good : Prop} {c c' : AccountCache} (hg : good ↔ BudgetReachable c')
    (hb : Background c') (h : Integrity c → Integrity c') (hs : Surplus c → Surplus c') :
    Outcome good c (evictIfOverBudgetLocked c') where
  background := hb.evict
  keeps hi hgood := ((h hi).evict hb).1 (hg.mp hgood)
  loses hi hbad := ((h hi).evict hb).2 fun hr => hbad (hg.mpr hr)
  surplus hc := (hs hc).evict

theorem get_outcome {c : AccountCache} {did : String} {opened : Option Nat}
    {allocated : Bool} (hb : Background c) :
    Outcome (c.lookup did = none → ∀ ctx ∈ opened, allocated = true →
      BudgetReachable (c.insert did ctx)) c (accountCacheGet c did opened allocated).1 := by
  cases hl : c.lookup did with
  | some r =>
    obtain ⟨c', ctx⟩ := r
    obtain ⟨hb', hi', hs'⟩ := lookup_integrity hl hb
    simp only [accountCacheGet, hl]
    exact Outcome.of_keeps (by simp) hb' hi' hs'
  | none =>
    cases opened with
    | none =>
      simp only [accountCacheGet, hl]
      exact Outcome.of_keeps (by simp) hb id id
    | some ctx =>
      cases allocated with
      | false =>
        simp only [accountCacheGet, hl]
        exact Outcome.of_keeps (by simp) hb id id
      | true =>
        obtain ⟨hb', hi', hs'⟩ := insert_integrity ctx hl hb
        have ho := Outcome.of_evict (Iff.refl (BudgetReachable (c.insert did ctx))) hb' hi' hs'
        simp only [accountCacheGet, hl, if_true]
        -- Counting the miss touches nothing that integrity reads.
        refine ⟨⟨ho.1.1, ho.1.2⟩, fun h hg => ?_, fun h hg => ?_, ho.4⟩
        · have hi := ho.2 h (by simpa using hg)
          exact ⟨hi.1, hi.2, hi.3, hi.4, hi.5, hi.6⟩
        · exact ho.3 h (by simpa using hg)

theorem release_outcome {c : AccountCache} (ctx : Nat) (hb : Background c) :
    Outcome (ReleaseReachable c ctx) c (accountCacheRelease c ctx) := by
  cases hf : c.entries.find? (·.ctx == ctx) with
  | none =>
    simp only [accountCacheRelease, hf]
    exact Outcome.of_keeps (by simp [ReleaseReachable, hf]) hb id id
  | some e =>
    by_cases hpos : 0 < e.refcount
    · obtain ⟨hb', hi', hs'⟩ := unpin_integrity hf hpos hb
      by_cases h1 : e.refcount = 1
      · simp only [accountCacheRelease, hf, if_pos hpos, if_pos h1]
        exact Outcome.of_evict (by simp [ReleaseReachable, hf, h1]) hb' hi' hs'
      · simp only [accountCacheRelease, hf, if_pos hpos, if_neg h1]
        exact Outcome.of_keeps (by simp [ReleaseReachable, hf, h1]) hb' hi' hs'
    · have h1 : e.refcount ≠ 1 := by omega
      simp only [accountCacheRelease, hf, if_neg hpos]
      exact Outcome.of_keeps (by simp [ReleaseReachable, hf, h1]) hb id id

/-- Releases that cannot see whether they lose an entry still keep the background. -/
theorem Background.release {c : AccountCache} (ctx : Nat) (hb : Background c) :
    Background (accountCacheRelease c ctx) := (release_outcome ctx hb).background

/-- A thread's releases, one after the other. -/
theorem releaseThreadLocal_outcome {c : AccountCache} (refs : List Nat) (hb : Background c) :
    Outcome (Steps accountCacheRelease ReleaseReachable c refs) c
      (exec accountCacheRelease c refs) := by
  have step_surplus : ∀ c ctx, Background c → Surplus c → Surplus (accountCacheRelease c ctx) :=
    fun c ctx h => (release_outcome ctx h).surplus
  have both := fun hi : Integrity c => @exec_iff_steps _ _ _ _ _ _ _ refs _ hb hi
    (fun _ ctx h => h.release ctx)
    (fun _ ctx h hi hc => (release_outcome ctx h).keeps hi hc)
    (fun _ ctx h hi hc => (release_outcome ctx h).loses hi hc) step_surplus
  refine ⟨exec_of_invariant hb fun _ ctx h => h.release ctx, fun hi => (both hi).1,
    fun hi => (both hi).2, fun hs => ?_⟩
  have hkeep : ∀ c ctx, Background c ∧ Surplus c →
      Background (accountCacheRelease c ctx) ∧ Surplus (accountCacheRelease c ctx) :=
    fun c ctx h => ⟨h.1.release ctx, step_surplus c ctx h.1 h.2⟩
  exact (exec_of_invariant ⟨hb, hs⟩ hkeep).2

/-! ## Every call, every run -/

theorem call_outcome (s : CacheProcess) (call : CacheCall) (hb : Background s.cache) :
    Outcome (VictimsBehindNoPin s call) s.cache (s.step call).cache := by
  cases call with
  | get thread did opened allocated tracked =>
    have h := @get_outcome _ did opened allocated hb
    simp only [CacheProcess.step]
    split <;> simp_all [VictimsBehindNoPin]
  | release ctx => exact release_outcome ctx hb
  | releaseThreadLocal thread => exact releaseThreadLocal_outcome _ hb
  | setMaxResident n =>
    exact Outcome.of_keeps trivial ⟨hb.1, hb.2⟩
      (fun h => ⟨h.1, h.2, h.3, h.4, h.5, h.6⟩) id

theorem integrity_new : Integrity accountCacheNew ∧ Background accountCacheNew := by
  refine ⟨Integrity.of_no_leak ?_ ?_ ?_ ?_ ?_, ?_, ?_⟩ <;> simp [accountCacheNew]

/-- The cache keeps its integrity in every state of a run if and only if no call of the
run has to evict an entry that stands behind a pinned one. -/
theorem accountCache_integrity_iff (calls : List CacheCall) :
    States CacheProcess.step (fun s => Integrity s.cache) CacheProcess.new calls ↔
      Steps CacheProcess.step VictimsBehindNoPin CacheProcess.new calls := by
  refine states_iff_steps (J := fun s => Background s.cache) integrity_new.2 integrity_new.1
    (fun s call h => (call_outcome s call h).background) fun s call hb hi => ?_
  have ho := call_outcome s call hb
  constructor
  · intro hnext
    by_contra hc
    -- A surplus contradicts the exact count.
    have hs := ho.loses hi hc
    have ht := hnext.total
    simp only [Surplus] at hs
    omega
  · exact ho.keeps hi

/-- With room for one account, opening a second one behind which the first lies idle
evicts the first and drops the second from the list while it is in use. -/
theorem accountCache_drops_pinned_head : ¬ Integrity (exec CacheProcess.step CacheProcess.new
    [.setMaxResident 1, .get 0 "did:a" (some 10) true true, .releaseThreadLocal 0,
      .get 0 "did:b" (some 20) true true]).cache := by
  intro h
  have hleaked : (⟨"did:b", 20, 1, 3⟩ : CacheEntry) ∈ (exec CacheProcess.step CacheProcess.new
      [.setMaxResident 1, .get 0 "did:a" (some 10) true true, .releaseThreadLocal 0,
        .get 0 "did:b" (some 20) true true]).cache.leaked := by
    decide +kernel
  exact absurd (h.removedIdle _ (List.mem_append_right _ hleaked)) (by decide)

end MetalBear.Account
