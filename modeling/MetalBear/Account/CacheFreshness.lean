import MetalBear.Account.CacheIntegrity

/-!
# Cached contexts and the files behind them

`get` runs in two critical sections with the opening of the context between them. The
opening copies the account's handle, head and rev override out of its files one read at a
time, and whatever is written through another context of the account meanwhile is not in
the copy. A write reaches the files and the context one after the other, and the second
half of it may never come. This file takes `get` and the writes apart into those steps,
lets any number of threads run them, and says when the context handed out agrees with the
files.
-/

namespace MetalBear.Account

open Machine

/-! ## Files and contexts -/

/-- What the opening of a context reads of one account. -/
structure AccountFiles where
  /-- `handle` of the account's row in the registry. -/
  handle : String
  /-- `meta.handle` of its `repo.sqlite3`. -/
  repoHandle : String
  /-- `head.cid`. -/
  head : String
  /-- `head.rev_override`. -/
  revOverride : Option String
  /-- `account_state.active` of its `account.sqlite3`. -/
  active : Bool
  deriving DecidableEq, Repr, Inhabited

/-- The part of a `metalbear_account_context` that is held in memory. -/
structure AccountContext where
  did : String
  handle : String
  /-- `repo->handle`. -/
  repoHandle : String
  /-- `repo->head`. -/
  head : String
  /-- `repo->rev_override`. -/
  revOverride : Option String
  /-- Copied when the context is opened and never assigned again. -/
  active : Bool
  deriving DecidableEq, Repr, Inhabited

/-- `metalbear_account_is_active(ctx->account)`: the row is read each time. -/
def AccountContext.isActive (x : AccountContext) (files : String → AccountFiles) : Bool :=
  (files x.did).active

/-- The halves of the writes that go through an open context. -/
inductive AccountWrite where
  /-- `commit_persist` moves the head of the store and drops its rev override. -/
  | moveHead (newHead : String)
  /-- `set_rev_override` sets the one of the store. -/
  | setOverride (rev : String)
  /-- `persist_head`, when it is committed: what the store holds then. -/
  | persistHead
  /-- `UPDATE meta` of `metalbear_repo_store_set_handle`. -/
  | updateMeta (handle : String)
  /-- `store->handle`, which it sets after that. -/
  | setRepoHandle (handle : String)
  /-- `acct->handle`, which the handler of a rename sets last. -/
  | setHandle (handle : String)
  /-- `metalbear_account_set_active`. -/
  | setActive (active : Bool)
  deriving DecidableEq, Repr

/-- What it leaves in the files, if it goes through that context. -/
def AccountWrite.onFiles (x : AccountContext) : AccountWrite → AccountFiles → AccountFiles
  | .persistHead, f => { f with head := x.head, revOverride := x.revOverride }
  | .updateMeta handle, f => { f with repoHandle := handle }
  | .setActive active, f => { f with active := active }
  | _, f => f

/-- What it leaves in the context it goes through. -/
def AccountWrite.onContext : AccountWrite → AccountContext → AccountContext
  | .moveHead newHead, x => { x with head := newHead, revOverride := none }
  | .setOverride rev, x => { x with revOverride := some rev }
  | .setRepoHandle handle, x => { x with repoHandle := handle }
  | .setHandle handle, x => { x with handle := handle }
  | _, x => x

@[simp] theorem AccountWrite.onContext_did (w : AccountWrite) (x : AccountContext) :
    (w.onContext x).did = x.did := by cases w <;> rfl

/-- The halves that have not come yet: what was written on one side of a context and its
files, and not on the other. -/
structure Outstanding where
  handle : Bool
  repoHandle : Bool
  /-- The head, with the rev override. -/
  head : Bool
  deriving DecidableEq, Repr

/-- Nothing is outstanding. -/
def Outstanding.none : Outstanding := ⟨false, false, false⟩

/-- What is outstanding after a half of a write; a handle settles the one that the files
hold. -/
def AccountWrite.leaves (f : AccountFiles) : AccountWrite → Outstanding → Outstanding
  | .moveHead _, p => { p with head := true }
  | .setOverride _, p => { p with head := true }
  | .persistHead, p => { p with head := false }
  | .updateMeta _, p => { p with repoHandle := true }
  | .setRepoHandle handle, p => { p with repoHandle := handle != f.repoHandle }
  | .setHandle handle, p => { p with handle := handle != f.handle }
  | .setActive _, p => p

/-! ## Opening a context -/

/-- How far a `get` that missed has come, with what it has read. -/
inductive OpeningStage where
  | missed (did : String)
  /-- `metalbear_account_registry_find_by_did` answered. -/
  | resolved (did handle : String)
  /-- The repository's `meta` row is loaded. -/
  | metaLoaded (did handle repoHandle : String)
  /-- Its `head` row is loaded. -/
  | headLoaded (did handle repoHandle head : String) (revOverride : Option String)
  | opened (ctx : AccountContext)
  deriving DecidableEq, Repr

/-- The next read. -/
def OpeningStage.advance (files : String → AccountFiles) : OpeningStage → OpeningStage
  | .missed did => .resolved did (files did).handle
  | .resolved did handle => .metaLoaded did handle (files did).repoHandle
  | .metaLoaded did handle repoHandle =>
    .headLoaded did handle repoHandle (files did).head (files did).revOverride
  | .headLoaded did handle repoHandle head revOverride =>
    .opened ⟨did, handle, repoHandle, head, revOverride, (files did).active⟩
  | .opened ctx => .opened ctx

/-- The DID that was asked for. -/
def OpeningStage.did : OpeningStage → String
  | .missed did => did
  | .resolved did _ => did
  | .metaLoaded did _ _ => did
  | .headLoaded did _ _ _ _ => did
  | .opened ctx => ctx.did

/-- The registry's handle is read. -/
def OpeningStage.hasHandle : OpeningStage → Bool
  | .missed _ => false
  | _ => true

/-- The repository's handle is read. -/
def OpeningStage.hasRepoHandle : OpeningStage → Bool
  | .missed _ | .resolved _ _ => false
  | _ => true

/-- The head is read. -/
def OpeningStage.hasHead : OpeningStage → Bool
  | .headLoaded _ _ _ _ _ | .opened _ => true
  | _ => false

/-- The write changes something that the opening has already read. The status is left
out: no later reader takes it from the copy. -/
def AccountWrite.overtakes : AccountWrite → OpeningStage → Bool
  | .updateMeta _ => OpeningStage.hasRepoHandle
  | .persistHead => OpeningStage.hasHead
  | _ => fun _ => false

/-- An opening in progress, with the record of whether a write has overtaken it. -/
structure Opening where
  stage : OpeningStage
  superseded : Bool
  deriving DecidableEq, Repr

/-- The opening as a write to the account of `did` leaves it. -/
def Opening.afterWrite (did : String) (overtakes : OpeningStage → Bool) (o : Opening) : Opening :=
  if o.stage.did = did ∧ overtakes o.stage = true then { o with superseded := true } else o

/-! ## The steps of every thread -/

/-- The cache with the memory and the files behind it. -/
structure CacheHost where
  process : CacheProcess
  files : String → AccountFiles
  contexts : Nat → AccountContext
  /-- The name of the next allocated context; an address in use a second time gets a new one. -/
  nextContext : Nat
  /-- What each thread is opening. -/
  openings : Nat → Option Opening
  /-- What is outstanding of each context. -/
  outstanding : Nat → Outstanding

/-- A fresh cache over files that may hold anything. -/
def CacheHost.new (files : String → AccountFiles) : CacheHost :=
  ⟨CacheProcess.new, files, fun _ => default, 0, fun _ => none, fun _ => .none⟩

inductive CacheEvent where
  /-- The first critical section of `get`. -/
  | lookup (thread : Nat) (did : String) (tracked : Bool)
  /-- The next read of the opening; a failing one ends the `get`. -/
  | read (thread : Nat) (succeeds : Bool)
  /-- The second critical section. -/
  | publish (thread : Nat) (allocated tracked : Bool)
  | write (ctx : Nat) (w : AccountWrite)
  /-- `metalbear_account_registry_update_handle`. -/
  | updateRegistry (did handle : String)
  | release (ctx : Nat)
  | releaseThreadLocal (thread : Nat)
  | setMaxResident (maxResident : Nat)
  deriving Repr

/-- The context is open and somebody holds it. -/
def CacheHost.pinned (s : CacheHost) (ctx : Nat) : Bool :=
  (s.process.cache.entries ++ s.process.cache.leaked).any fun e => e.ctx == ctx && !e.idle

/-- What an event does to the cache itself. -/
def CacheHost.call (s : CacheHost) : CacheEvent → Option CacheCall
  | .lookup thread did tracked =>
    match s.openings thread with
    | none => some (.get thread did none false tracked)
    | some _ => none
  | .publish thread allocated tracked =>
    match s.openings thread with
    | some ⟨.opened x, _⟩ => some (.get thread x.did (some s.nextContext) allocated tracked)
    | _ => none
  | .release ctx => some (.release ctx)
  | .releaseThreadLocal thread => some (.releaseThreadLocal thread)
  | .setMaxResident n => some (.setMaxResident n)
  | _ => none

/-- The cache after an event. -/
def CacheHost.nextProcess (s : CacheHost) (ev : CacheEvent) : CacheProcess :=
  match s.call ev with
  | some call => s.process.step call
  | none => s.process

/-- One event. -/
def CacheHost.step (s : CacheHost) (ev : CacheEvent) : CacheHost :=
  match ev with
  | .lookup thread did _ =>
    match s.openings thread, s.process.cache.lookup did with
    | none, none =>
      { s with
        process := s.nextProcess ev
        openings := Function.update s.openings thread (some ⟨.missed did, false⟩) }
    | _, _ => { s with process := s.nextProcess ev }
  | .read thread succeeds =>
    match s.openings thread with
    | none => s
    | some o =>
      if succeeds then
        { s with
          openings := Function.update s.openings thread
            (some { o with stage := o.stage.advance s.files }) }
      else { s with openings := Function.update s.openings thread none }
  | .publish thread _ _ =>
    match s.openings thread with
    | some ⟨.opened x, _⟩ =>
      { s with
        process := s.nextProcess ev
        contexts := Function.update s.contexts s.nextContext x
        nextContext := s.nextContext + 1
        openings := Function.update s.openings thread none
        outstanding := Function.update s.outstanding s.nextContext .none }
    | _ => s
  | .write ctx w =>
    if s.pinned ctx then
      let x := s.contexts ctx
      { s with
        files := Function.update s.files x.did (w.onFiles x (s.files x.did))
        contexts := Function.update s.contexts ctx (w.onContext x)
        openings := fun thread => (s.openings thread).map (Opening.afterWrite x.did w.overtakes)
        outstanding := Function.update s.outstanding ctx
          (w.leaves (s.files x.did) (s.outstanding ctx)) }
    else s
  | .updateRegistry did handle =>
    { s with
      files := Function.update s.files did { s.files did with handle }
      openings := fun thread =>
        (s.openings thread).map (Opening.afterWrite did OpeningStage.hasHandle)
      outstanding := fun ctx =>
        if (s.contexts ctx).did = did then { s.outstanding ctx with handle := true }
        else s.outstanding ctx }
  | .release _ | .releaseThreadLocal _ | .setMaxResident _ => { s with process := s.nextProcess ev }

/-- The DID and the context with which an event's `get` returns. -/
def CacheHost.returned (s : CacheHost) (ev : CacheEvent) : Option (String × Nat) :=
  match s.call ev with
  | some (.get _ did opened allocated _) =>
    (accountCacheGet s.process.cache did opened allocated).2.map fun ctx => (did, ctx)
  | _ => none

/-! ## What is owed -/

/-- A context says what the files of the account say. The last clause is about the copy of
the status; `isActive`, which every handler asks instead, is the one before it. -/
structure Reflects (withCopy : Bool) (files : String → AccountFiles) (did : String)
    (x : AccountContext) : Prop where
  forDid : x.did = did
  handle : x.handle = (files did).handle
  repoHandle : x.repoHandle = (files did).repoHandle
  head : x.head = (files did).head
  revOverride : x.revOverride = (files did).revOverride
  isActive : x.isActive files = (files did).active
  active : withCopy = true → x.active = (files did).active

/-- A context handed out reflects the files at that moment, and a commit builds on the head
of the files. -/
def UpToDate (withCopy : Bool) (s : CacheHost) (ev : CacheEvent) : Prop :=
  (∀ p ∈ s.returned ev, Reflects withCopy (s.step ev).files p.1 ((s.step ev).contexts p.2)) ∧
    ∀ ctx newHead, ev = .write ctx (.moveHead newHead) → s.pinned ctx = true →
      (s.contexts ctx).head = (s.files (s.contexts ctx).did).head ∧
        (s.contexts ctx).revOverride = (s.files (s.contexts ctx).did).revOverride

/-- A context that a write has overtaken while it was opened is not inserted: another one
of the account is listed, and the `get` adopts that. -/
def NotOvertaken (s : CacheHost) : CacheEvent → Prop
  | .publish thread allocated _ => ∀ x, s.openings thread = some ⟨.opened x, true⟩ →
      allocated = true → (s.process.cache.lookup x.did).isSome = true
  | _ => True

/-- The DID and the context of every listed entry. -/
def AccountCache.listed (c : AccountCache) : List (String × Nat) :=
  c.entries.map fun e => (e.did, e.ctx)

/-- Nothing is outstanding of the listed context of the account. -/
def CacheHost.Settled (s : CacheHost) (did : String) : Prop :=
  ∀ p ∈ s.process.cache.listed, p.1 = did → s.outstanding p.2 = .none

instance (s : CacheHost) (did : String) : Decidable (s.Settled did) :=
  inferInstanceAs (Decidable (∀ p ∈ s.process.cache.listed, p.1 = did → s.outstanding p.2 = .none))

/-- No `get` comes between the halves of a write to the account, and no commit after one
that has not reached the files. -/
def WritesWhole (s : CacheHost) : CacheEvent → Prop
  | .lookup _ did _ => s.Settled did
  | .publish thread _ _ => ∀ x superseded, s.openings thread = some ⟨.opened x, superseded⟩ →
      s.Settled x.did
  | .write ctx (.moveHead _) => s.pinned ctx = true → (s.outstanding ctx).head = false
  | _ => True

/-- The condition on an event: no overtaken context is inserted, no write is seen by halves,
and the eviction unlinks no pinned entry. -/
def KeepsFresh (s : CacheHost) (ev : CacheEvent) : Prop :=
  NotOvertaken s ev ∧ WritesWhole s ev ∧ ∀ call ∈ s.call ev, VictimsBehindNoPin s.process call

/-- The account's status is not changed. -/
def KeepsStatus (s : CacheHost) : CacheEvent → Prop
  | .write ctx (.setActive active) =>
    s.pinned ctx = true → active = (s.files (s.contexts ctx).did).active
  | _ => True

/-! ## Which contexts a call leaves in the list -/

theorem AccountCache.listed_evict (c : AccountCache) :
    (evictIfOverBudgetLocked c).listed ⊆ c.listed := by
  refine evict_rule (P := fun c' => c'.listed ⊆ c.listed) (List.Subset.refl _) ?_
  intro c' j o k p hs _ hsub
  refine List.Subset.trans (List.map_subset _ ?_) hsub
  simp only [AccountCache.unlink]
  exact List.append_subset.mpr ⟨List.take_subset _ _, List.drop_subset _ _⟩

theorem AccountCache.listed_lookup {c c' : AccountCache} {did : String} {ctx : Nat}
    (h : c.lookup did = some (c', ctx)) : c'.listed = c.listed ∧ (did, ctx) ∈ c.listed := by
  cases hf : c.entries.find? (·.did == did) with
  | none => simp [AccountCache.lookup, hf] at h
  | some e =>
    simp only [AccountCache.lookup, hf, Option.some.injEq, Prod.mk.injEq] at h
    obtain ⟨rfl, rfl⟩ := h
    obtain rfl : e.did = did := by simpa using List.find?_some hf
    exact ⟨map_updateFirst _ fun _ => rfl, List.mem_map_of_mem (List.mem_of_find?_eq_some hf)⟩

theorem AccountCache.listed_unpin (c : AccountCache) (e : CacheEntry) :
    (c.unpin e).listed = c.listed := by
  by_cases h : e.refcount = 1
  · rw [AccountCache.unpin, if_pos h]
    exact map_updateFirst _ fun _ => rfl
  · rw [AccountCache.unpin, if_neg h]
    exact map_updateFirst _ fun _ => rfl

theorem listed_release (c : AccountCache) (ctx : Nat) :
    (accountCacheRelease c ctx).listed ⊆ c.listed := by
  rw [accountCacheRelease]
  cases c.entries.find? (·.ctx == ctx) with
  | none => exact List.Subset.refl _
  | some e =>
    dsimp only
    split_ifs
    · rw [← c.listed_unpin e]
      exact AccountCache.listed_evict _
    · rw [c.listed_unpin e]
      exact List.Subset.refl _
    · exact List.Subset.refl _

/-- A `get` lists nothing new, or it lists the context that it opened for a DID that was
not listed. What it returns was listed before or is that context. -/
theorem accountCacheGet_listed (c : AccountCache) (did : String) (opened : Option Nat)
    (allocated : Bool) {r : AccountCache × Option Nat}
    (h : accountCacheGet c did opened allocated = r) :
    (r.1.listed ⊆ c.listed ∧ ∀ ctx ∈ r.2, (did, ctx) ∈ c.listed) ∨
      (c.lookup did = none ∧ allocated = true ∧ ∃ ctx ∈ opened,
        r.2 = some ctx ∧ r.1.listed ⊆ (did, ctx) :: c.listed) := by
  subst h
  cases hl : c.lookup did with
  | some hit =>
    obtain ⟨c', ctx⟩ := hit
    obtain ⟨heq, hmem⟩ := AccountCache.listed_lookup hl
    simp only [accountCacheGet, hl]
    refine Or.inl ⟨?_, by simpa using hmem⟩
    rw [heq]
    exact List.Subset.refl _
  | none =>
    cases opened with
    | none =>
      simp only [accountCacheGet, hl]
      exact Or.inl ⟨List.Subset.refl _, by simp⟩
    | some ctx =>
      cases allocated with
      | false =>
        simp only [accountCacheGet, hl]
        exact Or.inl ⟨List.Subset.refl _, by simp⟩
      | true =>
        simp only [accountCacheGet, hl, if_true]
        exact Or.inr ⟨trivial, trivial, ctx, rfl, rfl, AccountCache.listed_evict _⟩

/-- A thread's releases list nothing new. -/
theorem listed_releases (c : AccountCache) (refs : List Nat) :
    (exec accountCacheRelease c refs).listed ⊆ c.listed :=
  exec_of_invariant (P := fun c' => c'.listed ⊆ c.listed) (List.Subset.refl _)
    fun c' ctx h => List.Subset.trans (listed_release c' ctx) h

/-- Only a `get` can list anything new. -/
theorem CacheProcess.listed_step {p : CacheProcess} {call : CacheCall}
    (h : ∀ thread did opened allocated tracked,
      call ≠ .get thread did opened allocated tracked) :
    (p.step call).cache.listed ⊆ p.cache.listed := by
  cases call with
  | get thread did opened allocated tracked => exact absurd rfl (h _ _ _ _ _)
  | release ctx => exact listed_release _ ctx
  | releaseThreadLocal thread => exact listed_releases _ _
  | setMaxResident n => exact List.Subset.refl _

theorem CacheProcess.cache_get (p : CacheProcess) (thread : Nat) (did : String)
    (opened : Option Nat) (allocated tracked : Bool) :
    (p.step (.get thread did opened allocated tracked)).cache =
      (accountCacheGet p.cache did opened allocated).1 := by
  simp only [CacheProcess.step]
  split <;> simp_all

/-! ## The invariant -/

/-- A context says what the files of the account say, where nothing is outstanding. -/
structure Shows (p : Outstanding) (withCopy : Bool) (files : String → AccountFiles)
    (did : String) (x : AccountContext) : Prop where
  forDid : x.did = did
  handle : p.handle = false → x.handle = (files did).handle
  repoHandle : p.repoHandle = false → x.repoHandle = (files did).repoHandle
  head : p.head = false → x.head = (files did).head ∧ x.revOverride = (files did).revOverride
  active : withCopy = true → x.active = (files did).active

theorem Shows.reflects {withCopy : Bool} {files : String → AccountFiles} {did : String}
    {x : AccountContext} (h : Shows .none withCopy files did x) : Reflects withCopy files did x where
  forDid := h.forDid
  handle := h.handle rfl
  repoHandle := h.repoHandle rfl
  head := (h.head rfl).1
  revOverride := (h.head rfl).2
  isActive := by rw [AccountContext.isActive, h.forDid]
  active := h.active

theorem Reflects.shows {withCopy : Bool} {files : String → AccountFiles} {did : String}
    {x : AccountContext} (h : Reflects withCopy files did x) (p : Outstanding) :
    Shows p withCopy files did x :=
  ⟨h.forDid, fun _ => h.handle, fun _ => h.repoHandle, fun _ => ⟨h.head, h.revOverride⟩, h.active⟩

/-- What an opening has read so far is what the files say. -/
def OpeningStage.Agrees (withCopy : Bool) (files : String → AccountFiles) : OpeningStage → Prop
  | .missed _ => True
  | .resolved did handle => handle = (files did).handle
  | .metaLoaded did handle repoHandle =>
    handle = (files did).handle ∧ repoHandle = (files did).repoHandle
  | .headLoaded did handle repoHandle head revOverride =>
    handle = (files did).handle ∧ repoHandle = (files did).repoHandle ∧
      head = (files did).head ∧ revOverride = (files did).revOverride
  | .opened x => Reflects withCopy files x.did x

/-- Listed contexts say what the files say, but for what is outstanding, and so does every
opening that no write has overtaken; the list itself is in order. -/
structure Coherent (withCopy : Bool) (s : CacheHost) : Prop where
  background : Background s.process.cache
  integrity : Integrity s.process.cache
  named : ∀ p ∈ s.process.cache.listed, p.2 < s.nextContext
  listed : ∀ p ∈ s.process.cache.listed,
    Shows (s.outstanding p.2) withCopy s.files p.1 (s.contexts p.2)
  openings : ∀ thread o, s.openings thread = some o → o.superseded = false →
    o.stage.Agrees withCopy s.files

theorem coherent_new (withCopy : Bool) (files : String → AccountFiles) :
    Coherent withCopy (CacheHost.new files) where
  background := integrity_new.2
  integrity := integrity_new.1
  named := by simp [CacheHost.new, CacheProcess.new, accountCacheNew, AccountCache.listed]
  listed := by simp [CacheHost.new, CacheProcess.new, accountCacheNew, AccountCache.listed]
  openings := by simp [CacheHost.new]

/-- The next read copies what the files say at that moment. -/
theorem OpeningStage.Agrees.advance {withCopy : Bool} {files : String → AccountFiles}
    {stage : OpeningStage} (h : stage.Agrees withCopy files) :
    (stage.advance files).Agrees withCopy files := by
  cases stage with
  | missed did => rfl
  | resolved did handle => exact ⟨h, rfl⟩
  | metaLoaded did handle repoHandle => exact ⟨h.1, h.2, rfl, rfl⟩
  | headLoaded did handle repoHandle head revOverride =>
    exact ⟨rfl, h.1, h.2.1, h.2.2.1, h.2.2.2, rfl, fun _ => rfl⟩
  | opened x => exact h

/-- The status that is written is the one the files hold, when the copy of it counts. -/
def AccountWrite.keepsStatus (withCopy : Bool) (f : AccountFiles) : AccountWrite → Prop
  | .setActive active => withCopy = true → active = f.active
  | _ => True

/-- A write to one account does not touch what is known of another. -/
theorem Shows.write_other {p : Outstanding} {withCopy : Bool} {files : String → AccountFiles}
    {did did' : String} {x : AccountContext} (h : Shows p withCopy files did x)
    (hne : did ≠ did') (f : AccountFiles) :
    Shows p withCopy (Function.update files did' f) did x := by
  obtain ⟨hdid, h1, h2, h3, h4⟩ := h
  have hfiles : Function.update files did' f did = files did := Function.update_of_ne hne ..
  refine ⟨hdid, ?_, ?_, ?_, ?_⟩
  all_goals
    rw [hfiles]
    assumption

/-- The context that is written through says the same as the files, but for what the write
leaves outstanding. -/
theorem Shows.write_self {p : Outstanding} {withCopy : Bool} {files : String → AccountFiles}
    {did : String} {x : AccountContext} {w : AccountWrite} (h : Shows p withCopy files did x)
    (hw : w.keepsStatus withCopy (files did)) :
    Shows (w.leaves (files did) p) withCopy
      (Function.update files did (w.onFiles x (files did))) did (w.onContext x) := by
  obtain ⟨rfl, h1, h2, h3, h4⟩ := h
  cases w <;> constructor <;>
    simp_all [AccountWrite.onContext, AccountWrite.onFiles, AccountWrite.leaves,
      AccountWrite.keepsStatus]

/-- A new handle in the registry is outstanding. -/
theorem Shows.registered {p : Outstanding} {withCopy : Bool} {files : String → AccountFiles}
    {did : String} {x : AccountContext} (h : Shows p withCopy files did x) (handle : String) :
    Shows { p with handle := true } withCopy
      (Function.update files did { files did with handle }) did x := by
  obtain ⟨rfl, h1, h2, h3, h4⟩ := h
  constructor <;> simp_all

/-- An opening agrees with any files that say the same of what it has read. -/
theorem OpeningStage.Agrees.of_eq {withCopy : Bool} {files files' : String → AccountFiles}
    {stage : OpeningStage} (h : stage.Agrees withCopy files)
    (hhandle : stage.hasHandle = true → (files' stage.did).handle = (files stage.did).handle)
    (hrepo : stage.hasRepoHandle = true →
      (files' stage.did).repoHandle = (files stage.did).repoHandle)
    (hhead : stage.hasHead = true → (files' stage.did).head = (files stage.did).head ∧
      (files' stage.did).revOverride = (files stage.did).revOverride)
    (hactive : withCopy = true → (files' stage.did).active = (files stage.did).active) :
    stage.Agrees withCopy files' := by
  cases stage with
  | missed did => trivial
  | resolved did handle => exact h.trans (hhandle rfl).symm
  | metaLoaded did handle repoHandle =>
    exact ⟨h.1.trans (hhandle rfl).symm, h.2.trans (hrepo rfl).symm⟩
  | headLoaded did handle repoHandle head revOverride =>
    exact ⟨h.1.trans (hhandle rfl).symm, h.2.1.trans (hrepo rfl).symm,
      h.2.2.1.trans (hhead rfl).1.symm, h.2.2.2.trans (hhead rfl).2.symm⟩
  | opened x =>
    exact ⟨rfl, h.handle.trans (hhandle rfl).symm, h.repoHandle.trans (hrepo rfl).symm,
      h.head.trans (hhead rfl).1.symm, h.revOverride.trans (hhead rfl).2.symm, rfl,
      fun hc => (h.active hc).trans (hactive hc).symm⟩

/-- An opening of another account, or one that has read nothing the write changes, still
agrees with the files. -/
theorem OpeningStage.Agrees.write {withCopy : Bool} {files : String → AccountFiles}
    {did : String} {stage : OpeningStage} {w : AccountWrite} (x : AccountContext)
    (h : stage.Agrees withCopy files) (hw : w.keepsStatus withCopy (files did))
    (hfree : ¬ (stage.did = did ∧ w.overtakes stage = true)) :
    stage.Agrees withCopy (Function.update files did (w.onFiles x (files did))) := by
  by_cases hd : stage.did = did
  · have hnot : w.overtakes stage = false := by simpa [hd] using hfree
    subst hd
    apply h.of_eq <;> rw [Function.update_self] <;> intro hread
    · cases w <;> rfl
    · cases w with
      | updateMeta handle => exact absurd (hread.symm.trans hnot) (by decide)
      | _ => rfl
    · cases w with
      | persistHead => exact absurd (hread.symm.trans hnot) (by decide)
      | _ => exact ⟨rfl, rfl⟩
    · cases w with
      | setActive active => exact hw hread
      | _ => rfl
  · apply h.of_eq <;> rw [Function.update_of_ne hd] <;> intro _
    · rfl
    · rfl
    · exact ⟨rfl, rfl⟩
    · rfl

/-- Nor does a new handle in the registry touch an opening that has not read the old one. -/
theorem OpeningStage.Agrees.registered {withCopy : Bool} {files : String → AccountFiles}
    {did : String} {stage : OpeningStage} (handle : String) (h : stage.Agrees withCopy files)
    (hfree : ¬ (stage.did = did ∧ stage.hasHandle = true)) :
    stage.Agrees withCopy (Function.update files did { files did with handle }) := by
  by_cases hd : stage.did = did
  · subst hd
    apply h.of_eq <;> rw [Function.update_self] <;> intro hread
    · exact absurd ⟨rfl, hread⟩ hfree
    · rfl
    · exact ⟨rfl, rfl⟩
    · rfl
  · apply h.of_eq <;> rw [Function.update_of_ne hd] <;> intro _
    · rfl
    · rfl
    · exact ⟨rfl, rfl⟩
    · rfl

/-! ## One event -/

/-- The cache's own calls keep its order. -/
theorem Coherent.ordered {withCopy : Bool} {s : CacheHost} (h : Coherent withCopy s)
    {call : CacheCall} (hv : VictimsBehindNoPin s.process call) :
    Background (s.process.step call).cache ∧ Integrity (s.process.step call).cache :=
  have ho := call_outcome s.process call h.background
  ⟨ho.background, ho.keeps h.integrity hv⟩

/-- A list that holds nothing new is as coherent as it was. -/
theorem Coherent.relist {withCopy : Bool} {s : CacheHost} (h : Coherent withCopy s)
    {p : CacheProcess} (hp : Background p.cache ∧ Integrity p.cache)
    (hsub : p.cache.listed ⊆ s.process.cache.listed) :
    Coherent withCopy { s with process := p } where
  background := hp.1
  integrity := hp.2
  named := fun q hq => h.named q (hsub hq)
  listed := fun q hq => h.listed q (hsub hq)
  openings := h.openings

/-- A thread may start, go on or give up opening. -/
theorem Coherent.reopen {withCopy : Bool} {s : CacheHost} (h : Coherent withCopy s)
    (thread : Nat) (o : Option Opening)
    (ho : ∀ o' ∈ o, o'.superseded = false → o'.stage.Agrees withCopy s.files) :
    Coherent withCopy { s with openings := Function.update s.openings thread o } := by
  refine ⟨h.background, h.integrity, h.named, h.listed, fun t o' hto hs => ?_⟩
  by_cases ht : t = thread
  · subst ht
    exact ho o' (by simpa using hto) hs
  · exact h.openings t o' (by simpa [Function.update_of_ne ht] using hto) hs

/-- A listed context reflects the files when nothing of it is outstanding. -/
theorem Coherent.listed_reflects {withCopy : Bool} {s : CacheHost} (h : Coherent withCopy s)
    {did : String} {ctx : Nat} (hmem : (did, ctx) ∈ s.process.cache.listed)
    (hsettled : s.outstanding ctx = .none) : Reflects withCopy s.files did (s.contexts ctx) := by
  have hshows := h.listed (did, ctx) hmem
  rw [hsettled] at hshows
  exact hshows.reflects

/-- What a `get` returns that opened nothing is listed, and reflects the files. -/
theorem Coherent.lookup {withCopy : Bool} {s : CacheHost} (h : Coherent withCopy s)
    {thread : Nat} {did : String} {tracked : Bool}
    (hk : KeepsFresh s (.lookup thread did tracked)) :
    UpToDate withCopy s (.lookup thread did tracked) ∧
      Coherent withCopy (s.step (.lookup thread did tracked)) := by
  cases ho : s.openings thread with
  | some o =>
    have hcall : s.call (.lookup thread did tracked) = none := by simp only [CacheHost.call, ho]
    have hstep : s.step (.lookup thread did tracked) = s := by
      simp only [CacheHost.step, ho, CacheHost.nextProcess, hcall]
    rw [hstep]
    exact ⟨⟨by simp [CacheHost.returned, hcall], by simp⟩, h⟩
  | none =>
    have hcall : s.call (.lookup thread did tracked) =
        some (.get thread did none false tracked) := by simp only [CacheHost.call, ho]
    have hnext : s.nextProcess (.lookup thread did tracked) =
        s.process.step (.get thread did none false tracked) := by
      simp only [CacheHost.nextProcess, hcall]
    obtain ⟨hsub, hret⟩ : (accountCacheGet s.process.cache did none false).1.listed ⊆
        s.process.cache.listed ∧ ∀ ctx ∈ (accountCacheGet s.process.cache did none false).2,
          (did, ctx) ∈ s.process.cache.listed := by
      rcases accountCacheGet_listed s.process.cache did none false rfl with hl | ⟨-, -, ctx, hctx, -⟩
      · exact hl
      · simp at hctx
    have hrel := h.relist (h.ordered (hk.2.2 _ hcall)) (by
      rw [CacheProcess.cache_get]
      exact hsub)
    have hmem : ∀ q ∈ s.returned (.lookup thread did tracked),
        Reflects withCopy s.files q.1 (s.contexts q.2) := by
      intro q hq
      simp only [CacheHost.returned, hcall, Option.mem_def, Option.map_eq_some_iff] at hq
      obtain ⟨ctx, hctx, rfl⟩ := hq
      exact h.listed_reflects (hret ctx hctx) (hk.2.1 _ (hret ctx hctx) rfl)
    cases hl : s.process.cache.lookup did with
    | none =>
      have hstep : s.step (.lookup thread did tracked) =
          { s with
            process := s.process.step (.get thread did none false tracked)
            openings := Function.update s.openings thread (some ⟨.missed did, false⟩) } := by
        simp only [CacheHost.step, ho, hl, hnext]
      rw [UpToDate, hstep]
      refine ⟨⟨hmem, by simp⟩, ?_⟩
      refine hrel.reopen thread _ fun o' ho' _ => ?_
      obtain rfl := Option.mem_some_iff.mp ho'
      trivial
    | some hit =>
      have hstep : s.step (.lookup thread did tracked) =
          { s with process := s.process.step (.get thread did none false tracked) } := by
        simp only [CacheHost.step, ho, hl, hnext]
      rw [UpToDate, hstep]
      exact ⟨⟨hmem, by simp⟩, hrel⟩

/-- A publication without an opened context does nothing. -/
theorem CacheHost.publish_idle {s : CacheHost} {thread : Nat} (allocated tracked : Bool)
    (ho : ∀ x sup, s.openings thread ≠ some ⟨.opened x, sup⟩) :
    s.call (.publish thread allocated tracked) = none ∧
      s.step (.publish thread allocated tracked) = s := by
  cases h : s.openings thread with
  | none => simp only [CacheHost.call, CacheHost.step, h, and_self]
  | some o =>
    obtain ⟨stage, sup⟩ := o
    cases stage with
    | opened x => exact absurd h (ho x sup)
    | _ => simp only [CacheHost.call, CacheHost.step, h, and_self]

/-- A context that is inserted has not been overtaken, so it reflects the files. -/
theorem Coherent.publish {withCopy : Bool} {s : CacheHost} (h : Coherent withCopy s)
    {thread : Nat} {allocated tracked : Bool}
    (hk : KeepsFresh s (.publish thread allocated tracked)) :
    UpToDate withCopy s (.publish thread allocated tracked) ∧
      Coherent withCopy (s.step (.publish thread allocated tracked)) := by
  by_cases hopen : ∃ x sup, s.openings thread = some ⟨.opened x, sup⟩
  swap
  · obtain ⟨hcall, hstep⟩ := CacheHost.publish_idle allocated tracked
      fun x sup hx => hopen ⟨x, sup, hx⟩
    rw [hstep]
    exact ⟨⟨by simp [CacheHost.returned, hcall], by simp⟩, h⟩
  obtain ⟨x, sup, ho⟩ := hopen
  have hcall : s.call (.publish thread allocated tracked) =
      some (.get thread x.did (some s.nextContext) allocated tracked) := by
    simp only [CacheHost.call, ho]
  have hstep : s.step (.publish thread allocated tracked) =
      { s with
        process := s.process.step (.get thread x.did (some s.nextContext) allocated tracked)
        contexts := Function.update s.contexts s.nextContext x
        nextContext := s.nextContext + 1
        openings := Function.update s.openings thread none
        outstanding := Function.update s.outstanding s.nextContext .none } := by
    simp only [CacheHost.step, ho, CacheHost.nextProcess, hcall]
  have hord := h.ordered (hk.2.2 _ hcall)
  have hcache := s.process.cache_get thread x.did (some s.nextContext) allocated tracked
  -- What was listed before has another name than the new context.
  have hold : ∀ q ∈ s.process.cache.listed, q.2 < s.nextContext + 1 ∧
      Shows (Function.update s.outstanding s.nextContext .none q.2) withCopy s.files q.1
        (Function.update s.contexts s.nextContext x q.2) := by
    intro q hq
    have hlt := h.named q hq
    rw [Function.update_of_ne (Nat.ne_of_lt hlt), Function.update_of_ne (Nat.ne_of_lt hlt)]
    exact ⟨by omega, h.listed q hq⟩
  obtain ⟨hlisted, hret⟩ : (∀ q ∈ (accountCacheGet s.process.cache x.did
        (some s.nextContext) allocated).1.listed, q.2 < s.nextContext + 1 ∧
          Shows (Function.update s.outstanding s.nextContext .none q.2) withCopy s.files q.1
            (Function.update s.contexts s.nextContext x q.2)) ∧
      ∀ ctx ∈ (accountCacheGet s.process.cache x.did (some s.nextContext) allocated).2,
        Reflects withCopy s.files x.did (Function.update s.contexts s.nextContext x ctx) := by
    rcases accountCacheGet_listed s.process.cache x.did (some s.nextContext) allocated rfl with
      ⟨hsub, hmem⟩ | ⟨hmiss, halloc, ctx, hctx, hr, hsub⟩
    · refine ⟨fun q hq => hold q (hsub hq), fun ctx hctx => ?_⟩
      rw [Function.update_of_ne (Nat.ne_of_lt (h.named _ (hmem ctx hctx)))]
      exact h.listed_reflects (hmem ctx hctx) (hk.2.1 x sup ho _ (hmem ctx hctx) rfl)
    · obtain rfl : s.nextContext = ctx := by simpa using hctx
      have hx : Reflects withCopy s.files x.did x := by
        refine h.openings thread _ ho ?_
        cases sup with
        | false => rfl
        | true =>
          have := hk.1 x ho halloc
          rw [hmiss] at this
          simp at this
      refine ⟨fun q hq => ?_, fun ctx hctx => ?_⟩
      · rcases List.mem_cons.mp (hsub hq) with rfl | hq'
        · exact ⟨by simp, by simpa using hx.shows .none⟩
        · exact hold q hq'
      · rw [hr] at hctx
        obtain rfl : s.nextContext = ctx := by simpa using hctx
        simpa using hx
  rw [UpToDate, hstep]
  refine ⟨⟨fun q hq => ?_, by simp⟩, hord.1, hord.2, fun q hq => ?_, fun q hq => ?_, ?_⟩
  · simp only [CacheHost.returned, hcall, Option.mem_def, Option.map_eq_some_iff] at hq
    obtain ⟨ctx, hctx, rfl⟩ := hq
    exact hret ctx hctx
  · rw [hcache] at hq
    exact (hlisted q hq).1
  · rw [hcache] at hq
    exact (hlisted q hq).2
  · exact (h.reopen thread none (by simp)).openings

/-- An opening that is not marked had not been, and the write has not overtaken it. -/
theorem Opening.not_superseded {did : String} {overtakes : OpeningStage → Bool} {o : Opening}
    (h : (o.afterWrite did overtakes).superseded = false) :
    (o.afterWrite did overtakes).stage = o.stage ∧ o.superseded = false ∧
      ¬ (o.stage.did = did ∧ overtakes o.stage = true) := by
  by_cases hov : o.stage.did = did ∧ overtakes o.stage = true
  · rw [Opening.afterWrite, if_pos hov] at h
    cases h
  · rw [Opening.afterWrite, if_neg hov] at h ⊢
    exact ⟨rfl, h, hov⟩

/-- A context that is pinned is listed, since nothing has leaked. -/
theorem Coherent.listed_of_pinned {withCopy : Bool} {s : CacheHost} (h : Coherent withCopy s)
    {ctx : Nat} (hp : s.pinned ctx = true) : ∃ e ∈ s.process.cache.entries, e.ctx = ctx := by
  rw [CacheHost.pinned, h.integrity.leaked_eq_nil h.background, List.append_nil,
    List.any_eq_true] at hp
  obtain ⟨e, he, hctx⟩ := hp
  exact ⟨e, he, by simp_all⟩

/-- A commit builds on the head of the files, where the one before it has reached them. -/
theorem Coherent.builds {withCopy : Bool} {s : CacheHost} (h : Coherent withCopy s) {ctx : Nat}
    {w : AccountWrite} (hk : KeepsFresh s (.write ctx w)) : UpToDate withCopy s (.write ctx w) := by
  refine ⟨by simp [CacheHost.returned, CacheHost.call], ?_⟩
  rintro ctx' newHead heq hp
  obtain ⟨rfl, rfl⟩ : ctx = ctx' ∧ w = .moveHead newHead := by simpa using heq
  obtain ⟨e, he, rfl⟩ := h.listed_of_pinned hp
  have hx := h.listed (e.did, e.ctx) (List.mem_map_of_mem he)
  rw [hx.forDid]
  exact hx.head (hk.2.1 hp)

/-- A write reaches the files, its own context and, as a mark, every opening of the account
that has read what it changes. -/
theorem Coherent.write {withCopy : Bool} {s : CacheHost} (h : Coherent withCopy s) {ctx : Nat}
    {w : AccountWrite} (hw : withCopy = true → KeepsStatus s (.write ctx w)) :
    Coherent withCopy (s.step (.write ctx w)) := by
  by_cases hp : s.pinned ctx = true
  swap
  · have hstep : s.step (.write ctx w) = s := by simp [CacheHost.step, hp]
    rw [hstep]
    exact h
  obtain ⟨e, he, rfl⟩ := h.listed_of_pinned hp
  have hx := h.listed (e.did, e.ctx) (List.mem_map_of_mem he)
  have hdid : (s.contexts e.ctx).did = e.did := hx.forDid
  have hstatus : w.keepsStatus withCopy (s.files e.did) := by
    cases w with
    | setActive active =>
      intro hc
      have := hw hc hp
      rwa [hdid] at this
    | _ => trivial
  have hstep : s.step (.write e.ctx w) =
      { s with
        files := Function.update s.files e.did (w.onFiles (s.contexts e.ctx) (s.files e.did))
        contexts := Function.update s.contexts e.ctx (w.onContext (s.contexts e.ctx))
        openings := fun thread =>
          (s.openings thread).map (Opening.afterWrite e.did w.overtakes)
        outstanding := Function.update s.outstanding e.ctx
          (w.leaves (s.files e.did) (s.outstanding e.ctx)) } := by
    simp only [CacheHost.step, hp, if_true, hdid]
  rw [hstep]
  refine ⟨h.background, h.integrity, h.named, fun q hq => ?_, fun thread o ho hs => ?_⟩
  · obtain ⟨e', he', rfl⟩ := List.mem_map.mp hq
    by_cases hd : e'.did = e.did
    · obtain rfl := List.inj_on_of_nodup_map h.integrity.didNodup he' he hd
      simpa using hx.write_self hstatus
    · have hx' := h.listed _ hq
      have hne : e'.ctx ≠ e.ctx := by
        intro hc
        refine hd ?_
        have := hx'.forDid
        rw [hc, hdid] at this
        exact this.symm
      simpa [Function.update_of_ne hne] using hx'.write_other hd _
  · obtain ⟨o', ho', rfl⟩ := Option.map_eq_some_iff.mp ho
    obtain ⟨hstage, hold, hfree⟩ := Opening.not_superseded hs
    rw [hstage]
    exact (h.openings thread o' ho' hold).write _ hstatus hfree

/-- A handle that is written to the registry is outstanding of every context of the account. -/
theorem Coherent.updateRegistry {withCopy : Bool} {s : CacheHost} (h : Coherent withCopy s)
    (did handle : String) : Coherent withCopy (s.step (.updateRegistry did handle)) := by
  refine ⟨h.background, h.integrity, h.named, fun q hq => ?_, fun thread o ho hs => ?_⟩
  · have hx := h.listed q hq
    by_cases hd : q.1 = did
    · subst hd
      simp only [CacheHost.step, hx.forDid, if_true]
      exact hx.registered handle
    · have hne : (s.contexts q.2).did ≠ did := by rwa [hx.forDid]
      simp only [CacheHost.step, hne, if_false]
      exact hx.write_other hd _
  · obtain ⟨o', ho', rfl⟩ := Option.map_eq_some_iff.mp ho
    obtain ⟨hstage, hold, hfree⟩ := Opening.not_superseded hs
    rw [hstage]
    exact (h.openings thread o' ho' hold).registered handle hfree

/-- Every event keeps the cache coherent and owes nothing. -/
theorem Coherent.step {withCopy : Bool} {s : CacheHost} (h : Coherent withCopy s)
    {ev : CacheEvent} (hk : KeepsFresh s ev) (hs : withCopy = true → KeepsStatus s ev) :
    UpToDate withCopy s ev ∧ Coherent withCopy (s.step ev) := by
  cases ev with
  | lookup thread did tracked => exact h.lookup hk
  | publish thread allocated tracked => exact h.publish hk
  | write ctx w => exact ⟨h.builds hk, h.write hs⟩
  | updateRegistry did handle =>
    exact ⟨⟨by simp [CacheHost.returned, CacheHost.call], by simp⟩, h.updateRegistry did handle⟩
  | read thread succeeds =>
    refine ⟨⟨by simp [CacheHost.returned, CacheHost.call], by simp⟩, ?_⟩
    cases ho : s.openings thread with
    | none => simpa only [CacheHost.step, ho] using h
    | some o =>
      cases succeeds with
      | false =>
        simp only [CacheHost.step, ho]
        exact h.reopen thread none (by simp)
      | true =>
        simp only [CacheHost.step, ho, if_true]
        refine h.reopen thread _ fun o' ho' hsup => ?_
        obtain rfl := Option.mem_some_iff.mp ho'
        exact (h.openings thread o ho hsup).advance
  | release ctx =>
    refine ⟨⟨by simp [CacheHost.returned, CacheHost.call], by simp⟩, ?_⟩
    exact h.relist (h.ordered (hk.2.2 _ rfl)) (CacheProcess.listed_step (by simp))
  | releaseThreadLocal thread =>
    refine ⟨⟨by simp [CacheHost.returned, CacheHost.call], by simp⟩, ?_⟩
    exact h.relist (h.ordered (hk.2.2 _ rfl)) (CacheProcess.listed_step (by simp))
  | setMaxResident n =>
    refine ⟨⟨by simp [CacheHost.returned, CacheHost.call], by simp⟩, ?_⟩
    exact h.relist (h.ordered (hk.2.2 _ rfl)) (CacheProcess.listed_step (by simp))

/-! ## Every run -/

/-- While no overtaken context is inserted, no write is seen by halves and no pinned entry is
unlinked, every context that is handed out says what the account's files say, and every commit
builds on the head of the files; the context's own copy of the status is right too as long as
nobody changes the status. -/
theorem cachedContext_upToDate (files : String → AccountFiles) (run : List CacheEvent)
    (h : Steps CacheHost.step KeepsFresh (CacheHost.new files) run) :
    Steps CacheHost.step (UpToDate false) (CacheHost.new files) run ∧
      (Steps CacheHost.step KeepsStatus (CacheHost.new files) run →
        Steps CacheHost.step (UpToDate true) (CacheHost.new files) run) := by
  constructor
  · exact Steps.imp (coherent_new false files)
      (fun s ev hs hk => (hs.step hk (by simp)).1)
      (fun s ev hs hk => (hs.step hk (by simp)).2) h
  · intro hkept
    exact Steps.imp (coherent_new true files)
      (fun s ev hs hk => (hs.step hk.1 fun _ => hk.2).1)
      (fun s ev hs hk => (hs.step hk.1 fun _ => hk.2).2) (h.and hkept)

/-- Of a lookup the condition asks that the account is settled. -/
theorem keepsFresh_lookup {s : CacheHost} {thread : Nat} {did : String} {tracked : Bool}
    (h : s.Settled did) : KeepsFresh s (.lookup thread did tracked) := by
  refine ⟨trivial, h, fun call hcall => ?_⟩
  cases ho : s.openings thread with
  | some o => simp [CacheHost.call, ho] at hcall
  | none =>
    obtain rfl : CacheCall.get thread did none false tracked = call := by
      simpa [CacheHost.call, ho] using hcall
    exact fun _ ctx hctx => by simp at hctx

theorem keepsFresh_read (s : CacheHost) (thread : Nat) (succeeds : Bool) :
    KeepsFresh s (.read thread succeeds) := ⟨trivial, trivial, by simp [CacheHost.call]⟩

theorem keepsFresh_write {s : CacheHost} {ctx : Nat} {w : AccountWrite}
    (h : ∀ newHead, w = .moveHead newHead → (s.outstanding ctx).head = false) :
    KeepsFresh s (.write ctx w) := by
  refine ⟨trivial, ?_, by simp [CacheHost.call]⟩
  cases w with
  | moveHead newHead => exact fun _ => h newHead rfl
  | _ => trivial

theorem keepsFresh_updateRegistry (s : CacheHost) (did handle : String) :
    KeepsFresh s (.updateRegistry did handle) := ⟨trivial, trivial, by simp [CacheHost.call]⟩

/-- One thread opens an account, commits and renames it, and another finds it in the cache. -/
def writeThenHit : List CacheEvent :=
  [.lookup 0 "did:a" true, .read 0 true, .read 0 true, .read 0 true, .read 0 true,
    .publish 0 true true, .write 0 (.moveHead "h1"), .write 0 .persistHead,
    .write 0 (.updateMeta "a.test"), .write 0 (.setRepoHandle "a.test"),
    .updateRegistry "did:a" "a.test", .write 0 (.setHandle "a.test"), .lookup 1 "did:a" true]

theorem writeThenHit_upToDate :
    Steps CacheHost.step (UpToDate true) (CacheHost.new fun _ => default) writeThenHit := by
  refine (cachedContext_upToDate (fun _ => default) writeThenHit ?_).2 ?_
  · refine ⟨keepsFresh_lookup (by decide), keepsFresh_read .., keepsFresh_read ..,
      keepsFresh_read .., keepsFresh_read .., ⟨fun x hx => ?_, fun x superseded hx => ?_, ?_⟩,
      keepsFresh_write fun _ _ => rfl, keepsFresh_write nofun, keepsFresh_write nofun,
      keepsFresh_write nofun, keepsFresh_updateRegistry .., keepsFresh_write nofun,
      keepsFresh_lookup (by decide +kernel), trivial⟩
    · have hfresh : ((exec CacheHost.step (CacheHost.new fun _ => default)
          (writeThenHit.take 5)).openings 0).map Opening.superseded = some false := by
        decide
      exact absurd ((congrArg (Option.map Opening.superseded) hx).symm.trans hfresh) (by simp)
    · intro p hp
      cases hp
    · rintro _ ⟨rfl⟩ - _ ⟨rfl⟩ -
      trivial
  · exact ⟨trivial, trivial, trivial, trivial, trivial, trivial, trivial, trivial, trivial, trivial,
      trivial, trivial, trivial, trivial⟩

/-- While one thread has read the account and not yet inserted its context, another opens
it, commits a new head and lets the entry go; the eviction makes room for the old copy. -/
def staleInsertion : List CacheEvent :=
  [.setMaxResident 1,
    .lookup 3 "did:b" true, .read 3 true, .read 3 true, .read 3 true, .read 3 true,
    .publish 3 true true,
    .lookup 1 "did:a" true, .read 1 true, .read 1 true, .read 1 true, .read 1 true,
    .lookup 2 "did:a" true, .read 2 true, .read 2 true, .read 2 true, .read 2 true,
    .publish 2 true true, .write 1 (.moveHead "h1"), .write 1 .persistHead, .releaseThreadLocal 2]

/-- The context that `get` then returns has the head from before the commit. -/
theorem staleInsertion_not_upToDate : ¬ Steps CacheHost.step (UpToDate false)
    (CacheHost.new fun _ => default) (staleInsertion ++ [.publish 1 true true]) := by
  intro h
  have hlast := (steps_append.mp h).2.1.1 ("did:a", 2) (by decide +kernel)
  exact absurd hlast.head (by decide +kernel)

end MetalBear.Account
