import MetalBear.Library.Machine
import MetalBear.OAuth.Connection
import MetalBear.OAuth.RefreshChain

/-!
# Calls that do not disturb each other

What the calls on the shared connection owe each other: the statements of a call stay in effect
unless the call itself rolls them back, a transaction is ended by the call that began it, and a
verdict is read from the call's own statement. Nothing serializes the calls, and they owe it only
where no rotation is refused its `BEGIN`, no call writes inside the transaction of another and none
writes between the statement of another and its verdict.
-/

namespace MetalBear.OAuth.Shared

open TwoFactor Machine

/-! ## What is in effect -/

/-- The statements in effect that a call has carried out. -/
def ownWrites (i : ℕ) (journal : List Entry) : List (Write × Nat) :=
  (journal.filter fun e => e.owner = i).map fun e => (e.write, e.count)

/-- The journal leads from the one state of the tables to the other, each statement changing the
number of rows that it is entered with. -/
def Replays : Tables → List Entry → Tables → Prop
  | t, [], u => u = t
  | t, e :: journal, u => ∃ t', e.write.run t = some (t', e.count) ∧ Replays t' journal u

/-- The effect of a call that succeeded, by the statements in effect that are its own. -/
def AuthCall.Effected (lib : TokenLibrary) (store : AuthStore) :
    AuthCall → AuthAnswer → List (Write × Nat) → Prop
  | .rotateRefresh _, .tokens out, own =>
    ∃ pruned, (∀ w ∈ pruned, ∃ now, w.1 = Write.pruneExpired now) ∧
      (own = pruned ∨ ∃ jti grace row n m, n ≠ 0 ∧
        own = pruned ++ [(.nameSuccessor jti out.refresh.jti grace, n),
          (.insertRefresh out.refresh.jti row, m)])
  | .revokeRefresh token, .done, own =>
    ∃ now verified, verifyJwt lib store now token .refresh true = .ok verified ∧
      own = [(.revoke (verified.jti.getD "") store.accountDid, 1)]
  | .revokeAppPasswordSessions name, .done, own =>
    ∃ n, own = [(.revokeAppPassword store.accountDid name, n)]
  | .totpActivate hashes step, .done, own =>
    ∃ rest, own = (.activateSecret step, 1) :: rest ∧
      rest.map Prod.fst = .clearBackups :: hashes.map .insertBackup
  | .totpUseStep step, .recorded b, own => ∃ n, own = [(.useStep step, n)] ∧ b = (n == 1)
  | .totpConsumeBackup hash, .consumed b, own =>
    ∃ n, own = [(.consumeBackup hash, n)] ∧ b = (n == 1)
  | _, _, _ => False

/-- The calls have not disturbed each other: the tables are what the statements in effect make of
the first ones, a call has lost no statement but by its own `ROLLBACK`, and what a call that
returned success has done is in effect. A code that was accepted was there, and a step was above
the last one, when the statement of that call met it. -/
structure AuthPool.Undisturbed (lib : TokenLibrary) (store : AuthStore) (init : Tables)
    (s : AuthPool) : Prop where
  ledger : Replays init s.shared.journal s.shared.tables
  kept : ∀ i, ownWrites i s.shared.journal = (s.shared.traces i).kept
  effected : ∀ i c a, s.returned i = some (c, .ok a) →
    c.Effected lib store a (ownWrites i s.shared.journal)
  code_accepted : ∀ i hash, s.returned i = some (.totpConsumeBackup hash, .ok (.consumed true)) →
    ∃ pre post t, s.shared.journal = pre ++ ⟨i, .consumeBackup hash, 1⟩ :: post ∧
      Replays init pre t ∧ hash ∈ t.totp.backups
  step_accepted : ∀ i step, s.returned i = some (.totpUseStep step, .ok (.recorded true)) →
    ∃ pre post t row, s.shared.journal = pre ++ ⟨i, .useStep step, 1⟩ :: post ∧
      Replays init pre t ∧ t.totp.secret = some row ∧ row.active = true ∧ row.lastStep < step

/-- The calls that end a transaction. -/
def ApiCall.ends : ApiCall → Bool
  | .commit => true
  | .rollback => true
  | _ => false

/-- A `COMMIT` or `ROLLBACK` that finds a transaction open is made by the call that began it. -/
def AuthPool.EndsOwn (s : AuthPool) : Event AuthCall Env → Prop
  | .start _ _ => True
  | .go i _ => ∀ k tx, s.next i = some k → k.ends = true → s.shared.tx = some tx → tx.owner = i

/-- A verdict is the count of the statement that the call has just stepped. -/
def AuthPool.ReadsOwn (s : AuthPool) : Event AuthCall Env → Prop
  | .start _ _ => True
  | .go i _ => s.next i = some .changes →
      ∀ n, (s.shared.traces i).count = some n → s.shared.changes = n

/-! ## What would have to be serialized -/

/-- Whether a call is a rotation, which rolls back when its `BEGIN` is refused. -/
def AuthCall.rotates : AuthCall → Bool
  | .rotateRefresh _ => true
  | _ => false

/-- Whether a thread is a rotation. -/
def AuthPool.rotates (s : AuthPool) (i : ℕ) : Prop :=
  ∃ t, s.threads i = some t ∧ t.called.rotates = true

/-- The `BEGIN` of a rotation is carried out; a statement that writes is stepped neither inside the
transaction of another call nor between the statement of another call and its verdict. -/
def AuthPool.Serialized (s : AuthPool) : Event AuthCall Env → Prop
  | .start _ _ => True
  | .go i e =>
    (s.next i = some .beginImmediate → s.rotates i → s.shared.tx = none ∧ e.carried = true) ∧
    ∀ w, s.next i = some (.write w) →
      (∀ tx, s.shared.tx = some tx → tx.owner = i) ∧ ∀ j, j ≠ i → s.next j ≠ some .changes

/-! ## The journal -/

variable {t u : Tables} {journal pre post : List Entry} {e : Entry} {i j : ℕ}

/-- A journal is replayed piece by piece. -/
theorem replays_append : Replays t (pre ++ post) u ↔ ∃ m, Replays t pre m ∧ Replays m post u := by
  induction pre generalizing t with
  | nil => simp [Replays]
  | cons e pre ih =>
    simp only [List.cons_append, Replays, ih]
    constructor
    · rintro ⟨t', hrun, m, hpre, hpost⟩
      exact ⟨m, ⟨t', hrun, hpre⟩, hpost⟩
    · rintro ⟨m, ⟨t', hrun, hpre⟩, hpost⟩
      exact ⟨t', hrun, m, hpre, hpost⟩

/-- A statement that is carried out is entered with its count. -/
theorem Replays.concat {t' : Tables} (h : Replays t journal u)
    (hrun : e.write.run u = some (t', e.count)) : Replays t (journal ++ [e]) t' :=
  replays_append.mpr ⟨u, h, t', hrun, rfl⟩

/-- An entry met the tables that the entries before it left. -/
theorem Replays.at_entry (h : Replays t (pre ++ e :: post) u) :
    ∃ m m', Replays t pre m ∧ e.write.run m = some (m', e.count) := by
  obtain ⟨m, hpre, m', hrun, -⟩ := replays_append.mp h
  exact ⟨m, m', hpre, hrun⟩

/-- The writes of a call are those before and those after. -/
theorem ownWrites_append :
    ownWrites i (pre ++ post) = ownWrites i pre ++ ownWrites i post := by
  rw [ownWrites, ownWrites, ownWrites, List.filter_append, List.map_append]

@[simp]
theorem ownWrites_self (w : Write) (n : Nat) : ownWrites i [⟨i, w, n⟩] = [(w, n)] := by
  simp [ownWrites]

theorem ownWrites_of_ne (w : Write) (n : Nat) (h : j ≠ i) : ownWrites i [⟨j, w, n⟩] = [] := by
  simp [ownWrites, h]

/-- A write is a call's own where the journal names the call. -/
theorem mem_ownWrites {w : Write} {n : Nat} :
    (w, n) ∈ ownWrites i journal ↔ ⟨i, w, n⟩ ∈ journal := by
  simp only [ownWrites, List.mem_map, List.mem_filter, decide_eq_true_eq]
  constructor
  · rintro ⟨⟨o, w', n'⟩, ⟨he, rfl⟩, h⟩
    cases h
    exact he
  · intro h
    exact ⟨⟨i, w, n⟩, ⟨h, rfl⟩, rfl⟩

/-- Entries of another call count for nothing. -/
theorem ownWrites_eq_nil (h : ∀ e ∈ journal, e.owner = j) (hne : i ≠ j) :
    ownWrites i journal = [] := by
  rw [ownWrites, List.map_eq_nil_iff, List.filter_eq_nil_iff]
  intro e he hi
  exact hne ((of_decide_eq_true hi).symm.trans (h e he))

/-! ## The discipline of a call -/

/-- What a call does by its own trace: it begins no transaction inside its own, and ends only one
that it began. The `BEGIN` of a rotation is not refused. -/
def discipline (rotates : Bool) : Procedure.Discipline ApiCall ApiCall.Answer Trace where
  permits t k :=
    match k with
    | .beginImmediate => t.began = none
    | .commit => t.began.isSome = true
    | .rollback => t.began.isSome = true
    | _ => True
  after t k :=
    match k with
    | .beginImmediate => fun a t' =>
      a = true ∧ t' = t.begun ∨ a = false ∧ rotates = false ∧ t' = t.passed
    | .commit => fun a t' => a = true ∧ t' = t.committed ∨ a = false ∧ t' = t.passed
    | .rollback => fun _ t' => t' = t.rolledBack
    | .write w => fun a t' => a = true ∧ (∃ n, t' = t.wrote w n) ∨ a = false ∧ t' = t.passed
    | .changes => fun a t' => (∀ n, t.count = some n → a = n) ∧ t' = t.passed
    | _ => fun _ t' => t' = t.passed

/-- The trace of a call that begins, or begins again. -/
structure AuthCall.Ready (c : AuthCall) (t : Trace) : Prop where
  began : t.began = none
  count : t.count = none
  kept : ∀ w ∈ t.kept, c.rotates = true ∧ ∃ now, w.1 = .pruneExpired now

/-- What a call leaves when its procedure ends. -/
def AuthCall.Post (lib : TokenLibrary) (store : AuthStore) (c : AuthCall) (t : Trace) :
    Option AuthResult → Prop
  | none => c.Ready t
  | some (.error _) => t.began = none
  | some (.ok a) => t.began = none ∧ c.Effected lib store a t.kept

section Follows

variable {α : Type} {b : Bool} {post : Trace → α → Prop} {t : Trace}

/-- A call that is always permitted and leaves the trace behind its last statement. -/
theorem follows_passing {k : ApiCall} {f : k.Answer → Sql α} (hpermits : (discipline b).permits t k)
    (hafter : ∀ a t', (discipline b).after t k a t' ↔ t' = t.passed) :
    ((Procedure.call k .ret : Sql k.Answer) >>= f).Follows (discipline b) post t ↔
      ∀ a, (f a).Follows (discipline b) post t.passed :=
  ⟨fun h a => h.2 a _ ((hafter a _).mpr rfl),
    fun h => ⟨hpermits, fun a t' ht => (hafter a t').mp ht ▸ h a⟩⟩

@[simp]
theorem follows_time {f : Int → Sql α} : (time >>= f).Follows (discipline b) post t ↔
    ∀ a, (f a).Follows (discipline b) post t.passed :=
  follows_passing trivial fun _ _ => Iff.rfl

@[simp]
theorem follows_randomJti {f : Option String → Sql α} :
    (randomJti >>= f).Follows (discipline b) post t ↔
      ∀ a, (f a).Follows (discipline b) post t.passed :=
  follows_passing trivial fun _ _ => Iff.rfl

@[simp]
theorem follows_createJwts {f : Bool → Sql α} :
    (createJwts >>= f).Follows (discipline b) post t ↔
      (f false).Follows (discipline b) post t.passed ∧
        (f true).Follows (discipline b) post t.passed :=
  (@follows_passing α b post t .createJwts f trivial fun _ _ => Iff.rfl).trans Bool.forall_bool

@[simp]
theorem follows_prepare {f : Bool → Sql α} :
    (prepare >>= f).Follows (discipline b) post t ↔
      (f false).Follows (discipline b) post t.passed ∧
        (f true).Follows (discipline b) post t.passed :=
  (@follows_passing α b post t .prepare f trivial fun _ _ => Iff.rfl).trans Bool.forall_bool

@[simp]
theorem follows_select {jti : String} {p : RefreshRow → Bool} {f : Option RefreshRow → Sql α} :
    (select jti p >>= f).Follows (discipline b) post t ↔
      ∀ a, (f a).Follows (discipline b) post t.passed :=
  follows_passing trivial fun _ _ => Iff.rfl

/-- A transaction is begun outside of one; that of a rotation is not refused. -/
@[simp]
theorem follows_beginImmediate {f : Bool → Sql α} :
    (beginImmediate >>= f).Follows (discipline b) post t ↔ t.began = none ∧
      (b = false → (f false).Follows (discipline b) post t.passed) ∧
        (f true).Follows (discipline b) post t.begun := by
  constructor
  · intro h
    exact ⟨h.1, fun hb => h.2 false _ (.inr ⟨rfl, hb, rfl⟩), h.2 true _ (.inl ⟨rfl, rfl⟩)⟩
  · rintro ⟨hbegan, hfalse, htrue⟩
    refine ⟨hbegan, ?_⟩
    rintro _ _ (⟨rfl, rfl⟩ | ⟨rfl, hb, rfl⟩)
    · exact htrue
    · exact hfalse hb

/-- A transaction is committed inside of one; where the `COMMIT` fails it stays open. -/
@[simp]
theorem follows_commit {f : Bool → Sql α} :
    (commit >>= f).Follows (discipline b) post t ↔ t.began.isSome = true ∧
      (f false).Follows (discipline b) post t.passed ∧
        (f true).Follows (discipline b) post t.committed := by
  constructor
  · intro h
    exact ⟨h.1, h.2 false _ (.inr ⟨rfl, rfl⟩), h.2 true _ (.inl ⟨rfl, rfl⟩)⟩
  · rintro ⟨hbegan, hfalse, htrue⟩
    refine ⟨hbegan, ?_⟩
    rintro _ _ (⟨rfl, rfl⟩ | ⟨rfl, rfl⟩)
    · exact htrue
    · exact hfalse

/-- A rollback ends the transaction and what it wrote. -/
@[simp]
theorem follows_rollback {f : Bool → Sql α} :
    (rollback >>= f).Follows (discipline b) post t ↔ t.began.isSome = true ∧
      (f false).Follows (discipline b) post t.rolledBack ∧
        (f true).Follows (discipline b) post t.rolledBack := by
  refine and_congr_right fun _ => ⟨fun h => ⟨h false _ rfl, h true _ rfl⟩, ?_⟩
  rintro ⟨hfalse, htrue⟩ (_ | _) _ rfl
  · exact hfalse
  · exact htrue

/-- A statement fails and writes nothing, or writes and counts its rows. -/
@[simp]
theorem follows_write {w : Write} {f : Bool → Sql α} :
    (write w >>= f).Follows (discipline b) post t ↔
      (f false).Follows (discipline b) post t.passed ∧
        ∀ n, (f true).Follows (discipline b) post (t.wrote w n) := by
  constructor
  · intro h
    exact ⟨h.2 false _ (.inr ⟨rfl, rfl⟩), fun n => h.2 true _ (.inl ⟨rfl, n, rfl⟩)⟩
  · rintro ⟨hfalse, htrue⟩
    refine ⟨trivial, ?_⟩
    rintro _ _ (⟨rfl, n, rfl⟩ | ⟨rfl, rfl⟩)
    · exact htrue n
    · exact hfalse

/-- The count is that of the last statement, where nothing came between. -/
@[simp]
theorem follows_changes {f : Nat → Sql α} :
    (changes >>= f).Follows (discipline b) post t ↔
      ∀ a, (∀ n, t.count = some n → a = n) → (f a).Follows (discipline b) post t.passed := by
  constructor
  · intro h a ha
    exact h.2 a _ ⟨ha, rfl⟩
  · intro h
    refine ⟨trivial, ?_⟩
    rintro a _ ⟨ha, rfl⟩
    exact h a ha

end Follows

section Traces

variable {t : Trace} {w : Write} {n : Nat}

@[simp] theorem Trace.passed_kept : t.passed.kept = t.kept := rfl
@[simp] theorem Trace.passed_began : t.passed.began = t.began := rfl
@[simp] theorem Trace.passed_count : t.passed.count = none := rfl
@[simp] theorem Trace.wrote_kept : (t.wrote w n).kept = t.kept ++ [(w, n)] := rfl
@[simp] theorem Trace.wrote_began : (t.wrote w n).began = t.began := rfl
@[simp] theorem Trace.wrote_count : (t.wrote w n).count = some n := rfl
@[simp] theorem Trace.begun_kept : t.begun.kept = t.kept := rfl
@[simp] theorem Trace.begun_began : t.begun.began = some t.kept := rfl
@[simp] theorem Trace.committed_kept : t.committed.kept = t.kept := rfl
@[simp] theorem Trace.committed_began : t.committed.began = none := rfl
@[simp] theorem Trace.rolledBack_kept : t.rolledBack.kept = t.began.getD t.kept := rfl
@[simp] theorem Trace.rolledBack_began : t.rolledBack.began = none := rfl
@[simp] theorem Trace.rolledBack_count : t.rolledBack.count = none := rfl

end Traces

section Procedures

variable {lib : TokenLibrary} {store : AuthStore} {t : Trace} {c : AuthCall} {token : String}

/-- A call that rolls back to the trace with which it began returns, or begins again. -/
theorem rollbackWith_follows {b : Bool} {result : Option AuthResult} (hbegan : t.began.isSome = true)
    (h : c.Post lib store t.rolledBack result) :
    (rollbackWith result).Follows (discipline b) (c.Post lib store) t := by
  simp [rollbackWith, hbegan, h]

/-- Pruning writes nothing but its own statement, outside of a transaction. -/
theorem pruneExpiredRefreshes_follows {now : Int} {b : Bool} (hc : c.rotates = true)
    (h : c.Ready t) :
    (pruneExpiredRefreshes now).Follows (discipline b) (fun t _ => t.began = none ∧
      ∀ w ∈ t.kept, c.rotates = true ∧ ∃ now, w.1 = .pruneExpired now) t := by
  simp only [pruneExpiredRefreshes, follows_prepare, follows_write, Bool.false_eq_true, if_false,
    if_true, Procedure.pure_eq, Procedure.follows_ret, Trace.passed_began, Trace.passed_kept,
    Trace.wrote_began, Trace.wrote_kept]
  refine ⟨⟨h.began, h.kept⟩, ⟨h.began, h.kept⟩, fun n => ⟨h.began, fun w hw => ?_⟩⟩
  obtain hw | hw := List.mem_append.mp hw
  · exact h.kept w hw
  · rw [List.mem_singleton.mp hw]
    exact ⟨hc, now, rfl⟩

/-- The tokens of a rotation are handed out after its effect. -/
theorem issuePair_follows {b : Bool} {next : String} {expiry : Int} {scope : AccessScope}
    (hbegan : t.began = none) (heffect : ∀ out : SessionTokens, out.refresh.jti = next →
      (AuthCall.rotateRefresh token).Effected lib store (.tokens out) t.kept) :
    (issuePair next expiry scope).Follows (discipline b)
      ((AuthCall.rotateRefresh token).Post lib store) t := by
  simp only [issuePair, follows_time, follows_createJwts, Bool.false_eq_true, if_false, if_true,
    Procedure.pure_eq, Procedure.follows_ret, AuthCall.Post, Trace.passed_began, Trace.passed_kept]
  exact fun now => ⟨hbegan, hbegan, heffect _ rfl⟩

/-- A rotation that has only pruned may hand out the successor that is there. -/
theorem effected_of_pruned {out : SessionTokens}
    (h : ∀ w ∈ t.kept, ∃ now, w.1 = Write.pruneExpired now) :
    (AuthCall.rotateRefresh token).Effected lib store (.tokens out) t.kept :=
  ⟨t.kept, h, .inl rfl⟩

/-- Reading the successor again writes nothing. -/
theorem reuseSuccessor_follows {b : Bool} {next : String} (hbegan : t.began = none)
    (hkept : ∀ w ∈ t.kept, ∃ now, w.1 = Write.pruneExpired now) :
    (reuseSuccessor next).Follows (discipline b)
      ((AuthCall.rotateRefresh token).Post lib store) t := by
  simp only [reuseSuccessor, follows_prepare, Bool.false_eq_true, if_false, if_true,
    Procedure.pure_eq, Procedure.follows_ret, AuthCall.Post, follows_select, Trace.passed_began]
  refine ⟨hbegan, fun row => ?_⟩
  cases row with
  | none => exact hbegan
  | some row => exact issuePair_follows hbegan fun out _ => effected_of_pruned hkept

/-- The row of a successor: refused, or inserted. -/
theorem follows_persistRefresh {b : Bool} {α : Type} {post : Trace → α → Prop} {jti : String}
    {expiresAt : Int} {scope : AccessScope} {name : Option String} {f : Bool → Sql α} :
    (persistRefresh store jti expiresAt scope name >>= f).Follows (discipline b) post t ↔
      (f false).Follows (discipline b) post t.passed ∧
      (f false).Follows (discipline b) post t.passed.passed ∧
      ∀ n, (f true).Follows (discipline b) post (t.passed.wrote (.insertRefresh jti
        ⟨store.accountDid, expiresAt, none, none, false, scope, name⟩) n) := by
  simp [persistRefresh, prepare, write, discipline]

/-- The successor and the mark on its predecessor are established together. -/
theorem mintSuccessor_follows {jti : String} {row : RefreshRow} {now : Int} (hbegan : t.began = none)
    (hkept : ∀ w ∈ t.kept, ∃ now, w.1 = Write.pruneExpired now) :
    (mintSuccessor store jti row now).Follows (discipline true)
      ((AuthCall.rotateRefresh token).Post lib store) t := by
  simp only [mintSuccessor, follows_randomJti]
  intro next
  cases next with
  | none => exact hbegan
  | some next =>
    simp only [follows_beginImmediate, Trace.passed_began, hbegan, Bool.true_eq_false,
      false_implies, true_and, follows_prepare, Bool.false_eq_true, if_false, if_true,
      follows_write, follows_changes]
    have hfailed : ∀ t' : Trace, t'.began.isSome = true → (rollbackWith (some (.error
        .internal))).Follows (discipline true) ((AuthCall.rotateRefresh token).Post lib store) t' :=
      fun t' h => rollbackWith_follows h rfl
    refine ⟨hfailed _ rfl, fun _ _ => hfailed _ rfl, fun n a ha => ?_⟩
    obtain rfl := ha n rfl
    split
    · exact rollbackWith_follows rfl ⟨rfl, rfl, fun w hw => ⟨rfl, hkept w hw⟩⟩
    · rename_i hn
      simp only [follows_persistRefresh, Bool.false_eq_true, if_false, if_true, follows_commit]
      refine ⟨hfailed _ rfl, hfailed _ rfl, fun m => ⟨rfl, hfailed _ rfl, ?_⟩⟩
      refine issuePair_follows rfl fun out hout => ⟨t.kept, hkept, .inr ?_⟩
      subst hout
      refine ⟨jti, min (now + refreshGraceSeconds) row.expiresAt, ⟨store.accountDid,
        now + refreshLifetimeSeconds, none, none, false, row.accessScope, row.appPasswordName⟩, a,
        m, hn, ?_⟩
      simp

/-- A rotation keeps to the transactions and leaves what its answer says. -/
theorem rotateRefresh_follows (h : (AuthCall.rotateRefresh token).Ready t) :
    (rotateRefresh lib store token).Follows (discipline true)
      ((AuthCall.rotateRefresh token).Post lib store) t := by
  simp only [rotateRefresh, follows_time]
  intro now
  cases verifyJwt lib store now token .refresh false with
  | error e => exact h.began
  | ok verified =>
    simp only [follows_time]
    intro prune
    have hready : (AuthCall.rotateRefresh token).Ready t.passed.passed := ⟨h.began, rfl, h.kept⟩
    refine (pruneExpiredRefreshes_follows rfl hready).bind fun _ t' ht => ?_
    have hkept : ∀ w ∈ t'.kept, ∃ now, w.1 = Write.pruneExpired now := fun w hw => (ht.2 w hw).2
    simp only [follows_prepare, Bool.false_eq_true, if_false, if_true, Procedure.pure_eq,
      Procedure.follows_ret, AuthCall.Post, Trace.passed_began, follows_select]
    refine ⟨ht.1, fun row => ?_⟩
    cases row with
    | none => exact ht.1
    | some row =>
      simp only [follows_time]
      intro now
      split
      · exact ht.1
      · cases row.nextJti with
        | none => exact mintSuccessor_follows ht.1 hkept
        | some next => exact reuseSuccessor_follows ht.1 hkept

/-- Trace of a call that is no rotation, at its beginning. -/
theorem AuthCall.Ready.kept_eq_nil (h : c.Ready t) (hc : c.rotates = false) : t.kept = [] := by
  rw [List.eq_nil_iff_forall_not_mem]
  intro w hw
  rw [(h.kept w hw).1] at hc
  cases hc

/-- A revocation of a token is one statement, outside of a transaction. -/
theorem revokeRefresh_follows (h : (AuthCall.revokeRefresh token).Ready t) :
    (revokeRefresh lib store token).Follows (discipline false)
      ((AuthCall.revokeRefresh token).Post lib store) t := by
  simp only [revokeRefresh, follows_time]
  intro now
  cases hverified : verifyJwt lib store now token .refresh true with
  | error e => exact h.began
  | ok verified =>
    simp only [follows_prepare, Bool.false_eq_true, if_false, if_true, Procedure.pure_eq,
      Procedure.follows_ret, AuthCall.Post, Trace.passed_began, follows_write, follows_changes]
    refine ⟨h.began, fun _ _ => h.began, fun n a ha => ?_⟩
    obtain rfl := ha n rfl
    split
    · rename_i hn
      obtain rfl : a = 1 := by simpa using hn
      refine ⟨h.began, now, verified, hverified, ?_⟩
      simp [h.kept_eq_nil rfl]
    · exact h.began

/-- So is that of the sessions of an app password. -/
theorem revokeAppPasswordSessions_follows {name : String}
    (h : (AuthCall.revokeAppPasswordSessions name).Ready t) :
    (revokeAppPasswordSessions store name).Follows (discipline false)
      ((AuthCall.revokeAppPasswordSessions name).Post lib store) t := by
  rw [revokeAppPasswordSessions]
  split
  · exact h.began
  · simp only [follows_prepare, Bool.false_eq_true, if_false, if_true, Procedure.pure_eq,
      Procedure.follows_ret, AuthCall.Post, Trace.passed_began, follows_write]
    refine ⟨h.began, h.began, fun n => ⟨h.began, n, ?_⟩⟩
    simp [h.kept_eq_nil rfl]

/-- The codes are inserted in their order, each by one statement. -/
theorem insertBackups_follows {hashes : List CodeHash} :
    (insertBackups hashes).Follows (discipline false) (fun t' done => t'.began = t.began ∧
      (done = true → ∃ rest, t'.kept = t.kept ++ rest ∧
        rest.map Prod.fst = hashes.map Write.insertBackup)) t := by
  induction hashes generalizing t with
  | nil => exact ⟨rfl, fun _ => ⟨[], by simp, rfl⟩⟩
  | cons hash hashes ih =>
    simp only [insertBackups, follows_write, Bool.false_eq_true, if_false, if_true,
      Procedure.pure_eq, Procedure.follows_ret, Trace.passed_began]
    refine ⟨⟨trivial, by simp⟩, fun n => ih.imp fun done t' ht => ⟨ht.1, fun hdone => ?_⟩⟩
    obtain ⟨rest, hkept, hrest⟩ := ht.2 hdone
    refine ⟨(.insertBackup hash, n) :: rest, ?_, ?_⟩
    · rw [hkept, Trace.wrote_kept, List.append_assoc, List.singleton_append]
    · rw [List.map_cons, hrest, List.map_cons]

/-- The old codes are deleted before the new ones are inserted. -/
theorem replaceBackups_follows {hashes : List CodeHash} :
    (replaceBackups hashes).Follows (discipline false) (fun t' done => t'.began = t.began ∧
      (done = true → ∃ rest, t'.kept = t.kept ++ rest ∧
        rest.map Prod.fst = .clearBackups :: hashes.map Write.insertBackup)) t := by
  simp only [replaceBackups, follows_write, Bool.false_eq_true, if_false, if_true,
    Procedure.pure_eq, Procedure.follows_ret, follows_prepare, Trace.passed_began,
    Trace.wrote_began]
  refine ⟨⟨trivial, by simp⟩, fun n => ⟨⟨trivial, by simp⟩, ?_⟩⟩
  refine insertBackups_follows.imp fun done t' ht => ⟨ht.1, fun hdone => ?_⟩
  obtain ⟨rest, hkept, hrest⟩ := ht.2 hdone
  refine ⟨(.clearBackups, n) :: rest, ?_, ?_⟩
  · rw [hkept, Trace.passed_kept, Trace.wrote_kept, List.append_assoc, List.singleton_append]
  · rw [List.map_cons, hrest]

/-- The secret is active only where the statement changed its row. -/
theorem activateSecret_follows {step : Int} :
    (activateSecret step).Follows (discipline false) (fun t' r => t'.began = t.began ∧
      (r = .ok () → t'.kept = t.kept ++ [(.activateSecret step, 1)])) t := by
  simp only [activateSecret, follows_prepare, Bool.false_eq_true, if_false, if_true,
    Procedure.pure_eq, Procedure.follows_ret, follows_write, follows_changes, Trace.passed_began]
  refine ⟨⟨trivial, by simp⟩, ⟨trivial, by simp⟩, fun n a ha => ?_⟩
  obtain rfl := ha n rfl
  split
  · rename_i hn
    exact ⟨rfl, fun _ => by simp [hn]⟩
  · exact ⟨rfl, by simp⟩

/-- An activation that succeeds has activated the secret and replaced the codes, in one
transaction. -/
theorem totpActivate_follows {hashes : List CodeHash} {step : Int}
    (h : (AuthCall.totpActivate hashes step).Ready t) :
    (totpActivate hashes step).Follows (discipline false)
      ((AuthCall.totpActivate hashes step).Post lib store) t := by
  simp only [totpActivate, follows_beginImmediate, Bool.false_eq_true, if_false, if_true,
    Procedure.pure_eq, Procedure.follows_ret]
  refine ⟨h.began, fun _ => h.began, ?_⟩
  refine activateSecret_follows.bind fun r t₁ ht₁ => ?_
  have hsome₁ : t₁.began.isSome = true := by simp [ht₁.1]
  cases r with
  | error e => exact rollbackWith_follows hsome₁ rfl
  | ok u =>
    refine replaceBackups_follows.bind fun done t₂ ht₂ => ?_
    have hsome₂ : t₂.began.isSome = true := by rw [ht₂.1, hsome₁]
    cases done with
    | false => exact rollbackWith_follows hsome₂ rfl
    | true =>
      obtain ⟨rest, hkept, hrest⟩ := ht₂.2 rfl
      simp only [if_true, follows_commit, Bool.false_eq_true, if_false,
        Procedure.follows_ret]
      refine ⟨hsome₂, rollbackWith_follows hsome₂ rfl, rfl, rest, ?_, hrest⟩
      simp [hkept, ht₁.2 rfl, h.kept_eq_nil rfl]

/-- A step is used where its statement changed a row. -/
theorem totpUseStep_follows {step : Int} (h : (AuthCall.totpUseStep step).Ready t) :
    (totpUseStep step).Follows (discipline false)
      ((AuthCall.totpUseStep step).Post lib store) t := by
  simp only [totpUseStep, follows_prepare, Bool.false_eq_true, if_false, if_true,
    Procedure.pure_eq, Procedure.follows_ret, follows_write, follows_changes]
  refine ⟨h.began, fun _ _ => h.began, fun n a ha => ?_⟩
  obtain rfl := ha n rfl
  refine ⟨h.began, a, ?_, rfl⟩
  simp [h.kept_eq_nil rfl]

/-- A code is consumed where its statement changed a row. -/
theorem totpConsumeBackup_follows {hash : CodeHash} (h : (AuthCall.totpConsumeBackup hash).Ready t) :
    (totpConsumeBackup hash).Follows (discipline false)
      ((AuthCall.totpConsumeBackup hash).Post lib store) t := by
  simp only [totpConsumeBackup, follows_prepare, Bool.false_eq_true, if_false, if_true,
    Procedure.pure_eq, Procedure.follows_ret, follows_write, follows_changes]
  refine ⟨h.began, fun _ _ => h.began, fun n a ha => ?_⟩
  obtain rfl := ha n rfl
  refine ⟨h.began, a, ?_, rfl⟩
  simp [h.kept_eq_nil rfl]

/-- Every call keeps to its own transaction and returns success with its effect. -/
theorem AuthCall.procedure_follows (h : c.Ready t) :
    (c.procedure lib store).Follows (discipline c.rotates) (c.Post lib store) t := by
  cases c with
  | rotateRefresh token => exact rotateRefresh_follows h
  | revokeRefresh token => exact revokeRefresh_follows h
  | revokeAppPasswordSessions name => exact revokeAppPasswordSessions_follows h
  | totpActivate hashes step => exact totpActivate_follows h
  | totpUseStep step => exact totpUseStep_follows h
  | totpConsumeBackup hash => exact totpConsumeBackup_follows h

end Procedures

/-! ## The connection -/

section Traced

variable {s : Connection} {i j : ℕ} {f : Trace → Trace}

@[simp] theorem Connection.traced_tables : (s.traced i f).tables = s.tables := rfl
@[simp] theorem Connection.traced_tx : (s.traced i f).tx = s.tx := rfl
@[simp] theorem Connection.traced_changes : (s.traced i f).changes = s.changes := rfl
@[simp] theorem Connection.traced_journal : (s.traced i f).journal = s.journal := rfl

@[simp]
theorem Connection.traced_self : (s.traced i f).traces i = f (s.traces i) :=
  Function.update_self ..

theorem Connection.traced_of_ne (h : j ≠ i) : (s.traced i f).traces j = s.traces j :=
  Function.update_of_ne h ..

end Traced

/-- What the connection keeps: the tables follow from the journal, each trace is its call's part of
the journal, and the open transaction holds the statements of its owner alone. -/
structure Connection.Sound (init : Tables) (s : Connection) : Prop where
  ledger : Replays init s.journal s.tables
  kept : ∀ i, ownWrites i s.journal = (s.traces i).kept
  saved : ∀ tx, s.tx = some tx → tx.mark ≤ s.journal.length ∧
    Replays init (s.journal.take tx.mark) tx.saved ∧
    ∀ e ∈ s.journal.drop tx.mark, e.owner = tx.owner
  began : ∀ i base, (s.traces i).began = some base ↔
    ∃ tx, s.tx = some tx ∧ tx.owner = i ∧ ownWrites i (s.journal.take tx.mark) = base

section Sound

variable {init : Tables} {s : Connection} {i : ℕ}

/-- A call that changes neither the tables nor the transaction. -/
theorem Connection.Sound.traced {f : Trace → Trace} (h : s.Sound init)
    (hkept : (f (s.traces i)).kept = (s.traces i).kept)
    (hbegan : (f (s.traces i)).began = (s.traces i).began) : (s.traced i f).Sound init := by
  refine ⟨h.ledger, fun j => ?_, h.saved, fun j base => ?_⟩
  · by_cases hj : j = i
    · subst hj
      rw [Connection.traced_self, hkept]
      exact h.kept j
    · rw [Connection.traced_of_ne hj]
      exact h.kept j
  · by_cases hj : j = i
    · subst hj
      rw [Connection.traced_self, hbegan]
      exact h.began j base
    · rw [Connection.traced_of_ne hj]
      exact h.began j base

/-- Without a transaction no call is in one. -/
theorem Connection.Sound.began_eq_none (h : s.Sound init) (htx : s.tx = none) :
    (s.traces i).began = none := by
  cases hbegan : (s.traces i).began with
  | none => rfl
  | some base =>
    obtain ⟨tx, hsome, -⟩ := (h.began i base).mp hbegan
    rw [htx] at hsome
    cases hsome

/-- The transaction of a call that began one. -/
theorem Connection.Sound.exists_tx (h : s.Sound init) (hbegan : (s.traces i).began.isSome = true) :
    ∃ tx, s.tx = some tx ∧ tx.owner = i ∧
      (s.traces i).began = some (ownWrites i (s.journal.take tx.mark)) := by
  obtain ⟨base, hbase⟩ := Option.isSome_iff_exists.mp hbegan
  obtain ⟨tx, htx, howner, rfl⟩ := (h.began i base).mp hbase
  exact ⟨tx, htx, howner, hbase⟩

/-- A transaction that begins takes the tables as they are for its snapshot. -/
theorem Connection.Sound.beginImmediate (h : s.Sound init) (htx : s.tx = none) :
    (Connection.traced { s with tx := some ⟨i, s.tables, s.journal.length⟩ } i
      Trace.begun).Sound init := by
  have hown : ∀ j, ownWrites j (s.journal.take s.journal.length) = (s.traces j).kept := by
    intro j
    rw [List.take_length]
    exact h.kept j
  refine ⟨h.ledger, fun j => ?_, ?_, fun j base => ?_⟩
  · by_cases hj : j = i
    · subst hj
      rw [Connection.traced_self]
      exact h.kept j
    · rw [Connection.traced_of_ne hj]
      exact h.kept j
  · intro tx hopen
    obtain rfl := Option.some.inj hopen
    refine ⟨le_rfl, ?_, ?_⟩
    · simpa using h.ledger
    · simp
  · by_cases hj : j = i
    · subst hj
      rw [Connection.traced_self, Trace.begun_began, ← hown j]
      simp
    · rw [Connection.traced_of_ne hj, h.began_eq_none htx]
      simp [Ne.symm hj]

/-- A commit keeps what the transaction wrote. -/
theorem Connection.Sound.commit (h : s.Sound init) {tx : Tx} (htx : s.tx = some tx)
    (howner : tx.owner = i) :
    (Connection.traced { s with tx := none } i Trace.committed).Sound init := by
  refine ⟨h.ledger, fun j => ?_, nofun, fun j base => ?_⟩
  · by_cases hj : j = i
    · subst hj
      rw [Connection.traced_self]
      exact h.kept j
    · rw [Connection.traced_of_ne hj]
      exact h.kept j
  · by_cases hj : j = i
    · subst hj
      rw [Connection.traced_self]
      simp
    · rw [Connection.traced_of_ne hj]
      constructor
      · intro hbase
        obtain ⟨tx', htx', howner', -⟩ := (h.began j base).mp hbase
        rw [htx] at htx'
        cases htx'
        exact absurd (howner'.symm.trans howner) hj
      · rintro ⟨_, hnone, -⟩
        cases hnone

/-- A transaction that its owner rolls back takes only statements of its owner along. -/
theorem Connection.Sound.rollback (h : s.Sound init) {tx : Tx} (htx : s.tx = some tx)
    (hbegan : (s.traces tx.owner).began = some (ownWrites tx.owner (s.journal.take tx.mark))) :
    (Connection.traced { s with tables := tx.saved, tx := none, journal := s.journal.take tx.mark }
      tx.owner Trace.rolledBack).Sound init := by
  obtain ⟨-, hsaved, howned⟩ := h.saved tx htx
  refine ⟨hsaved, fun j => ?_, nofun, fun j base => ?_⟩
  · by_cases hj : j = tx.owner
    · subst hj
      rw [Connection.traced_self, Trace.rolledBack_kept, hbegan]
      rfl
    · rw [Connection.traced_of_ne hj]
      have hall := h.kept j
      rw [← List.take_append_drop tx.mark s.journal, ownWrites_append,
        ownWrites_eq_nil howned hj, List.append_nil] at hall
      exact hall
  · by_cases hj : j = tx.owner
    · subst hj
      rw [Connection.traced_self]
      simp
    · rw [Connection.traced_of_ne hj]
      constructor
      · intro hbase
        obtain ⟨tx', htx', howner', -⟩ := (h.began j base).mp hbase
        rw [htx] at htx'
        cases htx'
        exact absurd howner'.symm hj
      · rintro ⟨_, hnone, -⟩
        cases hnone

/-- A statement that a call steps outside the transaction of any other. -/
theorem Connection.Sound.write {w : Write} {t : Tables} {n : Nat} (h : s.Sound init)
    (hrun : w.run s.tables = some (t, n)) (hown : ∀ tx, s.tx = some tx → tx.owner = i) :
    (Connection.traced
      { s with tables := t, changes := n, journal := s.journal ++ [⟨i, w, n⟩] } i
      (Trace.wrote w n)).Sound init := by
  refine ⟨h.ledger.concat hrun, fun j => ?_, fun tx htx => ?_, fun j base => ?_⟩
  · by_cases hj : j = i
    · subst hj
      rw [Connection.traced_self, Connection.traced_journal, ownWrites_append, ownWrites_self,
        Trace.wrote_kept, h.kept]
    · rw [Connection.traced_of_ne hj, Connection.traced_journal, ownWrites_append,
        ownWrites_of_ne _ _ (Ne.symm hj), List.append_nil, h.kept]
  · obtain ⟨hmark, hsaved, howned⟩ := h.saved tx htx
    refine ⟨?_, ?_, fun e he => ?_⟩
    · simp only [Connection.traced_journal, List.length_append]
      omega
    · rw [Connection.traced_journal, List.take_append_of_le_length hmark]
      exact hsaved
    · rw [Connection.traced_journal, List.drop_append_of_le_length hmark] at he
      obtain he | he := List.mem_append.mp he
      · exact howned e he
      · rw [List.mem_singleton.mp he]
        exact (hown tx htx).symm
  · have htake : ∀ tx, s.tx = some tx →
        (s.journal ++ [Entry.mk i w n]).take tx.mark = s.journal.take tx.mark :=
      fun tx htx => List.take_append_of_le_length (h.saved tx htx).1
    have hbegan : ((s.traces j).began = some base ↔ ∃ tx, s.tx = some tx ∧ tx.owner = j ∧
        ownWrites j ((s.journal ++ [Entry.mk i w n]).take tx.mark) = base) := by
      rw [h.began j base]
      constructor
      · rintro ⟨tx, htx, howner, hbase⟩
        exact ⟨tx, htx, howner, by rw [htake tx htx, hbase]⟩
      · rintro ⟨tx, htx, howner, hbase⟩
        exact ⟨tx, htx, howner, by rw [← htake tx htx, hbase]⟩
    by_cases hj : j = i
    · subst hj
      rw [Connection.traced_self, Trace.wrote_began]
      exact hbegan
    · rw [Connection.traced_of_ne hj]
      exact hbegan

/-- One call: the connection stays sound, the trace of the caller moves as the discipline says, and
the other traces stay as they are. -/
theorem Connection.Sound.serve {e : Env} {k : ApiCall} {b : Bool} (h : s.Sound init)
    (hpermits : (discipline b).permits (s.traces i) k)
    (hbegin : k = .beginImmediate → b = true → s.tx = none ∧ e.carried = true)
    (hwrite : ∀ w, k = .write w → ∀ tx, s.tx = some tx → tx.owner = i)
    (hchanges : k = .changes → ∀ n, (s.traces i).count = some n → s.changes = n) :
    (s.serve i e k).1.Sound init ∧
      (discipline b).after (s.traces i) k (s.serve i e k).2 ((s.serve i e k).1.traces i) := by
  have hpassed : (s.traced i Trace.passed).Sound init := h.traced rfl rfl
  have hself : (s.traced i Trace.passed).traces i = (s.traces i).passed := Connection.traced_self
  cases k with
  | time => exact ⟨hpassed, hself⟩
  | randomJti => exact ⟨hpassed, hself⟩
  | createJwts => exact ⟨hpassed, hself⟩
  | prepare => exact ⟨hpassed, hself⟩
  | select jti p => exact ⟨hpassed, hself⟩
  | beginImmediate =>
    simp only [Connection.serve, Connection.beginImmediate]
    split
    · rename_i hopen
      have htx : s.tx = none := Option.isNone_iff_eq_none.mp hopen.1
      exact ⟨h.beginImmediate htx, .inl ⟨rfl, Connection.traced_self⟩⟩
    · rename_i hrefused
      refine ⟨hpassed, .inr ⟨rfl, ?_, hself⟩⟩
      cases b with
      | false => rfl
      | true =>
        obtain ⟨htx, hcarried⟩ := hbegin rfl rfl
        exact absurd ⟨by rw [htx]; rfl, hcarried⟩ hrefused
  | commit =>
    obtain ⟨tx, htx, howner, -⟩ := h.exists_tx hpermits
    simp only [Connection.serve, Connection.commit]
    split
    · exact ⟨h.commit htx howner, .inl ⟨rfl, Connection.traced_self⟩⟩
    · exact ⟨hpassed, .inr ⟨rfl, hself⟩⟩
  | rollback =>
    obtain ⟨tx, htx, rfl, hbegan⟩ := h.exists_tx hpermits
    simp only [Connection.serve, Connection.rollback, htx]
    exact ⟨h.rollback htx hbegan, Connection.traced_self⟩
  | write w =>
    simp only [Connection.serve, Connection.write]
    cases hrun : (if e.carried then w.run s.tables else none) with
    | none => exact ⟨hpassed, .inr ⟨rfl, hself⟩⟩
    | some r =>
      obtain ⟨t, n⟩ := r
      have hrun' : w.run s.tables = some (t, n) := by
        cases hc : e.carried with
        | true => simpa [hc] using hrun
        | false => simp [hc] at hrun
      exact ⟨h.write hrun' (hwrite w rfl), .inl ⟨rfl, n, Connection.traced_self⟩⟩
  | changes => exact ⟨hpassed, hchanges rfl, hself⟩

/-- A call leaves the traces of the others alone. -/
theorem Connection.serve_traces_of_ne {e : Env} {k : ApiCall} {j : ℕ} (hj : j ≠ i) :
    (s.serve i e k).1.traces j = s.traces j := by
  cases k with
  | beginImmediate =>
    simp only [Connection.serve, Connection.beginImmediate]
    split <;> exact Connection.traced_of_ne hj
  | commit =>
    simp only [Connection.serve, Connection.commit]
    split <;> exact Connection.traced_of_ne hj
  | rollback =>
    simp only [Connection.serve, Connection.rollback]
    split <;> exact Connection.traced_of_ne hj
  | write w =>
    simp only [Connection.serve, Connection.write]
    split <;> exact Connection.traced_of_ne hj
  | _ => exact Connection.traced_of_ne hj

/-- The counter moves with a statement that writes, and with nothing else. -/
theorem Connection.serve_changes {e : Env} {k : ApiCall} (hk : ∀ w, k ≠ .write w) :
    (s.serve i e k).1.changes = s.changes := by
  cases k with
  | beginImmediate =>
    simp only [Connection.serve, Connection.beginImmediate]
    split <;> rfl
  | commit =>
    simp only [Connection.serve, Connection.commit]
    split <;> rfl
  | rollback =>
    simp only [Connection.serve, Connection.rollback]
    split <;> rfl
  | write w => exact absurd rfl (hk w)
  | _ => rfl

/-- A call that has just stepped a statement finds its count in the counter. -/
theorem Connection.serve_count {e : Env} {k : ApiCall} {n : Nat}
    (h : ((s.serve i e k).1.traces i).count = some n) : (s.serve i e k).1.changes = n := by
  cases k with
  | beginImmediate =>
    simp only [Connection.serve, Connection.beginImmediate] at h
    split at h <;> · rw [Connection.traced_self] at h; cases h
  | commit =>
    simp only [Connection.serve, Connection.commit] at h
    split at h <;> · rw [Connection.traced_self] at h; cases h
  | rollback =>
    simp only [Connection.serve, Connection.rollback] at h
    split at h <;> · rw [Connection.traced_self] at h; cases h
  | write w =>
    simp only [Connection.serve, Connection.write] at h ⊢
    cases hrun : (if e.carried then w.run s.tables else none) with
    | none =>
      simp only [hrun, Connection.traced_self] at h
      cases h
    | some r =>
      simp only [hrun, Connection.traced_self, Trace.wrote_count, Option.some.injEq] at h ⊢
      exact h
  | _ =>
    simp only [Connection.serve, Connection.traced_self] at h
    cases h

end Sound

/-! ## The pool -/

/-- What serialized calls maintain. -/
structure AuthPool.Inv (lib : TokenLibrary) (store : AuthStore) (init : Tables) (s : AuthPool) :
    Prop where
  sound : s.shared.Sound init
  follow : s.Follow (fun c => discipline c.rotates) (AuthCall.Post lib store) Connection.traces
  counter : ∀ i, s.next i = some .changes →
    ∀ n, (s.shared.traces i).count = some n → s.shared.changes = n
  fresh : ∀ i, s.threads i = none → s.shared.traces i = .empty

section Runs

variable {lib : TokenLibrary} {store : AuthStore} {init : Tables} {s : AuthPool}

/-- Before the first call nothing is written. -/
theorem AuthPool.inv_opened : (AuthPool.opened init).Inv lib store init where
  sound := ⟨rfl, fun _ => rfl, nofun, fun i base => ⟨nofun, by rintro ⟨_, h, -⟩; cases h⟩⟩
  follow := by intro i c p h; cases h
  counter := by intro i h; cases h
  fresh := fun _ _ => rfl

/-- The next call of another thread is not touched. -/
theorem AuthPool.next_update_of_ne {σ : Connection} {i j : ℕ}
    {t : Thread ApiCall ApiCall.Answer AuthCall AuthResult} (hj : j ≠ i) :
    Pool.next (⟨σ, Function.update s.threads i (some t)⟩ : AuthPool) j = s.next j := by
  simp only [Pool.next, Function.update_of_ne hj]

/-- A thread that begins, or begins again, ready. -/
theorem AuthPool.Inv.begin {i : ℕ} {c : AuthCall} (h : s.Inv lib store init)
    (hready : c.Ready (s.shared.traces i)) :
    AuthPool.Inv lib store init
      { s with threads := Function.update s.threads i (some ⟨c, c.procedure lib store⟩) } := by
  refine ⟨h.sound, h.follow.begin (AuthCall.procedure_follows hready), fun j hj n hn => ?_,
    fun j hj => ?_⟩
  · by_cases hji : j = i
    · subst hji
      rw [hready.count] at hn
      cases hn
    · rw [AuthPool.next_update_of_ne hji] at hj
      exact h.counter j hj n hn
  · by_cases hji : j = i
    · subst hji
      simp only [Function.update_self] at hj
      cases hj
    · simp only [Function.update_of_ne hji] at hj
      exact h.fresh j hj

/-- A thread that has its call served. -/
theorem AuthPool.Inv.served {i : ℕ} {e : Env} {c : AuthCall} {k : ApiCall}
    {next : k.Answer → Sql (Option AuthResult)} (h : s.Inv lib store init)
    (ht : s.threads i = some ⟨c, .call k next⟩) (hserial : s.Serialized (.go i e)) :
    AuthPool.Inv lib store init ⟨(s.shared.serve i e k).1,
      Function.update s.threads i (some ⟨c, next (s.shared.serve i e k).2⟩)⟩ := by
  have hnext : s.next i = some k := Pool.next_eq_some.mpr ⟨c, next, ht⟩
  have hbegin : k = .beginImmediate → c.rotates = true →
      s.shared.tx = none ∧ e.carried = true := by
    intro hk hc
    subst hk
    exact hserial.1 hnext ⟨_, ht, hc⟩
  have hwrite : ∀ w, k = .write w → ∀ tx, s.shared.tx = some tx → tx.owner = i := by
    intro w hk
    subst hk
    exact (hserial.2 w hnext).1
  have hchanges : k = .changes → ∀ n, (s.shared.traces i).count = some n →
      s.shared.changes = n := by
    intro hk
    subst hk
    exact h.counter i hnext
  obtain ⟨hsound, hafter⟩ := h.sound.serve (h.follow.permits ht) hbegin hwrite hchanges
  refine ⟨hsound, h.follow.served ht hafter fun j hj => Connection.serve_traces_of_ne hj,
    fun j hj n hn => ?_, fun j hj => ?_⟩
  · by_cases hji : j = i
    · subst hji
      exact Connection.serve_count hn
    · rw [AuthPool.next_update_of_ne hji] at hj
      rw [Connection.serve_traces_of_ne hji] at hn
      have hk : ∀ w, k ≠ .write w := by
        intro w hk
        subst hk
        exact (hserial.2 w hnext).2 j hji hj
      rw [Connection.serve_changes hk]
      exact h.counter j hj n hn
  · by_cases hji : j = i
    · subst hji
      simp only [Function.update_self] at hj
      cases hj
    · simp only [Function.update_of_ne hji] at hj
      rw [Connection.serve_traces_of_ne hji]
      exact h.fresh j hj

/-- The step lemma. -/
theorem AuthPool.Inv.step {ev : Event AuthCall Env} (h : s.Inv lib store init)
    (hserial : s.Serialized ev) : (s.step lib store ev).Inv lib store init := by
  obtain heq | ⟨i, c, rfl, ht, heq⟩ | ⟨i, e, c, rfl, ht, heq⟩ | ⟨i, e, c, k, next, rfl, ht, heq⟩ :=
    Pool.step_cases (AuthCall.procedure lib store) Connection.serve s ev
  · rw [AuthPool.step, heq]
    exact h
  · rw [AuthPool.step, heq]
    refine h.begin ?_
    rw [h.fresh i ht]
    exact ⟨rfl, rfl, nofun⟩
  · rw [AuthPool.step, heq]
    exact h.begin (h.follow i c _ ht)
  · rw [AuthPool.step, heq]
    exact h.served ht hserial

/-- Calls that keep the invariant end only what they began. -/
theorem AuthPool.Inv.endsOwn {ev : Event AuthCall Env} (h : s.Inv lib store init) : s.EndsOwn ev := by
  cases ev with
  | start i c => trivial
  | go i e =>
    intro k tx hnext hends htx
    obtain ⟨c, next, ht⟩ := Pool.next_eq_some.mp hnext
    have hbegan : (s.shared.traces i).began.isSome = true := by
      cases k with
      | commit => exact h.follow.permits ht
      | rollback => exact h.follow.permits ht
      | _ => cases hends
    obtain ⟨tx', htx', howner, -⟩ := h.sound.exists_tx hbegan
    rw [htx] at htx'
    obtain rfl := Option.some.inj htx'
    exact howner

/-- A call reads the count of its own statement. -/
theorem AuthPool.Inv.readsOwn {ev : Event AuthCall Env} (h : s.Inv lib store init) :
    s.ReadsOwn ev := by
  cases ev with
  | start i c => trivial
  | go i e => exact h.counter i

/-- An entry of a call, with the tables that it met. -/
theorem AuthPool.Inv.met {i : ℕ} {w : Write} {n : Nat} (h : s.Inv lib store init)
    (hmem : (w, n) ∈ ownWrites i s.shared.journal) :
    ∃ pre post t t', s.shared.journal = pre ++ ⟨i, w, n⟩ :: post ∧ Replays init pre t ∧
      w.run t = some (t', n) := by
  obtain ⟨pre, post, hjournal⟩ := List.append_of_mem (mem_ownWrites.mp hmem)
  have hledger := h.sound.ledger
  rw [hjournal] at hledger
  obtain ⟨t, t', hpre, hrun⟩ := hledger.at_entry
  exact ⟨pre, post, t, t', hjournal, hpre, hrun⟩

/-- A call that returned has had the effect that its answer says. -/
theorem AuthPool.Inv.effected {i : ℕ} {c : AuthCall} {a : AuthAnswer} (h : s.Inv lib store init)
    (hreturned : s.returned i = some (c, .ok a)) :
    c.Effected lib store a (ownWrites i s.shared.journal) := by
  rw [h.sound.kept]
  exact (h.follow i c _ (Pool.returned_eq_some.mp hreturned)).2

/-- What the invariant says about the tables and about those calls that have returned. -/
theorem AuthPool.Inv.undisturbed (h : s.Inv lib store init) : s.Undisturbed lib store init where
  ledger := h.sound.ledger
  kept := h.sound.kept
  effected := fun _ _ _ hreturned => h.effected hreturned
  code_accepted := by
    intro i hash hreturned
    obtain ⟨n, hown, hn⟩ := h.effected hreturned
    obtain rfl : n = 1 := by simpa using hn.symm
    obtain ⟨pre, post, t, t', hjournal, hpre, hrun⟩ := h.met (hown ▸ List.mem_singleton.mpr rfl)
    refine ⟨pre, post, t, hjournal, hpre, ?_⟩
    simp only [Write.run, Tables.withTotp, TotpTables.consumeBackup, Option.some.injEq,
      Prod.mk.injEq] at hrun
    exact List.count_pos_iff.mp (by omega)
  step_accepted := by
    intro i step hreturned
    obtain ⟨n, hown, hn⟩ := h.effected hreturned
    obtain rfl : n = 1 := by simpa using hn.symm
    obtain ⟨pre, post, t, t', hjournal, hpre, hrun⟩ := h.met (hown ▸ List.mem_singleton.mpr rfl)
    simp only [Write.run, Tables.withTotp, TotpTables.useStep, Option.some.injEq,
      Prod.mk.injEq] at hrun
    cases hsecret : t.totp.secret with
    | none => simp [hsecret] at hrun
    | some row =>
      simp only [hsecret] at hrun
      split at hrun
      · rename_i hrow
        exact ⟨pre, post, t, row, hjournal, hpre, hsecret, hrow.1, hrow.2⟩
      · simp at hrun

/-- In every run of serialized calls, none is disturbed: in every state the statements of a call
stand and successes have their effect, and at every step a transaction is ended by its owner and a
verdict is the caller's own. -/
theorem undisturbed_of_serialized (lib : TokenLibrary) (store : AuthStore) (init : Tables)
    (run : List (Event AuthCall Env))
    (h : Steps (AuthPool.step lib store) AuthPool.Serialized (.opened init) run) :
    States (AuthPool.step lib store) (AuthPool.Undisturbed lib store init) (.opened init) run ∧
      Steps (AuthPool.step lib store) AuthPool.EndsOwn (.opened init) run ∧
      Steps (AuthPool.step lib store) AuthPool.ReadsOwn (.opened init) run := by
  have h0 : (AuthPool.opened init).Inv lib store init := AuthPool.inv_opened
  have hstep : ∀ s ev, AuthPool.Inv lib store init s → s.Serialized ev →
      (s.step lib store ev).Inv lib store init := fun s ev hs hev => hs.step hev
  exact ⟨(states_of_steps h0 hstep h).imp fun s hs => hs.undisturbed,
    h.imp h0 (fun s ev hs _ => hs.endsOwn) hstep, h.imp h0 (fun s ev hs _ => hs.readsOwn) hstep⟩

end Runs

/-! ## Calls that are not serialized -/

/-- The call goes on at this time, SQLite carrying out what it is asked for. -/
def goAt (i : ℕ) (now : Int) : Event AuthCall Env := .go i ⟨true, now, some (exampleJti 3)⟩

/-- The session of the example token and a session of an app password; a secret that waits. -/
def exampleTables : Tables where
  refresh := [
    (exampleJti 1, ⟨"did:plc:alice", 1707776000, none, none, false, .full, none⟩),
    (exampleJti 2, ⟨"did:plc:alice", 1707776000, none, none, false, .appPassword, some "phone"⟩)]
  totp := ⟨some ⟨[1], false, -1⟩, [[2]]⟩

/-- While one call activates the secret, another revokes the sessions of the app password, and a
rotation is refused its `BEGIN`. -/
def revokedInside : List (Event AuthCall Env) :=
  [.start 0 (.totpActivate [] 7), goAt 0 1700000010,
    .start 1 (.revokeAppPasswordSessions "phone"), goAt 1 1700000010, goAt 1 1700000010,
    .start 2 (.rotateRefresh exampleToken)] ++ List.replicate 9 (goAt 2 1700000010)

/-- While one call tries a code that was never issued, another uses one that was. -/
def wrongCodeTried : List (Event AuthCall Env) :=
  [.start 0 (.totpConsumeBackup [9]), goAt 0 1700000010, goAt 0 1700000010,
    .start 1 (.totpConsumeBackup [2]), goAt 1 1700000010, goAt 1 1700000010, goAt 0 1700000010]

/-- The state after these events. -/
def examplePool (run : List (Event AuthCall Env)) : AuthPool :=
  Machine.exec (AuthPool.step exampleLibrary exampleStore) (.opened exampleTables) run

/-- Whether the session of the app password is revoked. -/
def phoneRevoked (s : AuthPool) : Bool :=
  s.shared.tables.refresh.any fun r => r.1 = exampleJti 2 && r.2.revoked

/-- What a rotation does depends on the claims of its token alone. -/
theorem rotateRefresh_congr {lib lib' : TokenLibrary} {store : AuthStore} {token token' : String}
    {c : RefreshClaims} (h : refreshClaims lib store token = some c)
    (h' : refreshClaims lib' store token' = some c) :
    rotateRefresh lib store token = rotateRefresh lib' store token' := by
  simp only [rotateRefresh, verifyJwt_refresh_eq _ _ h, verifyJwt_refresh_eq _ _ h']

/-- A library that reads the claims of the example token in every text. -/
def briefLibrary : TokenLibrary where
  hmacSha256 _ _ := []
  parseJson _ := some (.object [("typ", .string "refresh+jwt"), ("alg", .string "HS256"),
    ("scope", .string "com.atproto.refresh"), ("aud", .string "did:web:pds.test"),
    ("sub", .string "did:plc:alice"), ("jti", .string (exampleJti 1)),
    ("iat", .number (.finite 1700000000)), ("exp", .number (.finite 1707776000))])
  wfBase64urlDecode _ := none

theorem brief_claims : refreshClaims briefLibrary exampleStore ".." =
    some (.signed (exampleJti 1) 1700000000 1707776000) := by
  decide +kernel

/-- What a call does, a rotation being of a brief token. -/
def briefProcedure : AuthCall → Sql (Option AuthResult)
  | .rotateRefresh _ => rotateRefresh briefLibrary exampleStore ".."
  | c => c.procedure exampleLibrary exampleStore

/-- The pools in which the example token is the one that is rotated. -/
theorem examplePool_eq_brief {run : List (Event AuthCall Env)}
    (hrun : ∀ i c, .start i c ∈ run → c ∈ [.totpActivate [] 7, .revokeAppPasswordSessions "phone",
      .rotateRefresh exampleToken]) :
    examplePool run =
      Machine.exec (Pool.step briefProcedure Connection.serve) (AuthPool.opened exampleTables)
        run := by
  refine Pool.exec_congr (fun i t ht => absurd ht (by simp [AuthPool.opened])) fun i c hc => ?_
  have hcall := hrun i c hc
  simp only [List.mem_cons, List.not_mem_nil, or_false] at hcall
  obtain rfl | rfl | rfl := hcall
  · rfl
  · rfl
  · rw [AuthCall.procedure, briefProcedure, rotateRefresh_congr exampleToken_claims brief_claims]

/-- The calls that the run begins, also where it goes on. -/
theorem starts_revokedInside {i : ℕ} {c : AuthCall} {n : ℕ}
    (h : .start i c ∈ revokedInside ++ List.replicate n (goAt 2 1700000010)) :
    c ∈ [.totpActivate [] 7, .revokeAppPasswordSessions "phone", .rotateRefresh exampleToken] := by
  simp only [revokedInside, goAt, List.mem_append, List.mem_cons, List.mem_replicate,
    Event.start.injEq, reduceCtorEq, List.not_mem_nil, and_false, false_or, or_false] at h
  obtain ⟨-, rfl⟩ | ⟨-, rfl⟩ | ⟨-, rfl⟩ := h <;> simp

theorem revokedInside_facts :
    ((examplePool revokedInside).returned 1).any (fun r => r.2.toOption.isSome) = true ∧
      phoneRevoked (examplePool revokedInside) = true ∧
      ((examplePool revokedInside).next 2).any ApiCall.ends = true ∧
      (examplePool revokedInside).shared.tx.map Tx.owner = some 0 ∧
      phoneRevoked (examplePool (revokedInside ++ [goAt 2 1700000010])) = false ∧
      (examplePool (revokedInside ++ [goAt 2 1700000010])).shared.journal = [] ∧
      ((examplePool (revokedInside ++ [goAt 2 1700000010])).shared.traces 1).kept =
        [(.revokeAppPassword "did:plc:alice" "phone", 1)] := by
  have hinside := examplePool_eq_brief fun i c (h : .start i c ∈ revokedInside) =>
    starts_revokedInside (n := 0) (List.mem_append_left _ h)
  have hafter := examplePool_eq_brief
    fun i c (h : .start i c ∈ revokedInside ++ [goAt 2 1700000010]) =>
      starts_revokedInside (n := 1) h
  rw [hinside, hafter]
  decide +kernel

theorem wrongCodeTried_returned : (examplePool wrongCodeTried).returned 0 =
    some (.totpConsumeBackup [9], .ok (.consumed true)) := rfl

theorem wrongCodeTried_journal : (examplePool wrongCodeTried).shared.journal =
    [⟨0, .consumeBackup [9], 0⟩, ⟨1, .consumeBackup [2], 1⟩] := by
  decide

/-- The `ROLLBACK` of a rotation that could not begin ends the transaction of another call and
undoes a revocation that has returned success, and a code that was never issued is accepted by the
count of another call's statement. -/
theorem unserialized_calls_disturb_each_other :
    (((examplePool revokedInside).returned 1).any (fun r => r.2.toOption.isSome) = true ∧
      phoneRevoked (examplePool revokedInside) = true ∧
      ¬ (examplePool revokedInside).EndsOwn (goAt 2 1700000010) ∧
      phoneRevoked (examplePool (revokedInside ++ [goAt 2 1700000010])) = false ∧
      ¬ (examplePool (revokedInside ++ [goAt 2 1700000010])).Undisturbed exampleLibrary
        exampleStore exampleTables) ∧
    [9] ∉ exampleTables.totp.backups ∧
      (examplePool wrongCodeTried).returned 0 =
        some (.totpConsumeBackup [9], .ok (.consumed true)) ∧
      ¬ (examplePool wrongCodeTried).Undisturbed exampleLibrary exampleStore exampleTables := by
  obtain ⟨hreturned, hrevoked, hnext, htx, hundone, hjournal, hkept⟩ := revokedInside_facts
  refine ⟨⟨hreturned, hrevoked, fun hends => ?_, hundone, fun h => ?_⟩, by decide,
    wrongCodeTried_returned, fun h => ?_⟩
  · obtain ⟨k, hk, hkends⟩ := (Option.any_eq_true ..).mp hnext
    obtain ⟨tx, htx, howner⟩ := Option.map_eq_some_iff.mp htx
    have := hends k tx hk hkends htx
    omega
  · have hown := h.kept 1
    rw [hjournal, hkept] at hown
    cases hown
  · obtain ⟨pre, post, t, hentry, -⟩ := h.code_accepted 0 [9] wrongCodeTried_returned
    rw [wrongCodeTried_journal] at hentry
    have hmem : (⟨0, .consumeBackup [9], 1⟩ : Entry) ∈
        pre ++ ⟨0, .consumeBackup [9], 1⟩ :: post := by simp
    rw [← hentry] at hmem
    revert hmem
    decide

/-! ## Calls that are -/

/-- Whether a call begins a transaction. -/
def ApiCall.begins : ApiCall → Bool
  | .beginImmediate => true
  | _ => false

/-- Whether it steps a statement that writes. -/
def ApiCall.writes : ApiCall → Bool
  | .write _ => true
  | _ => false

/-- Whether it reads the counter of changes. -/
def ApiCall.reads : ApiCall → Bool
  | .changes => true
  | _ => false

/-- The thread of an event. -/
def threadOf : Event AuthCall Env → ℕ
  | .start i _ => i
  | .go i _ => i

/-- The test of an event, where all threads are below `n`. -/
def AuthPool.serializedBelow (n : ℕ) (s : AuthPool) : Event AuthCall Env → Bool
  | .start _ _ => true
  | .go i e =>
    (!(s.next i).any ApiCall.begins || !(s.threads i).any (·.called.rotates) ||
      s.shared.tx.isNone && e.carried) &&
    (!(s.next i).any ApiCall.writes || s.shared.tx.all (·.owner == i) &&
      (List.range n).all fun j => j == i || !(s.next j).any ApiCall.reads)

/-- The test of a run. -/
def AuthPool.serializedRun (lib : TokenLibrary) (store : AuthStore) (n : ℕ) :
    AuthPool → List (Event AuthCall Env) → Bool
  | _, [] => true
  | s, ev :: run => decide (threadOf ev < n) && s.serializedBelow n ev &&
    serializedRun lib store n (s.step lib store ev) run

theorem AuthPool.serialized_of_below {n : ℕ} {s : AuthPool} {ev : Event AuthCall Env}
    (hidle : ∀ j, n ≤ j → s.threads j = none) (h : s.serializedBelow n ev = true) :
    s.Serialized ev := by
  cases ev with
  | start i c => trivial
  | go i e =>
    simp only [AuthPool.serializedBelow, Bool.and_eq_true, Bool.or_eq_true, Bool.not_eq_true',
      List.all_eq_true, List.mem_range, beq_iff_eq] at h
    obtain ⟨hbegin, hwrite⟩ := h
    refine ⟨fun hnext ⟨t, ht, hrotates⟩ => ?_, fun w hnext => ?_⟩
    · rcases hbegin with (hno | hno) | ⟨htx, hcarried⟩
      · rw [hnext] at hno
        cases hno
      · rw [ht, Option.any_some, hrotates] at hno
        cases hno
      · exact ⟨Option.isNone_iff_eq_none.mp htx, hcarried⟩
    · rcases hwrite with hno | ⟨htx, hreads⟩
      · rw [hnext] at hno
        cases hno
      · refine ⟨fun tx heq => ?_, fun j hj heq => ?_⟩
        · rw [heq] at htx
          exact beq_iff_eq.mp htx
        · by_cases hjn : j < n
          · rcases hreads j hjn with hji | hno
            · exact hj hji
            · rw [heq] at hno
              cases hno
          · rw [Pool.next, hidle j (Nat.le_of_not_lt hjn)] at heq
            cases heq

/-- A thread that has no event stays as it is. -/
theorem AuthPool.threads_step_of_ne {lib : TokenLibrary} {store : AuthStore} {s : AuthPool}
    {ev : Event AuthCall Env} {j : ℕ} (hj : j ≠ threadOf ev) :
    (s.step lib store ev).threads j = s.threads j := by
  obtain heq | ⟨i, c, rfl, -, heq⟩ | ⟨i, e, c, rfl, -, heq⟩ | ⟨i, e, c, k, next, rfl, -, heq⟩ :=
    Pool.step_cases (AuthCall.procedure lib store) Connection.serve s ev
  · rw [AuthPool.step, heq]
  · rw [AuthPool.step, heq]
    exact Function.update_of_ne hj ..
  · rw [AuthPool.step, heq]
    exact Function.update_of_ne hj ..
  · rw [AuthPool.step, heq]
    exact Function.update_of_ne hj ..

/-- A run that passes the test is serialized in every step. -/
theorem AuthPool.steps_serialized {lib : TokenLibrary} {store : AuthStore} {n : ℕ}
    {run : List (Event AuthCall Env)} {s : AuthPool} (hidle : ∀ j, n ≤ j → s.threads j = none)
    (h : serializedRun lib store n s run = true) :
    Steps (AuthPool.step lib store) AuthPool.Serialized s run := by
  induction run generalizing s with
  | nil => trivial
  | cons ev run ih =>
    simp only [serializedRun, Bool.and_eq_true, decide_eq_true_eq] at h
    obtain ⟨⟨hthread, htest⟩, hrest⟩ := h
    refine ⟨serialized_of_below hidle htest, ih (fun j hj => ?_) hrest⟩
    rw [threads_step_of_ne (Nat.ne_of_gt (hthread.trans_le hj))]
    exact hidle j hj

/-- A backup code is used while the secret is activated with a new code, and a step is tried: the
transaction begins between the statement and the verdict of the first call, and the third call
prepares its statement inside it. -/
def threeCalls : List (Event AuthCall Env) :=
  [.start 0 (.totpConsumeBackup [2]), .start 1 (.totpActivate [[5]] 7), goAt 0 0, goAt 0 0,
    goAt 1 0, goAt 1 0, goAt 0 0, goAt 1 0, goAt 1 0, .start 2 (.totpUseStep 9), goAt 2 0,
    goAt 1 0, goAt 1 0, goAt 1 0, goAt 1 0, goAt 2 0, goAt 2 0]

/-- All three calls succeed, and none disturbs another. -/
theorem three_calls_undisturbed :
    (examplePool threeCalls).returned 0 = some (.totpConsumeBackup [2], .ok (.consumed true)) ∧
      (examplePool threeCalls).returned 1 = some (.totpActivate [[5]] 7, .ok .done) ∧
      (examplePool threeCalls).returned 2 = some (.totpUseStep 9, .ok (.recorded true)) ∧
      States (AuthPool.step exampleLibrary exampleStore)
        (AuthPool.Undisturbed exampleLibrary exampleStore exampleTables) (.opened exampleTables)
        threeCalls :=
  ⟨rfl, rfl, rfl, (undisturbed_of_serialized exampleLibrary exampleStore exampleTables threeCalls
    (AuthPool.steps_serialized (n := 3) (fun _ _ => rfl) (by decide +kernel))).1⟩

end MetalBear.OAuth.Shared
