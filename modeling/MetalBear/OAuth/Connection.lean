import MetalBear.Library.Procedure
import MetalBear.OAuth.Refresh
import MetalBear.TwoFactor.Tables

/-!
# Calls on the shared auth database

The calls of the auth store, one call of SQLite at a time. All of them use the one connection of
the store: a transaction belongs to the connection and not to the call that began it, and so does
the counter of `sqlite3_changes`. Beside what the connection holds the model keeps a journal of the
statements in effect and, for each call, what it has carried out and has not rolled back itself.
-/

namespace MetalBear.OAuth.Shared

open TwoFactor

/-! ## The tables and the statements that write -/

/-- The tables that the calls write. -/
structure Tables where
  refresh : List (String × RefreshRow)
  totp : TotpTables

/-- The statements that write. -/
inductive Write where
  | pruneExpired (now : Int)
  | nameSuccessor (jti next : String) (grace : Int)
  | insertRefresh (jti : String) (row : RefreshRow)
  | revoke (jti did : String)
  | revokeAppPassword (did appPasswordName : String)
  | activateSecret (step : Int)
  | clearBackups
  | insertBackup (hash : CodeHash)
  | useStep (step : Int)
  | consumeBackup (hash : CodeHash)
  deriving DecidableEq

/-- `UPDATE refresh_token SET ... WHERE`. -/
def Tables.updateRefresh (t : Tables) (p : String → RefreshRow → Bool)
    (f : RefreshRow → RefreshRow) : Tables × Nat :=
  ({ t with refresh := t.refresh.map fun r => if p r.1 r.2 then (r.1, f r.2) else r },
    t.refresh.countP fun r => p r.1 r.2)

/-- The tables of two-factor login after a statement. -/
def Tables.withTotp (t : Tables) (r : TotpTables × Nat) : Tables × Nat :=
  ({ t with totp := r.1 }, r.2)

/-- A statement that is carried out: the tables after it and the number of rows that it changed.
A primary key refuses a row that is there. -/
def Write.run (t : Tables) : Write → Option (Tables × Nat)
  | pruneExpired now =>
    some ({ t with refresh := t.refresh.filter fun r => !r.2.pruned now },
      t.refresh.countP fun r => r.2.pruned now)
  | nameSuccessor jti next grace =>
    some (t.updateRefresh (unrotated jti)
      fun r => { r with nextJti := some next, graceExpiresAt := some grace })
  | insertRefresh jti row =>
    if jti ∈ t.refresh.map Prod.fst then none
    else some ({ t with refresh := t.refresh ++ [(jti, row)] }, 1)
  | revoke jti did =>
    some (t.updateRefresh (fun k r => k = jti && r.did = did) fun r => { r with revoked := true })
  | revokeAppPassword did appPasswordName =>
    some (t.updateRefresh (fun _ r => r.did = did && r.appPasswordName = some appPasswordName)
      fun r => { r with revoked := true })
  | activateSecret step => some (t.withTotp (t.totp.activate step))
  | clearBackups => some (t.withTotp t.totp.clearBackups)
  | insertBackup hash => (t.totp.insertBackup hash).map t.withTotp
  | useStep step => some (t.withTotp (t.totp.useStep step))
  | consumeBackup hash => some (t.withTotp (t.totp.consumeBackup hash))

/-! ## The connection -/

/-- What a call asks for: SQLite, the clock, the generator and the signing of tokens. -/
inductive ApiCall where
  | time
  | randomJti
  | createJwts
  | prepare
  | select (jti : String) (p : RefreshRow → Bool)
  | beginImmediate
  | commit
  | rollback
  | write (w : Write)
  | changes

/-- What a call is answered. -/
abbrev ApiCall.Answer : ApiCall → Type
  | time => Int
  | randomJti => Option String
  | createJwts => Bool
  | prepare => Bool
  | select _ _ => Option RefreshRow
  | beginImmediate => Bool
  | commit => Bool
  | rollback => Bool
  | write _ => Bool
  | changes => Nat

/-- What the environment makes of a call: whether it is carried out, the clock, the random id. -/
structure Env where
  carried : Bool
  clock : Int
  id : Option String

/-- The open transaction: the call that began it, the tables then and the journal then. -/
structure Tx where
  owner : ℕ
  saved : Tables
  mark : ℕ

/-- A statement in effect: the call that stepped it and the number of rows that it changed. -/
structure Entry where
  owner : ℕ
  write : Write
  count : Nat
  deriving DecidableEq

/-- What a call itself has carried out: its statements that it has not rolled back, those that it
had when it began the transaction that it is in, and the count of the statement that it has just
stepped. -/
structure Trace where
  kept : List (Write × Nat)
  began : Option (List (Write × Nat))
  count : Option Nat

/-- The trace of a call that has carried out nothing. -/
def Trace.empty : Trace := ⟨[], none, none⟩

/-- The connection, with the journal and the traces. -/
structure Connection where
  tables : Tables
  tx : Option Tx
  changes : Nat
  journal : List Entry
  traces : ℕ → Trace

/-- The connection with the trace of one call moved on. -/
def Connection.traced (s : Connection) (i : ℕ) (f : Trace → Trace) : Connection :=
  { s with traces := Function.update s.traces i (f (s.traces i)) }

/-- The trace after a call that steps no statement. -/
def Trace.passed (t : Trace) : Trace := { t with count := none }

/-- The trace after a statement that was carried out. -/
def Trace.wrote (w : Write) (n : Nat) (t : Trace) : Trace :=
  { t with kept := t.kept ++ [(w, n)], count := some n }

/-- The trace after a `BEGIN` that was carried out. -/
def Trace.begun (t : Trace) : Trace := { t with began := some t.kept, count := none }

/-- The trace after a `COMMIT` that was carried out. -/
def Trace.committed (t : Trace) : Trace := { t with began := none, count := none }

/-- The trace after a `ROLLBACK`. -/
def Trace.rolledBack (t : Trace) : Trace := ⟨t.began.getD t.kept, none, none⟩

/-- `BEGIN IMMEDIATE`, which is refused while a transaction is open. -/
def Connection.beginImmediate (s : Connection) (i : ℕ) (carried : Bool) : Connection × Bool :=
  if s.tx.isNone = true ∧ carried = true then
    let begun : Connection := { s with tx := some ⟨i, s.tables, s.journal.length⟩ }
    (begun.traced i Trace.begun, true)
  else (s.traced i Trace.passed, false)

/-- `COMMIT`, which is refused while no transaction is open. -/
def Connection.commit (s : Connection) (i : ℕ) (carried : Bool) : Connection × Bool :=
  if s.tx.isSome = true ∧ carried = true then
    let committed : Connection := { s with tx := none }
    (committed.traced i Trace.committed, true)
  else (s.traced i Trace.passed, false)

/-- `ROLLBACK`, which is refused while no transaction is open. -/
def Connection.rollback (s : Connection) (i : ℕ) : Connection × Bool :=
  match s.tx with
  | none => (s.traced i Trace.rolledBack, false)
  | some tx =>
    let restored : Connection :=
      { s with tables := tx.saved, tx := none, journal := s.journal.take tx.mark }
    (restored.traced i Trace.rolledBack, true)

/-- `sqlite3_step` of a statement that writes. -/
def Connection.write (s : Connection) (i : ℕ) (carried : Bool) (w : Write) : Connection × Bool :=
  match (if carried then w.run s.tables else none) with
  | none => (s.traced i Trace.passed, false)
  | some (tables, n) =>
    let written : Connection :=
      { s with tables, changes := n, journal := s.journal ++ [⟨i, w, n⟩] }
    (written.traced i (Trace.wrote w n), true)

/-- One call on the connection. -/
def Connection.serve (s : Connection) (i : ℕ) (e : Env) : (k : ApiCall) → Connection × k.Answer
  | .time => (s.traced i Trace.passed, e.clock)
  | .randomJti => (s.traced i Trace.passed, e.id)
  | .createJwts => (s.traced i Trace.passed, e.carried)
  | .prepare => (s.traced i Trace.passed, e.carried)
  | .select jti p =>
    (s.traced i Trace.passed,
      if e.carried then (s.tables.refresh.find? fun r => r.1 = jti && p r.2).map Prod.snd else none)
  | .beginImmediate => s.beginImmediate i e.carried
  | .commit => s.commit i e.carried
  | .rollback => s.rollback i
  | .write w => s.write i e.carried w
  | .changes => (s.traced i Trace.passed, s.changes)

/-! ## The calls of the store -/

/-- A procedure on the connection. -/
abbrev Sql := Procedure ApiCall ApiCall.Answer

/-- `time`. -/
def time : Sql Int := .call .time .ret

/-- `random_jti`. -/
def randomJti : Sql (Option String) := .call .randomJti .ret

/-- The two calls of `create_jwt`. -/
def createJwts : Sql Bool := .call .createJwts .ret

/-- `sqlite3_prepare_v2`. -/
def prepare : Sql Bool := .call .prepare .ret

/-- `sqlite3_step` of a `SELECT` that names a `jti`. -/
def select (jti : String) (p : RefreshRow → Bool) : Sql (Option RefreshRow) :=
  .call (.select jti p) .ret

/-- `BEGIN IMMEDIATE`. -/
def beginImmediate : Sql Bool := .call .beginImmediate .ret

/-- `COMMIT`. -/
def commit : Sql Bool := .call .commit .ret

/-- `ROLLBACK`. -/
def rollback : Sql Bool := .call .rollback .ret

/-- `sqlite3_step` of a statement that writes. -/
def write (w : Write) : Sql Bool := .call (.write w) .ret

/-- `sqlite3_changes`. -/
def changes : Sql Nat := .call .changes .ret

/-- What a call of the store returns when it succeeds. -/
inductive AuthAnswer where
  | done
  | tokens (out : SessionTokens)
  | recorded (b : Bool)
  | consumed (b : Bool)

/-- What a call of the store returns. -/
abbrev AuthResult := Except WfError AuthAnswer

/-- `prune_expired_refreshes`. -/
def pruneExpiredRefreshes (now : Int) : Sql Unit := do
  if ← prepare then
    let _ ← write (.pruneExpired now)
    return ()
  else return ()

/-- `persist_refresh`. -/
def persistRefresh (store : AuthStore) (jti : String) (expiresAt : Int) (scope : AccessScope)
    (appPasswordName : Option String) : Sql Bool := do
  if ← prepare then
    write (.insertRefresh jti
      ⟨store.accountDid, expiresAt, none, none, false, scope, appPasswordName⟩)
  else return false

/-- `issue_pair`. -/
def issuePair (jti : String) (refreshExpiry : Int) (scope : AccessScope) :
    Sql (Option AuthResult) := do
  let now ← time
  if ← createJwts then
    return some (.ok (.tokens (OAuth.issuePair now jti refreshExpiry scope)))
  else return some (.error .crypto)

/-- `ROLLBACK` on the way to a result. -/
def rollbackWith (result : Option AuthResult) : Sql (Option AuthResult) := do
  let _ ← rollback
  return result

/-- The transaction that establishes the successor of a token. -/
def mintSuccessor (store : AuthStore) (jti : String) (row : RefreshRow) (now : Int) :
    Sql (Option AuthResult) := do
  match ← randomJti with
  | none => return some (.error .crypto)
  | some next =>
    let grace := min (now + refreshGraceSeconds) row.expiresAt
    let nextExpiry := now + refreshLifetimeSeconds
    if ← beginImmediate then
      if ← prepare then
        let done ← write (.nameSuccessor jti next grace)
        let changed ← changes
        if done then
          -- A concurrent refresh established the successor: the call begins again.
          if changed = 0 then rollbackWith none
          else if ← persistRefresh store next nextExpiry row.accessScope row.appPasswordName then
            if ← commit then issuePair next nextExpiry row.accessScope
            else rollbackWith (some (.error .internal))
          else rollbackWith (some (.error .internal))
        else rollbackWith (some (.error .internal))
      else rollbackWith (some (.error .internal))
    else rollbackWith (some (.error .internal))

/-- The successor that an earlier rotation established. -/
def reuseSuccessor (next : String) : Sql (Option AuthResult) := do
  if ← prepare then
    match ← select next (fun row => !row.revoked) with
    | none => return some (.error .permission)
    | some row => issuePair next row.expiresAt row.accessScope
  else return some (.error .internal)

/-- `metalbear_auth_rotate_refresh`; no result is its call of itself. -/
def rotateRefresh (lib : TokenLibrary) (store : AuthStore) (token : String) :
    Sql (Option AuthResult) := do
  let now ← time
  match verifyJwt lib store now token .refresh false with
  | .error e => return some (.error e)
  | .ok verified =>
    let jti := verified.jti.getD ""
    let now ← time
    pruneExpiredRefreshes now
    if ← prepare then
      match ← select jti (fun row => row.did = store.accountDid) with
      | none => return some (.error .permission)
      | some row =>
        let now ← time
        if row.refused now then return some (.error .permission)
        else
          match row.nextJti with
          | none => mintSuccessor store jti row now
          | some next => reuseSuccessor next
    else return some (.error .internal)

/-- `metalbear_auth_revoke_refresh`. -/
def revokeRefresh (lib : TokenLibrary) (store : AuthStore) (token : String) :
    Sql (Option AuthResult) := do
  let now ← time
  match verifyJwt lib store now token .refresh true with
  | .error e => return some (.error e)
  | .ok verified =>
    if ← prepare then
      let done ← write (.revoke (verified.jti.getD "") store.accountDid)
      let changed ← changes
      if done && changed == 1 then return some (.ok .done)
      else return some (.error .permission)
    else return some (.error .internal)

/-- `metalbear_auth_revoke_app_password_sessions`. -/
def revokeAppPasswordSessions (store : AuthStore) (appPasswordName : String) :
    Sql (Option AuthResult) := do
  if appPasswordName = "" then return some (.error .invalidArg)
  else if ← prepare then
    if ← write (.revokeAppPassword store.accountDid appPasswordName) then
      return some (.ok .done)
    else return some (.error .internal)
  else return some (.error .internal)

/-- The first statement of `metalbear_auth_totp_activate`. -/
def activateSecret (step : Int) : Sql (Except WfError Unit) := do
  if ← prepare then
    if ← write (.activateSecret step) then
      let changed ← changes
      if changed = 1 then return .ok () else return .error .conflict
    else return .error .internal
  else return .error .internal

/-- The loop of `metalbear_auth_totp_activate` over the hashes. -/
def insertBackups : List CodeHash → Sql Bool
  | [] => return true
  | hash :: hashes => do
    if ← write (.insertBackup hash) then insertBackups hashes else return false

/-- The rest of `metalbear_auth_totp_activate`, less its `COMMIT`. -/
def replaceBackups (hashes : List CodeHash) : Sql Bool := do
  if ← write .clearBackups then
    if ← prepare then insertBackups hashes else return false
  else return false

/-- `metalbear_auth_totp_activate`. -/
def totpActivate (hashes : List CodeHash) (step : Int) : Sql (Option AuthResult) := do
  if ← beginImmediate then
    match ← activateSecret step with
    | .error e => rollbackWith (some (.error e))
    | .ok () =>
      if ← replaceBackups hashes then
        if ← commit then return some (.ok .done)
        else rollbackWith (some (.error .internal))
      else rollbackWith (some (.error .internal))
  else return some (.error .internal)

/-- `metalbear_auth_totp_use_step`. -/
def totpUseStep (step : Int) : Sql (Option AuthResult) := do
  if ← prepare then
    let done ← write (.useStep step)
    let changed ← changes
    if done then return some (.ok (.recorded (changed == 1)))
    else return some (.error .internal)
  else return some (.error .internal)

/-- `metalbear_auth_totp_consume_backup`. -/
def totpConsumeBackup (hash : CodeHash) : Sql (Option AuthResult) := do
  if ← prepare then
    let done ← write (.consumeBackup hash)
    let changed ← changes
    if done then return some (.ok (.consumed (changed == 1)))
    else return some (.error .internal)
  else return some (.error .internal)

/-- The calls that share the connection. -/
inductive AuthCall where
  | rotateRefresh (token : String)
  | revokeRefresh (token : String)
  | revokeAppPasswordSessions (appPasswordName : String)
  | totpActivate (hashes : List CodeHash) (step : Int)
  | totpUseStep (step : Int)
  | totpConsumeBackup (hash : CodeHash)

/-- What a call does. -/
def AuthCall.procedure (lib : TokenLibrary) (store : AuthStore) :
    AuthCall → Sql (Option AuthResult)
  | rotateRefresh token => Shared.rotateRefresh lib store token
  | revokeRefresh token => Shared.revokeRefresh lib store token
  | revokeAppPasswordSessions name => Shared.revokeAppPasswordSessions store name
  | totpActivate hashes step => Shared.totpActivate hashes step
  | totpUseStep step => Shared.totpUseStep step
  | totpConsumeBackup hash => Shared.totpConsumeBackup hash

/-- The calls under way on one connection. -/
abbrev AuthPool := Pool Connection ApiCall ApiCall.Answer AuthCall AuthResult

/-- The pool before any call, over a database with these tables. -/
def AuthPool.opened (tables : Tables) : AuthPool :=
  ⟨⟨tables, none, 0, [], fun _ => .empty⟩, fun _ => none⟩

/-- One event of the pool. -/
def AuthPool.step (lib : TokenLibrary) (store : AuthStore) (s : AuthPool)
    (ev : Event AuthCall Env) : AuthPool :=
  Pool.step (AuthCall.procedure lib store) Connection.serve s ev

end MetalBear.OAuth.Shared
