import MetalBear.Library.Machine
import MetalBear.OAuth.RefreshChain
import MetalBear.Session.Login

/-!
# Revoking an app password

A login with an app password checks the password in one transaction and adds the row of its session
in another; a revocation deletes the password in one and revokes the sessions in another. The run
lets these steps come in any order, with refreshes among them. The revocation is final unless a
login adds its session after the sessions of its app password were revoked.
-/

namespace MetalBear.Session

open Account OAuth Machine KeyTable
open MetalBear.Sync (XrpcError)

/-! ## The run -/

/-- A login between its two transactions; `overtaken` tells that the sessions of its app password
were revoked since its password was checked. -/
structure PendingLogin where
  grant : LoginGrant
  overtaken : Bool

/-- A revocation, after its first transaction or after both. -/
structure Revocation where
  name : String
  completed : Bool
  deriving DecidableEq

/-- The stores of an account, the logins that are under way and the revocations. -/
structure SessionRun where
  credentials : CredentialTables
  table : RefreshTable
  logins : ℕ → Option PendingLogin
  revocations : ℕ → Option Revocation

/-- The steps: those of a login, those of a revocation, and the calls on a refresh token. -/
inductive SessionStep where
  /-- `create_session` checks the credential; the flag is what the second factor comes to. -/
  | checkLogin (i : ℕ) (params : Option Json) (env : LoginEnv) (factorPassed : Bool)
  /-- `create_session` calls `metalbear_auth_create_scoped_session`. -/
  | openSession (i : ℕ) (env : CreateEnv)
  /-- `revoke_app_password` calls `metalbear_account_revoke_app_password`. -/
  | deletePassword (r : ℕ) (name : String) (carried : Bool)
  /-- `revoke_app_password` calls `metalbear_auth_revoke_app_password_sessions`. -/
  | revokeSessions (r : ℕ) (carried : Bool)
  | rotateRefresh (token : String) (envs : List RotateEnv)
  | revokeRefresh (token : String) (now : Int)

/-- The logins that the revocation of a name overtakes. -/
def overtake (name : String) (logins : ℕ → Option PendingLogin) : ℕ → Option PendingLogin :=
  fun i => (logins i).map fun l =>
    if l.grant.appPasswordName = some name then { l with overtaken := true } else l

/-- One step. -/
def SessionRun.step (derive : DerivePassword) (lib : TokenLibrary) (store : AuthStore)
    (s : SessionRun) : SessionStep → SessionRun
  | .checkLogin i params env factorPassed =>
    match checkLogin derive s.credentials env params with
    | .error _ => s
    | .ok grant =>
      if grant.credential = .account ∧ factorPassed = false then s
      else { s with logins := Function.update s.logins i (some ⟨grant, false⟩) }
  | .openSession i env =>
    match s.logins i with
    | none => s
    | some l =>
      { s with
        table := (createScopedSession store s.table l.grant.scope l.grant.appPasswordName env).1
        logins := Function.update s.logins i none }
  | .deletePassword r name carried =>
    if name = "" ∨ carried = false then s
    else
      { s with
        credentials := s.credentials.revokeAppPassword name
        revocations := Function.update s.revocations r (some ⟨name, false⟩) }
  | .revokeSessions r carried =>
    match s.revocations r with
    | none => s
    | some ⟨name, _⟩ =>
      if carried = true then
        { s with
          table := (revokeAppPasswordSessions store s.table name).1
          logins := overtake name s.logins
          revocations := Function.update s.revocations r (some ⟨name, true⟩) }
      else { s with revocations := Function.update s.revocations r none }
  | .rotateRefresh token envs =>
    match OAuth.rotateRefresh lib store s.table token envs with
    | none => s
    | some (table, _) => { s with table }
  | .revokeRefresh token now =>
    { s with table := (OAuth.revokeRefresh lib store s.table token now).1 }

/-- No login and no revocation is under way. -/
def SessionRun.Idle (s : SessionRun) : Prop :=
  (∀ i, s.logins i = none) ∧ ∀ r, s.revocations r = none

/-- A token that was issued under the name of an app password, by the row of its id. -/
def IssuedUnder (lib : TokenLibrary) (store : AuthStore) (t : RefreshTable) (name token : String) :
    Prop :=
  ∃ c row, refreshClaims lib store token = some c ∧ t c.jti = some row ∧
    row.appPasswordName = some name

/-- Once a revocation has completed, no token issued under its name is accepted. -/
def SessionRun.RevocationFinal (lib : TokenLibrary) (store : AuthStore) (s : SessionRun) : Prop :=
  ∀ r name, s.revocations r = some ⟨name, true⟩ → ∀ token, IssuedUnder lib store s.table name token →
    ∀ envs t tokens, OAuth.rotateRefresh lib store s.table token envs ≠ some (t, .ok tokens)

/-- A login adds its session before the sessions of its app password are revoked; on an account
that is taken down it adds none. -/
def SessionRun.InTime (s : SessionRun) : SessionStep → Prop
  | .openSession i _ => ∀ l, s.logins i = some l → l.grant.takenDown = false → l.overtaken = false
  | _ => True

/-! ## Sessions that are all revoked -/

/-- Every session under the name is revoked. -/
def RevokedUnder (store : AuthStore) (name : String) (t : RefreshTable) : Prop :=
  ∀ k row, t k = some row → row.did = store.accountDid → row.appPasswordName = some name →
    row.revoked = true

section Tables

variable {lib : TokenLibrary} {store : AuthStore} {name : String} {t t' : RefreshTable}

theorem RevokedUnder.prune (h : RevokedUnder store name t) (now : Int) :
    RevokedUnder store name (pruneExpiredRefreshes t now) :=
  fun k row hrow => h k row (pruneExpiredRefreshes_eq_some.mp hrow).1

/-- An update that keeps the owner and the name of a row and does not restore it. -/
theorem RevokedUnder.updateWhere {p : String → RefreshRow → Bool} {f : RefreshRow → RefreshRow}
    (h : RevokedUnder store name t) (hdid : ∀ r, (f r).did = r.did)
    (hname : ∀ r, (f r).appPasswordName = r.appPasswordName)
    (hrevoked : ∀ r, r.revoked = true → (f r).revoked = true) :
    RevokedUnder store name (t.updateWhere p f) := by
  intro k row hrow howner hunder
  obtain ⟨q, hq, hqrow⟩ := updateWhere_eq_some.mp hrow
  split at hqrow
  · subst hqrow
    exact hrevoked q (h k q hq ((hdid q).symm.trans howner) ((hname q).symm.trans hunder))
  · subst hqrow
    exact h k q hq howner hunder

theorem RevokedUnder.persist {jti : String} {expiresAt : Int} {scope : AccessScope}
    {other : Option String} (h : RevokedUnder store name t) (hne : other ≠ some name)
    (hpersist : persistRefresh store t jti expiresAt scope other = some t') :
    RevokedUnder store name t' := by
  rw [persistRefresh, KeyTable.insert] at hpersist
  split at hpersist
  · cases hpersist
    intro k row hrow howner hunder
    obtain ⟨-, rfl⟩ | ⟨-, hold⟩ := update_eq_some.mp hrow
    · exact absurd hunder hne
    · exact h k row hold howner hunder
  · cases hpersist

theorem RevokedUnder.create {scope : AccessScope} {other : Option String} {env : CreateEnv}
    (h : RevokedUnder store name t) (hne : other ≠ some name) :
    RevokedUnder store name (createScopedSession store t scope other env).1 := by
  rw [createScopedSession]
  split
  · exact h
  · dsimp only
    split
    · exact h.prune _
    · split
      · exact h.prune _
      · rename_i hpersist
        exact (h.prune _).persist hne hpersist

/-- A session of an account that is taken down has no row. -/
theorem RevokedUnder.create_takendown (h : RevokedUnder store name t) (other : Option String)
    (env : CreateEnv) :
    RevokedUnder store name (createScopedSession store t .takendown other env).1 := by
  rw [createScopedSession, if_neg fun hscope => hscope.2.1 rfl]
  exact h.prune _

theorem RevokedUnder.revoke (h : RevokedUnder store name t) (token : String) (now : Int) :
    RevokedUnder store name (OAuth.revokeRefresh lib store t token now).1 := by
  rw [OAuth.revokeRefresh]
  split
  · exact h
  · exact h.updateWhere (fun _ => rfl) (fun _ => rfl) fun _ _ => rfl

theorem RevokedUnder.revokeAppPassword (h : RevokedUnder store name t) (other : String) :
    RevokedUnder store name (revokeAppPasswordSessions store t other).1 := by
  rw [revokeAppPasswordSessions]
  split
  · exact h
  · exact h.updateWhere (fun _ => rfl) (fun _ => rfl) fun _ _ => rfl

/-- `metalbear_auth_revoke_app_password_sessions` revokes every session under the name. -/
theorem revokedUnder_revokeAppPassword (hname : name ≠ "") :
    RevokedUnder store name (revokeAppPasswordSessions store t name).1 := by
  rw [revokeAppPasswordSessions, if_neg hname]
  dsimp only
  intro k row hrow howner hunder
  obtain ⟨q, hq, hqrow⟩ := updateWhere_eq_some.mp hrow
  split at hqrow
  · subst hqrow
    rfl
  · rename_i hother
    subst hqrow
    simp [howner, hunder] at hother

/-- The row that an attempt goes on with is not revoked, so it is not under the name. -/
theorem RevokedUnder.name_ne {k : String} {row : RefreshRow} {now : Int}
    (h : RevokedUnder store name t) (hrow : t k = some row) (howner : row.did = store.accountDid)
    (hlive : row.refused now = false) : row.appPasswordName ≠ some name := by
  intro hunder
  have hrevoked := h k row hrow howner hunder
  rw [(RefreshRow.not_refused hlive).1] at hrevoked
  cases hrevoked

/-- The table of an attempt that ended. -/
def attemptTable : Attempt → RefreshTable
  | .again t => t
  | .done t _ => t

theorem RevokedUnder.attempt {token : String} {env : RotateEnv} (h : RevokedUnder store name t) :
    RevokedUnder store name (attemptTable (rotateAttempt lib store t token env)) := by
  rw [rotateAttempt]
  split
  · exact h
  · rename_i verified hverified
    have hpruned := h.prune env.prune
    dsimp only
    split
    · exact hpruned
    · rename_i row hrow
      obtain ⟨hselected, howner⟩ := Option.filter_eq_some_iff.mp hrow
      split
      · exact hpruned
      · rename_i hlive
        have hne := hpruned.name_ne hselected (of_decide_eq_true howner)
          (Bool.not_eq_true _ ▸ hlive)
        split
        · rw [mintSuccessor]
          dsimp only
          split
          · exact hpruned
          · have hmarked := hpruned.updateWhere (p := unrotated (verified.jti.getD ""))
              (f := fun r => { r with
                nextJti := some env.jti
                graceExpiresAt := some (min (env.check + refreshGraceSeconds) row.expiresAt) })
              (fun _ => rfl) (fun _ => rfl) fun _ hr => hr
            split
            · exact hpruned
            · rename_i hpersist
              exact hmarked.persist hne hpersist
        · exact hpruned

theorem RevokedUnder.rotate {token : String} {envs : List RotateEnv} {result : Issued}
    (h : RevokedUnder store name t)
    (hrotate : OAuth.rotateRefresh lib store t token envs = some (t', result)) :
    RevokedUnder store name t' := by
  induction envs generalizing t with
  | nil => cases hrotate
  | cons env more ih =>
    have hattempt : RevokedUnder store name (attemptTable (rotateAttempt lib store t token env)) :=
      h.attempt
    rw [OAuth.rotateRefresh] at hrotate
    cases hstep : rotateAttempt lib store t token env with
    | done t₁ r =>
      rw [hstep] at hrotate hattempt
      cases hrotate
      exact hattempt
    | again t₁ =>
      rw [hstep] at hrotate hattempt
      exact ih hattempt hrotate

/-- A token under a name whose sessions are all revoked is refused. -/
theorem RevokedUnder.refuses {token : String} {envs : List RotateEnv} {tokens : SessionTokens}
    (h : RevokedUnder store name t) (hissued : IssuedUnder lib store t name token) :
    OAuth.rotateRefresh lib store t token envs ≠ some (t', .ok tokens) := by
  obtain ⟨c, row, hclaims, hrow, hunder⟩ := hissued
  cases envs with
  | nil => simp [OAuth.rotateRefresh]
  | cons env more =>
    rw [OAuth.rotateRefresh, rotateAttempt]
    cases hverify : verifyJwt lib store env.verify token .refresh false with
    | error e => simp
    | ok verified =>
      obtain ⟨c', hclaims', -, rfl⟩ := verifyJwt_refresh_eq_ok_iff.mp hverify
      rw [hclaims] at hclaims'
      obtain rfl := Option.some.inj hclaims'
      simp only [Option.getD_some]
      cases hselect : (pruneExpiredRefreshes t env.prune c.jti).filter
          fun row => row.did = store.accountDid with
      | none => simp
      | some r =>
        obtain ⟨hpruned, howner⟩ := Option.filter_eq_some_iff.mp hselect
        have hsame := (pruneExpiredRefreshes_eq_some.mp hpruned).1
        rw [hrow] at hsame
        obtain rfl := Option.some.inj hsame
        have hrevoked := h c.jti row hrow (of_decide_eq_true howner) hunder
        have hrefused : row.refused env.check = true := by simp [RefreshRow.refused, hrevoked]
        simp [hrefused]

end Tables

/-! ## Runs -/

/-- What steps in time maintain. -/
structure SessionRun.Inv (store : AuthStore) (s : SessionRun) : Prop where
  deleted : ∀ r n b, s.revocations r = some ⟨n, b⟩ →
    n ≠ "" ∧ ∀ row ∈ s.credentials.appPasswords, row.name ≠ n
  revoked : ∀ r n, s.revocations r = some ⟨n, true⟩ → RevokedUnder store n s.table
  pending : ∀ i l, s.logins i = some l → l.overtaken = false →
    ∀ r n, s.revocations r = some ⟨n, true⟩ → l.grant.appPasswordName ≠ some n

section Runs

variable {derive : DerivePassword} {lib : TokenLibrary} {store : AuthStore} {s : SessionRun}

theorem SessionRun.Inv.of_idle (h : s.Idle) : s.Inv store where
  deleted := fun r n b hr => by rw [h.2 r] at hr; cases hr
  revoked := fun r n hr => by rw [h.2 r] at hr; cases hr
  pending := fun i l hl => by rw [h.1 i] at hl; cases hl

/-- A step that only moves the table to one in which what was revoked stays revoked. -/
theorem SessionRun.Inv.withTable {t : RefreshTable} (h : s.Inv store)
    (ht : ∀ n, RevokedUnder store n s.table → RevokedUnder store n t) :
    SessionRun.Inv store { s with table := t } :=
  ⟨h.deleted, fun r n hr => ht n (h.revoked r n hr), h.pending⟩

theorem SessionRun.Inv.checkLogin (h : s.Inv store) {i : ℕ} {params : Option Json}
    {env : LoginEnv} {factorPassed : Bool} :
    (s.step derive lib store (.checkLogin i params env factorPassed)).Inv store := by
  simp only [SessionRun.step]
  cases hcheck : Session.checkLogin derive s.credentials env params with
  | error e => exact h
  | ok grant =>
    dsimp only
    split
    · exact h
    · refine ⟨h.deleted, h.revoked, fun j l hl hin r n hr hname => ?_⟩
      by_cases hj : j = i
      · subst hj
        simp only [Function.update_self, Option.some.injEq] at hl
        subst hl
        obtain ⟨-, password, -, -, hverify⟩ := exists_password_of_checkLogin hcheck
        rw [hname] at hverify
        obtain ⟨row, hrow, hrowname⟩ := exists_row_of_verifyCredential hverify
        exact (h.deleted r n true hr).2 row hrow hrowname
      · simp only [Function.update_of_ne hj] at hl
        exact h.pending j l hl hin r n hr hname

/-- A login that was not overtaken opens a session under a name that is not revoked. -/
theorem SessionRun.Inv.openSession (h : s.Inv store) {i : ℕ} {env : CreateEnv}
    (htime : s.InTime (.openSession i env)) :
    (s.step derive lib store (.openSession i env)).Inv store := by
  simp only [SessionRun.step]
  cases hl : s.logins i with
  | none => exact h
  | some l =>
    dsimp only
    refine ⟨h.deleted, fun r n hr => ?_, fun j m hm hin r n hr => ?_⟩
    · cases hdown : l.grant.takenDown with
      | true =>
        have hscope : l.grant.scope = .takendown := if_pos hdown
        rw [hscope]
        exact (h.revoked r n hr).create_takendown l.grant.appPasswordName env
      | false => exact (h.revoked r n hr).create (h.pending i l hl (htime l hl hdown) r n hr)
    · by_cases hj : j = i
      · subst hj
        simp only [Function.update_self] at hm
        cases hm
      · simp only [Function.update_of_ne hj] at hm
        exact h.pending j m hm hin r n hr

theorem SessionRun.Inv.deletePassword (h : s.Inv store) {r : ℕ} {name : String} {carried : Bool} :
    (s.step derive lib store (.deletePassword r name carried)).Inv store := by
  simp only [SessionRun.step]
  split
  · exact h
  · rename_i hcarried
    have hname : name ≠ "" := fun he => hcarried (.inl he)
    refine ⟨fun q n b hq => ?_, fun q n hq => ?_, fun i l hl hin q n hq => ?_⟩
    · by_cases hqr : q = r
      · subst hqr
        simp only [Function.update_self, Option.some.injEq, Revocation.mk.injEq] at hq
        obtain ⟨rfl, -⟩ := hq
        exact ⟨hname, fun row hrow => (mem_revokeAppPassword.mp hrow).2⟩
      · simp only [Function.update_of_ne hqr] at hq
        obtain ⟨hn, hnone⟩ := h.deleted q n b hq
        exact ⟨hn, fun row hrow => hnone row (mem_revokeAppPassword.mp hrow).1⟩
    · by_cases hqr : q = r
      · subst hqr
        simp only [Function.update_self, Option.some.injEq, Revocation.mk.injEq] at hq
        cases hq.2
      · simp only [Function.update_of_ne hqr] at hq
        exact h.revoked q n hq
    · by_cases hqr : q = r
      · subst hqr
        simp only [Function.update_self, Option.some.injEq, Revocation.mk.injEq] at hq
        cases hq.2
      · simp only [Function.update_of_ne hqr] at hq
        exact h.pending i l hl hin q n hq

/-- The sessions under the name are all revoked, and its logins overtaken. -/
theorem SessionRun.Inv.revokeSessions (h : s.Inv store) {r : ℕ} {carried : Bool} :
    (s.step derive lib store (.revokeSessions r carried)).Inv store := by
  simp only [SessionRun.step]
  cases hr : s.revocations r with
  | none => exact h
  | some rev =>
    obtain ⟨name, b⟩ := rev
    obtain ⟨hname, hgone⟩ := h.deleted r name b hr
    dsimp only
    split
    · refine ⟨fun q n b' hq => ?_, fun q n hq => ?_, fun i l hl hin q n hq => ?_⟩
      · by_cases hqr : q = r
        · subst hqr
          simp only [Function.update_self, Option.some.injEq, Revocation.mk.injEq] at hq
          obtain ⟨rfl, -⟩ := hq
          exact ⟨hname, hgone⟩
        · simp only [Function.update_of_ne hqr] at hq
          exact h.deleted q n b' hq
      · by_cases hqr : q = r
        · subst hqr
          simp only [Function.update_self, Option.some.injEq, Revocation.mk.injEq] at hq
          obtain ⟨rfl, -⟩ := hq
          exact revokedUnder_revokeAppPassword hname
        · simp only [Function.update_of_ne hqr] at hq
          exact (h.revoked q n hq).revokeAppPassword name
      · obtain ⟨l', hl', rfl⟩ := Option.map_eq_some_iff.mp hl
        split at hin
        · cases hin
        · rename_i hother
          rw [if_neg hother]
          by_cases hqr : q = r
          · subst hqr
            simp only [Function.update_self, Option.some.injEq, Revocation.mk.injEq] at hq
            obtain ⟨rfl, -⟩ := hq
            exact hother
          · simp only [Function.update_of_ne hqr] at hq
            exact h.pending i l' hl' hin q n hq
    · have hkept : ∀ q n b', Function.update s.revocations r none q = some ⟨n, b'⟩ →
          s.revocations q = some ⟨n, b'⟩ := by
        intro q n b' hq
        by_cases hqr : q = r
        · subst hqr
          simp only [Function.update_self] at hq
          cases hq
        · simpa only [Function.update_of_ne hqr] using hq
      exact ⟨fun q n b' hq => h.deleted q n b' (hkept q n b' hq),
        fun q n hq => h.revoked q n (hkept q n true hq),
        fun i l hl hin q n hq => h.pending i l hl hin q n (hkept q n true hq)⟩

/-- The step lemma. -/
theorem SessionRun.Inv.step {st : SessionStep} (h : s.Inv store) (htime : s.InTime st) :
    (s.step derive lib store st).Inv store := by
  cases st with
  | checkLogin i params env factorPassed => exact h.checkLogin
  | openSession i env => exact h.openSession htime
  | deletePassword r name carried => exact h.deletePassword
  | revokeSessions r carried => exact h.revokeSessions
  | rotateRefresh token envs =>
    simp only [SessionRun.step]
    cases hrotate : OAuth.rotateRefresh lib store s.table token envs with
    | none => exact h
    | some r => exact h.withTable fun n hn => hn.rotate hrotate
  | revokeRefresh token now => exact h.withTable fun n hn => hn.revoke token now

theorem SessionRun.Inv.final (h : s.Inv store) : s.RevocationFinal lib store :=
  fun r name hr _ hissued _ _ _ => (h.revoked r name hr).refuses hissued

/-- In every run in which no login adds its session after the sessions of its app password were
revoked, revocations are final. -/
theorem revocation_final_of_inTime (derive : DerivePassword) (lib : TokenLibrary)
    (store : AuthStore) (s : SessionRun) (run : List SessionStep) (hidle : s.Idle)
    (h : Steps (SessionRun.step derive lib store) SessionRun.InTime s run) :
    States (SessionRun.step derive lib store) (SessionRun.RevocationFinal lib store) s run := by
  have hstates : States (SessionRun.step derive lib store) (SessionRun.Inv store) s run :=
    states_of_steps (.of_idle hidle) (fun s st hs hst => hs.step hst) h
  exact hstates.imp fun s hs => hs.final

end Runs

/-! ## A session opened after the revocation -/

/-- `EVP_PBE_scrypt` on the app password, with the two salts. -/
def exampleDerive : DerivePassword := fun password salt =>
  if password = "abcd-efgh-ijkl-mnop" ∧ salt = (List.range 16).map UInt8.ofNat then some
    [79, 27, 140, 38, 71, 37, 230, 206, 28, 157, 75, 138, 182, 195, 236, 247, 53, 152, 156, 216,
     49, 161, 159, 210, 89, 7, 144, 60, 71, 116, 252, 66]
  else if password = "abcd-efgh-ijkl-mnop" ∧ salt = List.replicate 16 1 then some
    [47, 78, 101, 35, 130, 224, 56, 58, 49, 120, 68, 147, 143, 1, 104, 215, 154, 234, 47, 156,
     209, 40, 225, 24, 226, 55, 25, 180, 0, 112, 168, 206]
  else none

/-- An account with a password of its own and an app password. -/
def exampleAccount : SessionRun where
  credentials :=
    { password := some ⟨List.replicate 16 1,
        [44, 153, 226, 132, 105, 2, 255, 57, 245, 14, 46, 206, 9, 203, 128, 102, 35, 208, 214,
         59, 204, 11, 67, 179, 76, 105, 222, 27, 181, 61, 20, 233]⟩
      appPasswords := [⟨⟨(List.range 16).map UInt8.ofNat,
        [79, 27, 140, 38, 71, 37, 230, 206, 28, 157, 75, 138, 182, 195, 236, 247, 53, 152, 156,
         216, 49, 161, 159, 210, 89, 7, 144, 60, 71, 116, 252, 66]⟩,
        "phone", false⟩] }
  table := KeyTable.empty
  logins := fun _ => none
  revocations := fun _ => none

/-- The login with the app password. -/
def phoneLogin : SessionStep :=
  .checkLogin 0
    (some (.object [("identifier", .string "alice.test"),
      ("password", .string "abcd-efgh-ijkl-mnop")]))
    ⟨none, fun identifier => identifier = "alice.test", false⟩ false

/-- The session is opened. -/
def phoneOpened : SessionStep := .openSession 0 ⟨1700000000, 1700000000, exampleJti 1⟩

/-- The password is checked, the app password is revoked, the session is opened. -/
def revokedBetween : List SessionStep :=
  [phoneLogin, .deletePassword 0 "phone" true, .revokeSessions 0 true, phoneOpened]

/-- The state after these steps. -/
def accountAfter (run : List SessionStep) : SessionRun :=
  Machine.exec (SessionRun.step exampleDerive exampleLibrary exampleStore) exampleAccount run

/-- Whatever its text, a token of the session is rotated. -/
theorem revokedBetween_rotated {token : String}
    (hclaims : refreshClaims exampleLibrary exampleStore token =
      some (.signed (exampleJti 1) 1700000000 1707776000)) :
    (OAuth.rotateRefresh exampleLibrary exampleStore (accountAfter revokedBetween).table token
      [⟨1700000010, 1700000010, 1700000010, 1700000010, exampleJti 2⟩]).map
        (fun r => r.2.toOption.isSome) = some true := by
  simp only [OAuth.rotateRefresh, OAuth.rotateAttempt, verifyJwt_refresh_eq _ _ hclaims]
  clear hclaims token
  decide +kernel

theorem revokedBetween_facts :
    (accountAfter revokedBetween).revocations 0 = some ⟨"phone", true⟩ ∧
      ((accountAfter revokedBetween).table (exampleJti 1)).map RefreshRow.appPasswordName =
        some (some "phone") := by
  decide

/-- A session that is opened after the revocation of its app password has completed is refreshed. -/
theorem session_survives_its_revocation :
    (accountAfter revokedBetween).revocations 0 = some ⟨"phone", true⟩ ∧
      IssuedUnder exampleLibrary exampleStore (accountAfter revokedBetween).table "phone"
        exampleToken ∧
      ¬ States (SessionRun.step exampleDerive exampleLibrary exampleStore)
        (SessionRun.RevocationFinal exampleLibrary exampleStore) exampleAccount revokedBetween := by
  obtain ⟨hcompleted, hrow⟩ := revokedBetween_facts
  obtain ⟨row, hrow, hname⟩ := Option.map_eq_some_iff.mp hrow
  have hissued : IssuedUnder exampleLibrary exampleStore (accountAfter revokedBetween).table "phone"
      exampleToken := ⟨_, row, exampleToken_claims, hrow, hname⟩
  refine ⟨hcompleted, hissued, fun h => ?_⟩
  obtain ⟨⟨t, result⟩, hrotate, hok⟩ :=
    Option.map_eq_some_iff.mp (revokedBetween_rotated exampleToken_claims)
  cases result with
  | error e => cases hok
  | ok tokens => exact h.exec 0 "phone" hcompleted exampleToken hissued _ t tokens hrotate

/-- The same login in time: its session is opened, and revoked. -/
def revokedAfter : List SessionStep :=
  [phoneLogin, .deletePassword 0 "phone" true, phoneOpened, .revokeSessions 0 true]

theorem revokedAfter_inTime : Steps (SessionRun.step exampleDerive exampleLibrary exampleStore)
    SessionRun.InTime exampleAccount revokedAfter := by
  refine ⟨trivial, trivial, fun l hl _ => ?_, trivial, trivial⟩
  have hlogin : ((accountAfter [phoneLogin, .deletePassword 0 "phone" true]).logins 0).map
      PendingLogin.overtaken = some false := by
    decide
  have hl' : (accountAfter [phoneLogin, .deletePassword 0 "phone" true]).logins 0 = some l := hl
  rw [hl'] at hlogin
  exact Option.some.inj hlogin

/-- Its session is in the table, and final is what the revocation is. -/
theorem revokedAfter_final :
    ((accountAfter revokedAfter).table (exampleJti 1)).map RefreshRow.revoked = some true ∧
      States (SessionRun.step exampleDerive exampleLibrary exampleStore)
        (SessionRun.RevocationFinal exampleLibrary exampleStore) exampleAccount revokedAfter :=
  ⟨by decide, revocation_final_of_inTime exampleDerive exampleLibrary exampleStore
    exampleAccount revokedAfter ⟨fun _ => rfl, fun _ => rfl⟩ revokedAfter_inTime⟩

end MetalBear.Session
