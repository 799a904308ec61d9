import MetalBear.Library.KeyTable
import MetalBear.Wolfram.Status

/-!
# Grants of the OAuth store

The tables of pushed requests, authorization codes and refresh tokens, and the calls that turn
a request into a code, a code into a grant and a refresh token into the next grant. A presented
code or refresh token is deleted by a statement of its own, and the grant is made after that.
-/

namespace MetalBear.OAuth.Grants

open KeyTable

/-! ## Tables -/

/-- A SHA-256 value. -/
abbrev Hash := List UInt8

/-- `PAR_LIFETIME_SECONDS`. -/
def parLifetimeSeconds : Int := 300

/-- `CODE_LIFETIME_SECONDS`. -/
def codeLifetimeSeconds : Int := 300

/-- `ACCESS_LIFETIME_SECONDS`. -/
def accessLifetimeSeconds : Int := 3600

/-- `REFRESH_LIFETIME_SECONDS`. -/
def refreshLifetimeSeconds : Int := 90 * 24 * 60 * 60

/-- A row of `oauth_par`, its `request_uri` apart. -/
structure ParRow where
  clientId : String
  redirectUri : String
  scope : String
  state : Option String
  codeChallenge : String
  dpopJkt : Option String
  expiresAt : Int
  deriving DecidableEq, Repr

/-- A row of `oauth_code`, its `code_hash` apart. -/
structure CodeRow where
  clientId : String
  redirectUri : String
  scope : String
  codeChallenge : String
  dpopJkt : Option String
  subject : String
  expiresAt : Int
  deriving DecidableEq, Repr

/-- A row of `oauth_refresh`, its `token_hash` apart. -/
structure RefreshRow where
  clientId : String
  scope : String
  dpopJkt : Option String
  subject : String
  expiresAt : Int
  deriving DecidableEq, Repr

/-- What the calls read and write of the store. -/
structure GrantStore where
  issuer : String
  par : KeyTable String ParRow
  code : KeyTable Hash CodeRow
  refresh : KeyTable Hash RefreshRow

/-- The store as it is opened for the first time. -/
def GrantStore.new (issuer : String) : GrantStore := ⟨issuer, empty, empty, empty⟩

/-- The functions of the protocol library that the calls rely on. -/
structure GrantLibrary where
  /-- `wf_crypto_sha256`. -/
  sha256 : String → Hash
  /-- `wf_oauth_pkce_from_verifier`, for the challenge. -/
  pkceChallenge : String → Except WfError String

/-! ## What the outside decides -/

/-- What becomes of a statement. -/
inductive Statement where
  | unprepared
  | failed
  | done
  deriving DecidableEq, Repr

/-- What becomes of the statements of `prune` on the three tables. -/
structure PruneOutcome where
  par : Statement
  code : Statement
  refresh : Statement
  deriving DecidableEq, Repr

/-- What becomes of `metalbear_oauth_create_par`. -/
structure ParOutcome where
  now : Int
  /-- `random_value`. -/
  random : Except WfError String
  /-- There is memory for the URI. -/
  allocates : Bool
  prune : PruneOutcome
  insert : Statement
  deriving DecidableEq, Repr

/-- What becomes of `metalbear_oauth_authorize`. -/
structure AuthorizeOutcome where
  now : Int
  code : Except WfError String
  prune : PruneOutcome
  select : Statement
  /-- There is memory for the columns. -/
  copies : Bool
  starts : Bool
  delete : Statement
  insert : Statement
  commits : Bool
  deriving DecidableEq, Repr

/-- What becomes of `issue_grant`. -/
structure IssueOutcome where
  now : Int
  /-- When `create_access_jwt` is called. -/
  signedAt : Int
  /-- The `jti`, where there is memory for the token and it can be signed. -/
  jti : Option String
  refreshToken : Except WfError String
  /-- `token_hash` of `persist_refresh`. -/
  hashes : Bool
  insert : Statement
  deriving DecidableEq, Repr

/-- What becomes of `metalbear_oauth_exchange_code` or `metalbear_oauth_refresh`. -/
structure GrantOutcome where
  now : Int
  prune : PruneOutcome
  select : Statement
  copies : Bool
  /-- There is memory for the copy of the key's thumbprint. -/
  copiesJkt : Bool
  delete : Statement
  issue : IssueOutcome
  deriving DecidableEq, Repr

/-! ## Expiry -/

/-- `DELETE FROM ... WHERE expires_at<=?`. -/
def pruneTable {κ ρ : Type} (expiresAt : ρ → Int) (t : KeyTable κ ρ) (o : Statement)
    (now : Int) : KeyTable κ ρ :=
  if o = .done then t.deleteWhere fun _ row => expiresAt row ≤ now else t

/-- `prune`. -/
def prune (s : GrantStore) (now : Int) (o : PruneOutcome) : GrantStore :=
  { s with
    par := pruneTable ParRow.expiresAt s.par o.par now
    code := pruneTable CodeRow.expiresAt s.code o.code now
    refresh := pruneTable RefreshRow.expiresAt s.refresh o.refresh now }

/-- `SELECT ... WHERE ...=? AND expires_at>?`, with the status where there is no row. -/
def selectLive {κ ρ : Type} (expiresAt : ρ → Int) (t : KeyTable κ ρ) (key : κ) (missing : WfError)
    (o : Statement) (now : Int) : Except WfError ρ :=
  match o with
  | .unprepared => .error .internal
  | .failed => .error missing
  | .done =>
    match (t key).filter fun row => now < expiresAt row with
    | none => .error missing
    | some row => .ok row

/-- `DELETE ... WHERE key=?`, which has to change one row. -/
def deleteKey {κ ρ : Type} [DecidableEq κ] (t : KeyTable κ ρ) (key : κ) (refused : WfError)
    (o : Statement) : Except WfError (KeyTable κ ρ) :=
  match o with
  | .unprepared => .error .internal
  | .failed => .error refused
  | .done =>
    if t key = none then .error refused
    else .ok (t.deleteWhere fun k _ => k = key)

/-- `INSERT`. -/
def insertRow {κ ρ : Type} [DecidableEq κ] (t : KeyTable κ ρ) (key : κ) (row : ρ)
    (o : Statement) : Except WfError (KeyTable κ ρ) :=
  if o = .done then
    match t.insert key row with
    | none => .error .internal
    | some t => .ok t
  else .error .internal

/-! ## Pushed requests -/

/-- `metalbear_oauth_request`. -/
structure Request where
  clientId : String
  redirectUri : String
  scope : String
  state : Option String
  codeChallenge : String
  dpopJkt : String
  deriving DecidableEq, Repr

/-- `valid_request`, which looks for the scope `atproto` between spaces. -/
def validRequest (r : Request) : Bool :=
  r.clientId ≠ "" ∧ r.redirectUri ≠ "" ∧ r.scope ≠ "" ∧ r.codeChallenge.utf8ByteSize = 43 ∧
    r.dpopJkt.utf8ByteSize = 43 ∧ "atproto".toList ∈ r.scope.toList.splitOn ' '

/-- The prefix of a request URI. -/
def requestUriPrefix : String := "urn:ietf:params:oauth:request_uri:"

/-- The row of a pushed request. -/
def Request.row (r : Request) (now : Int) : ParRow :=
  ⟨r.clientId, r.redirectUri, r.scope, r.state, r.codeChallenge, some r.dpopJkt,
    now + parLifetimeSeconds⟩

/-- `metalbear_oauth_create_par`. -/
def createPar (s : GrantStore) (r : Request) (o : ParOutcome) :
    GrantStore × Except WfError (String × Int) :=
  if !validRequest r then (s, .error .invalidArg)
  else
    match o.random with
    | .error error => (s, .error error)
    | .ok random =>
      if !o.allocates then (s, .error .alloc)
      else
        let uri := requestUriPrefix ++ random
        let s := prune s o.now o.prune
        match insertRow s.par uri (r.row o.now) o.insert with
        | .error error => (s, .error error)
        | .ok par => ({ s with par }, .ok (uri, parLifetimeSeconds))

/-! ## Authorization codes -/

/-- What `metalbear_oauth_authorize` gives back. -/
structure Authorized where
  code : String
  redirectUri : String
  state : Option String
  deriving DecidableEq, Repr

/-- The row of a code. -/
def ParRow.code (row : ParRow) (subject : String) (now : Int) : CodeRow :=
  ⟨row.clientId, row.redirectUri, row.scope, row.codeChallenge, row.dpopJkt, subject,
    now + codeLifetimeSeconds⟩

/-- The request that `metalbear_oauth_authorize` reads. -/
def readPar (s : GrantStore) (requestUri clientId : String) (o : AuthorizeOutcome) :
    Except WfError ParRow :=
  match selectLive ParRow.expiresAt s.par requestUri .notFound o.select o.now with
  | .error error => .error error
  | .ok row =>
    if !o.copies then .error .alloc
    else if row.clientId ≠ clientId then .error .permission
    else .ok row

/-- The transaction of `metalbear_oauth_authorize`, which is rolled back unless all of it is
done. -/
def spendPar (lib : GrantLibrary) (s : GrantStore) (requestUri subject code : String)
    (row : ParRow) (o : AuthorizeOutcome) : Except WfError GrantStore :=
  if !o.starts then .error .internal
  else
    match deleteKey s.par requestUri .conflict o.delete with
    | .error error => .error error
    | .ok par =>
      match insertRow s.code (lib.sha256 code) (row.code subject o.now) o.insert with
      | .error error => .error error
      | .ok code => if o.commits then .ok { s with par, code } else .error .internal

/-- `metalbear_oauth_authorize`. -/
def authorize (lib : GrantLibrary) (s : GrantStore) (requestUri clientId subject : String)
    (o : AuthorizeOutcome) : GrantStore × Except WfError Authorized :=
  match o.code with
  | .error error => (s, .error error)
  | .ok code =>
    let s := prune s o.now o.prune
    match readPar s requestUri clientId o with
    | .error error => (s, .error error)
    | .ok row =>
      match spendPar lib s requestUri subject code row o with
      | .error error => (s, .error error)
      | .ok s => (s, .ok ⟨code, row.redirectUri, row.state⟩)

/-! ## Grants -/

/-- The payload of an access token. -/
structure AccessToken where
  iss : String
  sub : String
  aud : String
  scope : String
  clientId : String
  jti : String
  iat : Int
  exp : Int
  cnfJkt : String
  deriving DecidableEq, Repr

/-- `metalbear_oauth_grant`. -/
structure Grant where
  accessToken : AccessToken
  refreshToken : String
  expiresIn : Int
  deriving DecidableEq, Repr

/-- `persist_refresh`. -/
def persistRefresh (lib : GrantLibrary) (s : GrantStore) (token : String) (row : RefreshRow)
    (o : IssueOutcome) : Except WfError GrantStore :=
  if !o.hashes then .error .crypto
  else
    match insertRow s.refresh (lib.sha256 token) row o.insert with
    | .error error => .error error
    | .ok refresh => .ok { s with refresh }

/-- `issue_grant`, with `create_access_jwt`. -/
def issueGrant (lib : GrantLibrary) (s : GrantStore) (clientId scope jkt subject : String)
    (o : IssueOutcome) : GrantStore × Except WfError Grant :=
  match o.jti with
  | none => (s, .error .crypto)
  | some jti =>
    let token : AccessToken := ⟨s.issuer, subject, s.issuer, scope, clientId, jti, o.signedAt,
      o.now + accessLifetimeSeconds, jkt⟩
    match o.refreshToken with
    | .error error => (s, .error error)
    | .ok refreshToken =>
      match persistRefresh lib s refreshToken
          ⟨clientId, scope, some jkt, subject, o.now + refreshLifetimeSeconds⟩ o with
      | .error error => (s, .error error)
      | .ok s => (s, .ok ⟨token, refreshToken, accessLifetimeSeconds⟩)

/-! ## Exchanging a code -/

/-- What a client presents with a code. -/
structure CodeProof where
  code : String
  clientId : String
  redirectUri : String
  codeVerifier : String
  dpopJkt : String
  deriving DecidableEq, Repr

/-- The tests of `metalbear_oauth_exchange_code` on the code and what comes with it. -/
def checkCode (lib : GrantLibrary) (s : GrantStore) (p : CodeProof) (o : GrantOutcome) :
    Except WfError CodeRow :=
  match lib.pkceChallenge p.codeVerifier with
  | .error error => .error error
  | .ok challenge =>
    match selectLive CodeRow.expiresAt s.code (lib.sha256 p.code) .permission o.select o.now with
    | .error error => .error error
    | .ok row =>
      if !o.copies then .error .alloc
      else if row.clientId ≠ p.clientId ∨ row.redirectUri ≠ p.redirectUri ∨
          row.codeChallenge ≠ challenge ∨ !o.copiesJkt ∨ row.dpopJkt ≠ some p.dpopJkt then
        .error .permission
      else .ok row

/-- `metalbear_oauth_exchange_code`. The stored thumbprint is the presented one by then. -/
def exchangeCode (lib : GrantLibrary) (s : GrantStore) (p : CodeProof) (o : GrantOutcome) :
    GrantStore × Except WfError Grant :=
  if p.dpopJkt = "" then (s, .error .invalidArg)
  else
    let s := prune s o.now o.prune
    match checkCode lib s p o with
    | .error error => (s, .error error)
    | .ok row =>
      match deleteKey s.code (lib.sha256 p.code) .permission o.delete with
      | .error error => (s, .error error)
      | .ok code =>
        issueGrant lib { s with code } p.clientId row.scope p.dpopJkt row.subject o.issue

/-! ## Refreshing a grant -/

/-- What a client presents with a refresh token. -/
structure RefreshProof where
  refreshToken : String
  clientId : String
  dpopJkt : String
  deriving DecidableEq, Repr

/-- The tests of `metalbear_oauth_refresh` on the token and what comes with it. -/
def checkRefresh (lib : GrantLibrary) (s : GrantStore) (p : RefreshProof) (o : GrantOutcome) :
    Except WfError RefreshRow :=
  match selectLive RefreshRow.expiresAt s.refresh (lib.sha256 p.refreshToken) .permission o.select
      o.now with
  | .error error => .error error
  | .ok row =>
    if !o.copies then .error .alloc
    else if row.clientId ≠ p.clientId ∨ !o.copiesJkt ∨ row.dpopJkt ≠ some p.dpopJkt then
      .error .permission
    else .ok row

/-- `metalbear_oauth_refresh`. -/
def refreshGrant (lib : GrantLibrary) (s : GrantStore) (p : RefreshProof) (o : GrantOutcome) :
    GrantStore × Except WfError Grant :=
  if p.dpopJkt = "" then (s, .error .invalidArg)
  else
    let s := prune s o.now o.prune
    match checkRefresh lib s p o with
    | .error error => (s, .error error)
    | .ok row =>
      match deleteKey s.refresh (lib.sha256 p.refreshToken) .permission o.delete with
      | .error error => (s, .error error)
      | .ok refresh =>
        issueGrant lib { s with refresh } p.clientId row.scope p.dpopJkt row.subject o.issue

/-! ## Revocation -/

/-- `metalbear_oauth_revoke`. -/
def revoke (lib : GrantLibrary) (s : GrantStore) (token : String) (o : Statement) :
    GrantStore × Except WfError Unit :=
  if o = .done then
    ({ s with refresh := s.refresh.deleteWhere fun hash _ => hash = lib.sha256 token }, .ok ())
  else (s, .error .internal)

/-- `metalbear_oauth_grants_revoke`. -/
def grantsRevoke (s : GrantStore) (subject clientId : String) (o : Statement) :
    GrantStore × Except WfError Unit :=
  if subject = "" ∨ clientId = "" then (s, .error .invalidArg)
  else if o = .done then
    ({ s with
      refresh := s.refresh.deleteWhere fun _ row =>
        row.subject = subject ∧ row.clientId = clientId }, .ok ())
  else (s, .error .internal)

/-! ## What the statements leave -/

section Statements

variable {κ ρ : Type} {t t' : KeyTable κ ρ} {expiresAt : ρ → Int} {key k : κ} {row r : ρ}
  {error : WfError} {o : Statement} {now : Int}

/-- The rows that are left were there before. -/
theorem pruneTable_eq_some (h : pruneTable expiresAt t o now k = some r) : t k = some r := by
  unfold pruneTable at h
  split at h
  · exact (deleteWhere_eq_some.mp h).1
  · exact h

/-- A row is read under its key and before it expires. -/
theorem selectLive_eq_ok (h : selectLive expiresAt t key error o now = .ok row) :
    t key = some row ∧ now < expiresAt row := by
  unfold selectLive at h
  split at h
  · cases h
  · cases h
  · split at h
    · cases h
    · next hlive =>
      cases h
      simpa [Option.filter_eq_some_iff] using hlive

variable [DecidableEq κ]

/-- A row is deleted where there is one. -/
theorem deleteKey_eq_ok (h : deleteKey t key error o = .ok t') :
    t key ≠ none ∧ t' = t.deleteWhere fun k _ => k = key := by
  unfold deleteKey at h
  split at h
  · cases h
  · cases h
  · split at h
    · cases h
    · next hrow =>
      cases h
      exact ⟨hrow, rfl⟩

/-- A row is inserted where there is none. -/
theorem insertRow_eq_ok (h : insertRow t key row o = .ok t') :
    t key = none ∧ t' = Function.update t key (some row) := by
  unfold insertRow KeyTable.insert at h
  split at h
  · split at h
    · cases h
    · next hinsert =>
      cases h
      split at hinsert
      · next hnone =>
        cases hinsert
        exact ⟨hnone, rfl⟩
      · cases hinsert
  · cases h

/-- Deleting the row of a key leaves none there. -/
theorem deleteKey_self : (t.deleteWhere fun k _ => k = key) key = none := by
  cases h : t key with
  | none => exact deleteWhere_eq_none_of_none h
  | some row => simp [deleteWhere, h]

end Statements

/-! ## What a request spends -/

section Spending

variable {lib : GrantLibrary} {s : GrantStore}

/-- The code can be exchanged by the client, with the same proofs. -/
def UsableCode (lib : GrantLibrary) (s : GrantStore) (p : CodeProof) : Prop :=
  ∃ o grant, (exchangeCode lib s p o).2 = .ok grant

/-- The token can be refreshed by the client, with the same proofs. -/
def UsableRefresh (lib : GrantLibrary) (s : GrantStore) (p : RefreshProof) : Prop :=
  ∃ o grant, (refreshGrant lib s p o).2 = .ok grant

/-- The exchange has deleted the code and fails after that. -/
def FailsAfterDelete (lib : GrantLibrary) (s : GrantStore) (p : CodeProof) (o : GrantOutcome) :
    Prop :=
  p.dpopJkt ≠ "" ∧ (∃ row, checkCode lib (prune s o.now o.prune) p o = .ok row) ∧
    (∃ code, deleteKey (prune s o.now o.prune).code (lib.sha256 p.code) .permission o.delete =
      .ok code) ∧
    ∃ error, (exchangeCode lib s p o).2 = .error error

/-- The refresh has deleted the token and fails after that. -/
def RefreshFailsAfterDelete (lib : GrantLibrary) (s : GrantStore) (p : RefreshProof)
    (o : GrantOutcome) : Prop :=
  p.dpopJkt ≠ "" ∧ (∃ row, checkRefresh lib (prune s o.now o.prune) p o = .ok row) ∧
    (∃ refresh, deleteKey (prune s o.now o.prune).refresh (lib.sha256 p.refreshToken) .permission
      o.delete = .ok refresh) ∧
    ∃ error, (refreshGrant lib s p o).2 = .error error

/-- A grant that is not issued leaves the store alone. -/
theorem issueGrant_error {clientId scope jkt subject : String} {o : IssueOutcome} {error : WfError}
    (h : (issueGrant lib s clientId scope jkt subject o).2 = .error error) :
    (issueGrant lib s clientId scope jkt subject o).1 = s := by
  unfold issueGrant at h ⊢
  cases hjti : o.jti with
  | none => rfl
  | some jti =>
    cases htoken : o.refreshToken with
    | error error => rfl
    | ok token =>
      simp only [hjti, htoken] at h ⊢
      split
      · rfl
      · next hpersist =>
        rw [hpersist] at h
        cases h

/-- The tests of an exchange read the row of the code. -/
theorem checkCode_eq_ok {p : CodeProof} {o : GrantOutcome} {row : CodeRow}
    (h : checkCode lib s p o = .ok row) :
    s.code (lib.sha256 p.code) = some row ∧ o.now < row.expiresAt ∧ row.clientId = p.clientId ∧
      row.redirectUri = p.redirectUri ∧ lib.pkceChallenge p.codeVerifier = .ok row.codeChallenge ∧
      row.dpopJkt = some p.dpopJkt := by
  unfold checkCode at h
  split at h
  · cases h
  · next challenge hchallenge =>
    split at h
    · cases h
    · next hselect =>
      split at h
      · cases h
      · split at h
        · cases h
        · next hproofs =>
          cases h
          simp only [not_or, not_not] at hproofs
          obtain ⟨hclient, hredirect, rfl, -, hjkt⟩ := hproofs
          have hrow := selectLive_eq_ok hselect
          exact ⟨hrow.1, hrow.2, hclient, hredirect, hchallenge, hjkt⟩

/-- The tests of a refresh read the row of the token. -/
theorem checkRefresh_eq_ok {p : RefreshProof} {o : GrantOutcome} {row : RefreshRow}
    (h : checkRefresh lib s p o = .ok row) :
    s.refresh (lib.sha256 p.refreshToken) = some row ∧ o.now < row.expiresAt ∧
      row.clientId = p.clientId ∧ row.dpopJkt = some p.dpopJkt := by
  unfold checkRefresh at h
  split at h
  · cases h
  · next hselect =>
    split at h
    · cases h
    · split at h
      · cases h
      · next hproofs =>
        cases h
        simp only [not_or, not_not] at hproofs
        obtain ⟨hclient, -, hjkt⟩ := hproofs
        have hrow := selectLive_eq_ok hselect
        exact ⟨hrow.1, hrow.2, hclient, hjkt⟩

/-- An exchange that succeeds has read the row of the code, deleted it and issued a grant. -/
theorem exchangeCode_eq_ok {p : CodeProof} {o : GrantOutcome} {grant : Grant}
    (h : (exchangeCode lib s p o).2 = .ok grant) :
    ∃ row, checkCode lib (prune s o.now o.prune) p o = .ok row ∧
      exchangeCode lib s p o = issueGrant lib
        { prune s o.now o.prune with
          code := (prune s o.now o.prune).code.deleteWhere fun hash _ => hash = lib.sha256 p.code }
        p.clientId row.scope p.dpopJkt row.subject o.issue := by
  unfold exchangeCode at h ⊢
  split at h
  · cases h
  · next hjkt =>
    rw [if_neg hjkt]
    cases hcheck : checkCode lib (prune s o.now o.prune) p o with
    | error error =>
      simp only [hcheck] at h
      cases h
    | ok row =>
      simp only [hcheck] at h ⊢
      refine ⟨row, rfl, ?_⟩
      split at h
      · cases h
      · next code hdelete =>
        obtain ⟨-, rfl⟩ := deleteKey_eq_ok hdelete
        simp only

/-- A refresh that succeeds has read the row of the token, deleted it and issued a grant. -/
theorem refreshGrant_eq_ok {p : RefreshProof} {o : GrantOutcome} {grant : Grant}
    (h : (refreshGrant lib s p o).2 = .ok grant) :
    ∃ row, checkRefresh lib (prune s o.now o.prune) p o = .ok row ∧
      refreshGrant lib s p o = issueGrant lib
        { prune s o.now o.prune with
          refresh := (prune s o.now o.prune).refresh.deleteWhere
            fun hash _ => hash = lib.sha256 p.refreshToken }
        p.clientId row.scope p.dpopJkt row.subject o.issue := by
  unfold refreshGrant at h ⊢
  split at h
  · cases h
  · next hjkt =>
    rw [if_neg hjkt]
    cases hcheck : checkRefresh lib (prune s o.now o.prune) p o with
    | error error =>
      simp only [hcheck] at h
      cases h
    | ok row =>
      simp only [hcheck] at h ⊢
      refine ⟨row, rfl, ?_⟩
      split at h
      · cases h
      · next refresh hdelete =>
        obtain ⟨-, rfl⟩ := deleteKey_eq_ok hdelete
        simp only

/-- A code without a row is of no use. -/
theorem not_usableCode {p : CodeProof} (h : s.code (lib.sha256 p.code) = none) :
    ¬ UsableCode lib s p := by
  rintro ⟨o, grant, hok⟩
  obtain ⟨row, hcheck, -⟩ := exchangeCode_eq_ok hok
  have hrow := pruneTable_eq_some (checkCode_eq_ok hcheck).1
  rw [h] at hrow
  cases hrow

/-- A refresh token without a row is of no use. -/
theorem not_usableRefresh {p : RefreshProof} (h : s.refresh (lib.sha256 p.refreshToken) = none) :
    ¬ UsableRefresh lib s p := by
  rintro ⟨o, grant, hok⟩
  obtain ⟨row, hcheck, -⟩ := refreshGrant_eq_ok hok
  have hrow := pruneTable_eq_some (checkRefresh_eq_ok hcheck).1
  rw [h] at hrow
  cases hrow

/-- An exchange that fails after the code is deleted leaves no row of it. -/
theorem FailsAfterDelete.code_eq_none {p : CodeProof} {o : GrantOutcome}
    (h : FailsAfterDelete lib s p o) :
    (exchangeCode lib s p o).1.code (lib.sha256 p.code) = none := by
  obtain ⟨hjkt, ⟨row, hcheck⟩, ⟨code, hdelete⟩, error, herror⟩ := h
  simp only [exchangeCode, if_neg hjkt, hcheck, hdelete] at herror ⊢
  rw [issueGrant_error herror, (deleteKey_eq_ok hdelete).2]
  exact deleteKey_self

/-- A refresh that fails after the token is deleted leaves no row of it. -/
theorem RefreshFailsAfterDelete.refresh_eq_none {p : RefreshProof} {o : GrantOutcome}
    (h : RefreshFailsAfterDelete lib s p o) :
    (refreshGrant lib s p o).1.refresh (lib.sha256 p.refreshToken) = none := by
  obtain ⟨hjkt, ⟨row, hcheck⟩, ⟨refresh, hdelete⟩, error, herror⟩ := h
  simp only [refreshGrant, if_neg hjkt, hcheck, hdelete] at herror ⊢
  rw [issueGrant_error herror, (deleteKey_eq_ok hdelete).2]
  exact deleteKey_self

/-- Whatever fails after the code or the refresh token is deleted, it is spent: the client cannot
use it again. -/
theorem failed_grant_spends (lib : GrantLibrary) (s : GrantStore) (o : GrantOutcome) :
    (∀ p, FailsAfterDelete lib s p o → ¬ UsableCode lib (exchangeCode lib s p o).1 p) ∧
      ∀ p, RefreshFailsAfterDelete lib s p o →
        ¬ UsableRefresh lib (refreshGrant lib s p o).1 p :=
  ⟨fun _ h => not_usableCode h.code_eq_none, fun _ h => not_usableRefresh h.refresh_eq_none⟩

end Spending

/-! ## A grant that cannot be stored -/

/-- A library for one code and one verifier. -/
def grantLibrary : GrantLibrary := ⟨fun s => s.toUTF8.data.toList, .ok⟩

/-- The code that has been approved. -/
def approvedStore : GrantStore :=
  { GrantStore.new "https://pds.test" with
    code := fun hash => if hash = grantLibrary.sha256 "c" then
      some ⟨"app", "app:/", "atproto", "v", some "k", "did:web:a", 400⟩ else none
    refresh := fun hash => if hash = grantLibrary.sha256 "r" then
      some ⟨"app", "atproto", some "k", "did:web:a", 400⟩ else none }

/-- The client presents the code with its proofs, -/
def presentedCode : CodeProof := ⟨"c", "app", "app:/", "v", "k"⟩

/-- or the refresh token. -/
def presentedRefresh : RefreshProof := ⟨"r", "app", "k"⟩

/-- Every statement is carried out, but the last one as told. -/
def outcomeOf (insert : Statement) : GrantOutcome where
  now := 100
  prune := ⟨.done, .done, .done⟩
  select := .done
  copies := true
  copiesJkt := true
  delete := .done
  issue := ⟨100, 100, some "j", .ok "n", true, insert⟩

/-- The statement that stores the grant fails, and the code and the refresh token that were usable
before are spent. -/
theorem failed_insert_spends :
    UsableCode grantLibrary approvedStore presentedCode ∧
      (exchangeCode grantLibrary approvedStore presentedCode (outcomeOf .failed)).2 =
        .error .internal ∧
      ¬ UsableCode grantLibrary
        (exchangeCode grantLibrary approvedStore presentedCode (outcomeOf .failed)).1
        presentedCode ∧
    UsableRefresh grantLibrary approvedStore presentedRefresh ∧
      (refreshGrant grantLibrary approvedStore presentedRefresh (outcomeOf .failed)).2 =
        .error .internal ∧
      ¬ UsableRefresh grantLibrary
        (refreshGrant grantLibrary approvedStore presentedRefresh (outcomeOf .failed)).1
        presentedRefresh := by
  have hcode : (exchangeCode grantLibrary approvedStore presentedCode
      (outcomeOf .failed)).1.code (grantLibrary.sha256 presentedCode.code) = none := by
    decide
  have hrefresh : (refreshGrant grantLibrary approvedStore presentedRefresh
      (outcomeOf .failed)).1.refresh (grantLibrary.sha256 presentedRefresh.refreshToken) =
        none := by
    decide
  exact ⟨⟨outcomeOf .done, _, rfl⟩, rfl, not_usableCode hcode, ⟨outcomeOf .done, _, rfl⟩, rfl,
    not_usableRefresh hrefresh⟩

/-- The failing calls are calls that fail after the delete. -/
theorem failed_grant_spends_example :
    FailsAfterDelete grantLibrary approvedStore presentedCode (outcomeOf .failed) ∧
      ¬ UsableCode grantLibrary
        (exchangeCode grantLibrary approvedStore presentedCode (outcomeOf .failed)).1
        presentedCode ∧
      RefreshFailsAfterDelete grantLibrary approvedStore presentedRefresh (outcomeOf .failed) ∧
      ¬ UsableRefresh grantLibrary
        (refreshGrant grantLibrary approvedStore presentedRefresh (outcomeOf .failed)).1
        presentedRefresh := by
  have hcode : FailsAfterDelete grantLibrary approvedStore presentedCode (outcomeOf .failed) :=
    ⟨by decide, ⟨_, rfl⟩, ⟨_, rfl⟩, _, rfl⟩
  have hrefresh :
      RefreshFailsAfterDelete grantLibrary approvedStore presentedRefresh (outcomeOf .failed) :=
    ⟨by decide, ⟨_, rfl⟩, ⟨_, rfl⟩, _, rfl⟩
  have h := failed_grant_spends grantLibrary approvedStore (outcomeOf .failed)
  exact ⟨hcode, h.1 _ hcode, hrefresh, h.2 _ hrefresh⟩

end MetalBear.OAuth.Grants
