import MetalBear.Library.KeyTable
import MetalBear.OAuth.Session

/-!
# Refresh tokens of sessions

The table `refresh_token` and the calls that rotate and revoke. A rotation names its successor in
the row of the token, so that a client that lost the answer is given the same successor again, for
a while. The calls run one after the other and every statement is carried out; each reading of the
clock and each random id is what the environment makes it.
-/

namespace MetalBear.OAuth

/-- `ACCESS_LIFETIME_SECONDS`. -/
def accessLifetimeSeconds : Int := 2 * 60 * 60

/-- `REFRESH_LIFETIME_SECONDS`. -/
def refreshLifetimeSeconds : Int := 90 * 24 * 60 * 60

/-- `REFRESH_GRACE_SECONDS`. -/
def refreshGraceSeconds : Int := 2 * 60 * 60

/-- A row of `refresh_token`, its `jti` apart. -/
structure RefreshRow where
  did : String
  expiresAt : Int
  nextJti : Option String
  graceExpiresAt : Option Int
  revoked : Bool
  accessScope : AccessScope
  appPasswordName : Option String
  deriving DecidableEq, Repr

/-- The table `refresh_token`. -/
abbrev RefreshTable := KeyTable String RefreshRow

/-- The claims of a refresh token that `verify_jwt` compares with the clock, and its id. -/
structure RefreshClaims where
  jti : String
  iat : Double
  exp : Double
  deriving DecidableEq

/-- The claims that `create_jwt` signs in a refresh token. -/
def RefreshClaims.signed (jti : String) (now expiresAt : Int) : RefreshClaims :=
  ⟨jti, .finite now, .finite expiresAt⟩

/-- `metalbear_session_tokens`, by the claims of the two tokens. -/
structure SessionTokens where
  accessScope : AccessScope
  accessIat : Int
  accessExp : Int
  refresh : RefreshClaims

/-! ## Reading a refresh token -/

/-- The tests of `verify_jwt` on the claims of a refresh token, the clock apart. -/
def checkRefreshClaims (store : AuthStore) (header payload : Json) : Option RefreshClaims := do
  let alg ← header.getString "alg"
  let typ ← header.getString "typ"
  let scope ← payload.getString "scope"
  let aud ← payload.getString "aud"
  let sub ← payload.getString "sub"
  let iat ← (payload.getObjectItem "iat").bind Json.valueDouble
  let exp ← (payload.getObjectItem "exp").bind Json.valueDouble
  let jti ← payload.getString "jti"
  if alg = "HS256" ∧ typ = "refresh+jwt" ∧ scope = "com.atproto.refresh" ∧
      aud = store.serviceDid ∧ sub = store.accountDid then some ⟨jti, iat, exp⟩
  else none

/-- What `verify_jwt` reads of a text that is a refresh token under the key of the store. -/
def refreshClaims (lib : TokenLibrary) (store : AuthStore) (token : String) :
    Option RefreshClaims :=
  if token = "" ∨ jwtMaxBytes < token.utf8ByteSize then none
  else
    match cutAtDot token.toList with
    | none => none
    | some (header, rest) =>
      match cutAtDot rest with
      | none => none
      | some (payload, signature) =>
        let signingInput := String.ofList (header ++ '.' :: payload)
        if '.' ∈ signature then none
        else if base64urlDecode signature ≠ some (lib.hmacSha256 store.key signingInput) then none
        else do
          let header ← (base64urlDecode header).bind lib.parseJson
          let payload ← (base64urlDecode payload).bind lib.parseJson
          checkRefreshClaims store header payload

/-- Whether the clock lets the claims pass. -/
def RefreshClaims.Timely (c : RefreshClaims) (now : Int) (allowExpired : Bool) : Prop :=
  c.iat ≤ Double.finite (now + 60) ∧ (allowExpired = true ∨ Double.finite now < c.exp)

theorem checkClaims_refresh_eq_some_iff {store : AuthStore} {now : Int} {allowExpired : Bool}
    {header payload : Json} {v : VerifiedJwt} :
    checkClaims store now .refresh allowExpired header payload = some v ↔
      ∃ c, checkRefreshClaims store header payload = some c ∧ c.Timely now allowExpired ∧
        v = ⟨some c.jti, c.exp, .full⟩ := by
  simp only [checkClaims, checkRefreshClaims, tokenScope, requiredType, Option.bind_eq_bind,
    Option.bind_eq_some_iff, Option.ite_none_right_eq_some]
  constructor
  · rintro ⟨alg, halg, typ, htyp, scope, hscope, parsed, ⟨hscopeIs, hparsed⟩, aud, haud, sub, hsub, iat,
      hiat, exp, hexp, ⟨hAlg, hTyp, hAud, hSub, hIat, hExp, hJti⟩, hv⟩
    obtain ⟨jti, hjti⟩ := Option.isSome_iff_exists.mp (hJti.resolve_left (by decide))
    refine ⟨⟨jti, iat, exp⟩, ⟨alg, halg, typ, htyp, scope, hscope, aud, haud, sub, hsub, iat, hiat,
      exp, hexp, jti, hjti, ⟨hAlg, hTyp, hscopeIs, hAud, hSub⟩, rfl⟩, ⟨hIat, hExp⟩, ?_⟩
    cases hparsed
    cases hv
    simp [hjti]
  · rintro ⟨c, ⟨alg, halg, typ, htyp, scope, hscope, aud, haud, sub, hsub, iat, hiat, exp, hexp,
      jti, hjti, ⟨hAlg, hTyp, hScope, hAud, hSub⟩, hc⟩, ⟨hIat, hExp⟩, rfl⟩
    cases hc
    refine ⟨alg, halg, typ, htyp, scope, hscope, .full, ⟨hScope, rfl⟩, aud, haud, sub, hsub, iat,
      hiat, exp, hexp, ⟨hAlg, hTyp, hAud, hSub, hIat, hExp, .inr (by rw [hjti]; rfl)⟩, ?_⟩
    simp [hjti]

/-- `verify_jwt` is the reading of the token and the comparison with the clock. -/
theorem verifyJwt_refresh_eq_ok_iff {lib : TokenLibrary} {store : AuthStore} {now : Int}
    {token : String} {allowExpired : Bool} {v : VerifiedJwt} :
    verifyJwt lib store now token .refresh allowExpired = .ok v ↔
      ∃ c, refreshClaims lib store token = some c ∧ c.Timely now allowExpired ∧
        v = ⟨some c.jti, c.exp, .full⟩ := by
  rw [verifyJwt, refreshClaims]
  split
  · simp
  · cases hfirst : cutAtDot token.toList with
    | none => simp
    | some first =>
      obtain ⟨header, rest⟩ := first
      cases hsecond : cutAtDot rest with
      | none => simp [hsecond]
      | some second =>
        obtain ⟨payload, signature⟩ := second
        simp only [hsecond, Option.bind_eq_bind]
        split
        · simp
        · split
          · simp
          · cases (base64urlDecode header).bind lib.parseJson with
            | none => simp
            | some headerJson =>
              cases (base64urlDecode payload).bind lib.parseJson with
              | none => simp
              | some payloadJson =>
                simp only [Option.bind_some]
                rw [← checkClaims_refresh_eq_some_iff]
                cases checkClaims store now .refresh allowExpired headerJson payloadJson with
                | none => simp
                | some w => simp

/-- A text that is neither empty nor too long is refused with one error. -/
theorem verifyJwt_error {lib : TokenLibrary} {store : AuthStore} {now : Int} {token : String}
    {kind : TokenKind} {allowExpired : Bool} {e : WfError}
    (hsize : ¬ (token = "" ∨ jwtMaxBytes < token.utf8ByteSize))
    (h : verifyJwt lib store now token kind allowExpired = .error e) : e = .permission := by
  rw [verifyJwt, if_neg hsize] at h
  cases hfirst : cutAtDot token.toList with
  | none =>
    rw [hfirst] at h
    exact (Except.error.inj h).symm
  | some first =>
    simp only [hfirst] at h
    cases hsecond : cutAtDot first.2 with
    | none =>
      rw [hsecond] at h
      exact (Except.error.inj h).symm
    | some second =>
      simp only [hsecond] at h
      split at h
      · exact (Except.error.inj h).symm
      · split at h
        · exact (Except.error.inj h).symm
        · split at h
          · exact (Except.error.inj h).symm
          · cases h

/-- With the claims at hand only the clock decides. -/
theorem verifyJwt_refresh_eq {lib : TokenLibrary} {store : AuthStore} {token : String}
    {c : RefreshClaims} (now : Int) (allowExpired : Bool)
    (h : refreshClaims lib store token = some c) :
    verifyJwt lib store now token .refresh allowExpired =
      if c.iat ≤ Double.finite (now + 60) ∧ (allowExpired = true ∨ Double.finite now < c.exp) then
        .ok ⟨some c.jti, c.exp, .full⟩
      else .error .permission := by
  split
  · rename_i htimely
    exact verifyJwt_refresh_eq_ok_iff.mpr ⟨c, h, htimely, rfl⟩
  · rename_i htimely
    cases hverify : verifyJwt lib store now token .refresh allowExpired with
    | ok v =>
      obtain ⟨c', hc, htimely', -⟩ := verifyJwt_refresh_eq_ok_iff.mp hverify
      rw [h] at hc
      cases hc
      exact absurd htimely' htimely
    | error e =>
      have hsize : ¬ (token = "" ∨ jwtMaxBytes < token.utf8ByteSize) := by
        intro hsize
        rw [refreshClaims, if_pos hsize] at h
        cases h
      rw [verifyJwt_error hsize hverify]

/-! ## The statements -/

/-- Whether `prune_expired_refreshes` deletes a row. -/
def RefreshRow.pruned (now : Int) (row : RefreshRow) : Bool :=
  row.expiresAt ≤ now || (row.nextJti.isSome && row.graceExpiresAt.any fun grace => grace ≤ now)

/-- `prune_expired_refreshes`. -/
def pruneExpiredRefreshes (t : RefreshTable) (now : Int) : RefreshTable :=
  t.deleteWhere fun _ row => row.pruned now

/-- `persist_refresh`. -/
def persistRefresh (store : AuthStore) (t : RefreshTable) (jti : String) (expiresAt : Int)
    (scope : AccessScope) (appPasswordName : Option String) : Option RefreshTable :=
  t.insert jti ⟨store.accountDid, expiresAt, none, none, false, scope, appPasswordName⟩

/-- `issue_pair`. -/
def issuePair (now : Int) (jti : String) (refreshExpiry : Int) (scope : AccessScope) :
    SessionTokens :=
  ⟨scope, now, now + accessLifetimeSeconds, .signed jti now refreshExpiry⟩

/-- The outcome of a call that issues tokens. -/
abbrev Issued := Except WfError SessionTokens

/-! ## Opening a session -/

/-- The readings of the clock and the id of a session that is opened. -/
structure CreateEnv where
  now : Int
  issue : Int
  jti : String

/-- `metalbear_auth_create_scoped_session`. A session of an account that is taken down is not
persisted. -/
def createScopedSession (store : AuthStore) (t : RefreshTable) (scope : AccessScope)
    (appPasswordName : Option String) (env : CreateEnv) : RefreshTable × Issued :=
  if scope ≠ .full ∧ scope ≠ .takendown ∧ appPasswordName.getD "" = "" then
    (t, .error .invalidArg)
  else
    let expiry := env.now + refreshLifetimeSeconds
    let t := pruneExpiredRefreshes t env.now
    if scope = .takendown then (t, .ok (issuePair env.issue env.jti expiry scope))
    else
      match persistRefresh store t env.jti expiry scope appPasswordName with
      | none => (t, .error .internal)
      | some t => (t, .ok (issuePair env.issue env.jti expiry scope))

/-! ## Rotating -/

/-- The readings of the clock and the id of an attempt to rotate. -/
structure RotateEnv where
  verify : Int
  prune : Int
  check : Int
  issue : Int
  jti : String

/-- The end of an attempt: the successor turned out to be there, or a result. -/
inductive Attempt where
  | again (t : RefreshTable)
  | done (t : RefreshTable) (result : Issued)

/-- The tests on the row that was selected. -/
def RefreshRow.refused (row : RefreshRow) (now : Int) : Bool :=
  row.revoked || row.expiresAt ≤ now ||
    (row.nextJti.isSome && row.graceExpiresAt.getD 0 ≤ now)

/-- The rows that the UPDATE of a rotation matches. -/
def unrotated (jti : String) (k : String) (row : RefreshRow) : Bool :=
  k = jti && row.nextJti = none && row.revoked = false

/-- The transaction that establishes the successor. -/
def mintSuccessor (store : AuthStore) (t : RefreshTable) (jti : String) (row : RefreshRow)
    (env : RotateEnv) : Attempt :=
  let grace := min (env.check + refreshGraceSeconds) row.expiresAt
  let nextExpiry := env.check + refreshLifetimeSeconds
  if (t jti).any (unrotated jti jti) = false then .again t
  else
    let marked := t.updateWhere (unrotated jti)
      fun r => { r with nextJti := some env.jti, graceExpiresAt := some grace }
    match persistRefresh store marked env.jti nextExpiry row.accessScope row.appPasswordName with
    | none => .done t (.error .internal)
    | some t => .done t (.ok (issuePair env.issue env.jti nextExpiry row.accessScope))

/-- The successor that an earlier rotation established. -/
def reuseSuccessor (t : RefreshTable) (next : String) (env : RotateEnv) : Issued :=
  match (t next).filter fun row => !row.revoked with
  | none => .error .permission
  | some row => .ok (issuePair env.issue next row.expiresAt row.accessScope)

/-- `metalbear_auth_rotate_refresh`, up to its call of itself. -/
def rotateAttempt (lib : TokenLibrary) (store : AuthStore) (t : RefreshTable) (token : String)
    (env : RotateEnv) : Attempt :=
  match verifyJwt lib store env.verify token .refresh false with
  | .error e => .done t (.error e)
  | .ok verified =>
    let jti := verified.jti.getD ""
    let t := pruneExpiredRefreshes t env.prune
    match (t jti).filter fun row => row.did = store.accountDid with
    | none => .done t (.error .permission)
    | some row =>
      if row.refused env.check = true then .done t (.error .permission)
      else
        match row.nextJti with
        | none => mintSuccessor store t jti row env
        | some next => .done t (reuseSuccessor t next env)

/-- `metalbear_auth_rotate_refresh`, with the environments of the attempts that it has time for. -/
def rotateRefresh (lib : TokenLibrary) (store : AuthStore) (t : RefreshTable) (token : String) :
    List RotateEnv → Option (RefreshTable × Issued)
  | [] => none
  | env :: more =>
    match rotateAttempt lib store t token env with
    | .done t result => some (t, result)
    | .again t => rotateRefresh lib store t token more

/-! ## Revoking -/

/-- `metalbear_auth_revoke_refresh`. -/
def revokeRefresh (lib : TokenLibrary) (store : AuthStore) (t : RefreshTable) (token : String)
    (now : Int) : RefreshTable × Except WfError Unit :=
  match verifyJwt lib store now token .refresh true with
  | .error e => (t, .error e)
  | .ok verified =>
    let jti := verified.jti.getD ""
    let named (k : String) (row : RefreshRow) : Bool := k = jti && row.did = store.accountDid
    let changes := (t jti).any (named jti)
    (t.updateWhere named fun row => { row with revoked := true },
      if changes = true then .ok () else .error .permission)

/-- `metalbear_auth_revoke_app_password_sessions`. -/
def revokeAppPasswordSessions (store : AuthStore) (t : RefreshTable) (appPasswordName : String) :
    RefreshTable × Except WfError Unit :=
  if appPasswordName = "" then (t, .error .invalidArg)
  else
    (t.updateWhere
      (fun _ row => row.did = store.accountDid && row.appPasswordName = some appPasswordName)
      fun row => { row with revoked := true }, .ok ())

end MetalBear.OAuth
