import MetalBear.Account.Credentials
import MetalBear.OAuth.Refresh
import MetalBear.Sync.ListRepos

/-!
# Logging in

`create_session` up to the opening of the session: the tests that a request passes, and the session
that it is granted.
-/

namespace MetalBear.Session

open Account OAuth
open MetalBear.Sync (XrpcError)

/-- `cJSON_IsTrue`. -/
def isTrue : Json → Bool
  | .bool b => b
  | _ => false

/-- The refusal of `check_endpoint_rate_limit`. -/
def rateLimited (retryAfter : Nat) : XrpcError :=
  ⟨429, "RateLimitExceeded", s!"Rate limit exceeded. Retry after {retryAfter} seconds."⟩

/-- What a login meets outside the stores of its account. -/
structure LoginEnv where
  /-- The limiter refuses the request, for so many seconds. -/
  limited : Option Nat
  /-- `context_for_identifier` comes to this account. -/
  resolves : String → Bool
  takenDown : Bool

/-- The session that a login is granted. -/
structure LoginGrant where
  credential : CredentialKind
  takenDown : Bool
  appPasswordName : Option String
  deriving DecidableEq, Repr

/-- The scope that `create_session` opens a session with. -/
def LoginGrant.scope (g : LoginGrant) : AccessScope :=
  if g.takenDown then .takendown
  else
    match g.credential with
    | .account => .full
    | .appPasswordPrivileged => .appPasswordPrivileged
    | _ => .appPassword

/-- `valid_login`. -/
def validLogin (derive : DerivePassword) (t : CredentialTables) (env : LoginEnv)
    (params : Option Json) : CredentialKind × Option String :=
  match params.bind fun p => p.getString "identifier", params.bind fun p => p.getString "password"
  with
  | some identifier, some password =>
    if env.resolves identifier then verifyCredential derive t password else (.invalid, none)
  | _, _ => (.invalid, none)

/-- `create_session`, up to the second factor. -/
def checkLogin (derive : DerivePassword) (t : CredentialTables) (env : LoginEnv)
    (params : Option Json) : Except XrpcError LoginGrant :=
  match env.limited with
  | some retryAfter => .error (rateLimited retryAfter)
  | none =>
    if (params.bind fun p => p.getString "password").any fun p => 512 < p.utf8ByteSize then
      .error ⟨401, "AuthenticationRequired",
        "Password too long. Consider resetting your password."⟩
    else
      let credential := validLogin derive t env params
      if credential.1 = .invalid then
        .error ⟨401, "AuthenticationRequired", "Invalid identifier or password"⟩
      else if env.takenDown = true ∧
          (params.bind fun p => p.getObjectItem "allowTakendown").any isTrue = false then
        .error ⟨401, "AccountTakedown", "Account has been taken down"⟩
      else .ok ⟨credential.1, env.takenDown, credential.2⟩

variable {derive : DerivePassword} {t : CredentialTables} {env : LoginEnv} {params : Option Json}
  {g : LoginGrant}

/-- A login that is not refused had its password verified. -/
theorem exists_password_of_validLogin (h : (validLogin derive t env params).1 ≠ .invalid) :
    ∃ p password, params = some p ∧ p.getString "password" = some password ∧
      validLogin derive t env params = verifyCredential derive t password := by
  rw [validLogin] at h ⊢
  split at h
  · rename_i identifier password hidentifier hpassword
    obtain ⟨p, hp, hpassword⟩ := Option.bind_eq_some_iff.mp hpassword
    split at h
    · rename_i hresolves
      exact ⟨p, password, hp, hpassword, if_pos hresolves⟩
    · exact absurd rfl h
  · exact absurd rfl h

/-- A login that is granted presented the password of its credential. -/
theorem exists_password_of_checkLogin (h : checkLogin derive t env params = .ok g) :
    ∃ p password, params = some p ∧ p.getString "password" = some password ∧
      verifyCredential derive t password = (g.credential, g.appPasswordName) := by
  rw [checkLogin] at h
  split at h
  · cases h
  · split at h
    · cases h
    · dsimp only at h
      split at h
      · cases h
      · rename_i hvalid
        split at h
        · cases h
        · cases h
          obtain ⟨p, password, hp, hpassword, hverify⟩ := exists_password_of_validLogin hvalid
          exact ⟨p, password, hp, hpassword, by rw [hverify]⟩

end MetalBear.Session
