import MetalBear.Json.Value
import MetalBear.Wolfram.Status

/-!
# Account credentials

The password of an account and its app passwords, each kept as a salted hash. The derivation of the
hash is a parameter.
-/

namespace MetalBear.Account

/-- A row of `credentials`. -/
structure PasswordRow where
  salt : List UInt8
  passwordHash : List UInt8
  deriving DecidableEq, Repr

/-- A row of `app_password`. -/
structure AppPasswordRow extends PasswordRow where
  name : String
  privileged : Bool
  deriving DecidableEq, Repr

/-- The tables of an account store that credentials are read from. -/
structure CredentialTables where
  password : Option PasswordRow
  appPasswords : List AppPasswordRow
  deriving DecidableEq, Repr

/-- `derive_password`, which is `EVP_PBE_scrypt`. -/
abbrev DerivePassword := String → List UInt8 → Option (List UInt8)

/-- `metalbear_credential_kind`. -/
inductive CredentialKind where
  | invalid
  | account
  | appPassword
  | appPasswordPrivileged
  deriving DecidableEq, Repr

/-- Whether a password is the one of a row. -/
def PasswordRow.matches (derive : DerivePassword) (row : PasswordRow) (password : String) : Bool :=
  row.salt.length = 16 && row.passwordHash.length = 32 &&
    derive password row.salt = some row.passwordHash

/-- `metalbear_account_verify_password`. -/
def verifyPassword (derive : DerivePassword) (t : CredentialTables) (password : String) : Bool :=
  t.password.any fun row => row.matches derive password

/-- `metalbear_account_verify_credential`, with the name of the app password. -/
def verifyCredential (derive : DerivePassword) (t : CredentialTables) (password : String) :
    CredentialKind × Option String :=
  if verifyPassword derive t password then (.account, none)
  else
    match t.appPasswords.find? fun row => row.toPasswordRow.matches derive password with
    | none => (.invalid, none)
    | some row =>
      (if row.privileged then .appPasswordPrivileged else .appPassword, some row.name)

/-- `metalbear_account_revoke_app_password`, for a name that is not empty. -/
def CredentialTables.revokeAppPassword (t : CredentialTables) (name : String) : CredentialTables :=
  { t with appPasswords := t.appPasswords.filter fun row => row.name ≠ name }

variable {derive : DerivePassword} {t : CredentialTables} {password name : String}

/-- The name that is handed out is one of an app password in the table. -/
theorem exists_row_of_verifyCredential {kind : CredentialKind}
    (h : verifyCredential derive t password = (kind, some name)) :
    ∃ row ∈ t.appPasswords, row.name = name := by
  rw [verifyCredential] at h
  split at h
  · cases h
  · cases hfind : t.appPasswords.find? fun row => row.toPasswordRow.matches derive password with
    | none =>
      rw [hfind] at h
      cases h
    | some row =>
      simp only [hfind, Prod.mk.injEq, Option.some.injEq] at h
      exact ⟨row, List.mem_of_find?_eq_some hfind, h.2⟩

/-- Only the password of the account is an account credential. -/
theorem verifyPassword_of_account {name : Option String}
    (h : verifyCredential derive t password = (.account, name)) :
    verifyPassword derive t password = true := by
  rw [verifyCredential] at h
  split at h
  · assumption
  · cases hfind : t.appPasswords.find? fun row => row.toPasswordRow.matches derive password with
    | none =>
      rw [hfind] at h
      cases h
    | some row =>
      simp only [hfind, Prod.mk.injEq] at h
      split at h <;> cases h.1

theorem mem_revokeAppPassword {row : AppPasswordRow} :
    row ∈ (t.revokeAppPassword name).appPasswords ↔ row ∈ t.appPasswords ∧ row.name ≠ name := by
  simp [CredentialTables.revokeAppPassword]

end MetalBear.Account
