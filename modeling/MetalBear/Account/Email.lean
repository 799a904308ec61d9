import Mathlib.Data.List.Nodup
import MetalBear.Wolfram.Status

/-!
# The e-mail address of an account

The address in the account's own store, whether it is confirmed, and the tokens that were mailed for
one purpose or another. Every statement is carried out or fails, as the caller finds it.
-/

namespace MetalBear.Account

/-- A row of `email_token`. -/
structure EmailToken where
  token : String
  kind : String
  expiresAt : Int
  deriving DecidableEq, Repr

/-- `token=? AND kind=? AND expires_at>?`. -/
def EmailToken.admits (row : EmailToken) (kind token : String) (now : Int) : Bool :=
  row.token = token && row.kind = kind && now < row.expiresAt

/-- The columns of `account_state` about the address, with the table `email_token`, of which `token`
is the primary key. -/
structure EmailStore where
  email : Option String
  emailConfirmed : Bool
  tokens : List EmailToken
  deriving DecidableEq, Repr

/-- What the minting of a token finds. -/
structure MintCalls where
  /-- `RAND_bytes`, in hexadecimal digits. -/
  drawn : Option String
  clockRead : Bool
  inserted : Bool
  now : Int
  deriving DecidableEq, Repr

/-- What the presentation of a token finds. -/
structure VerifyCalls where
  prepared : Bool
  deleted : Bool
  /-- `sqlite3_changes`, where the `DELETE` failed: what the last statement before it changed. -/
  earlierChanges : Nat
  confirmed : Bool
  now : Int
  deriving DecidableEq, Repr

namespace EmailStore

/-- The store as `metalbear_account_store_open` makes it. -/
def new : EmailStore := ⟨none, false, []⟩

/-- `metalbear_account_store_email`. -/
def storeEmail (s : EmailStore) (email : String) (carriedOut : Bool) :
    EmailStore × Except WfError Unit :=
  if carriedOut then ({ s with email := some email, emailConfirmed := false }, .ok ())
  else (s, .error .internal)

/-- `metalbear_account_create_email_token`, with the token. -/
def createEmailToken (s : EmailStore) (kind : String) (calls : MintCalls) :
    EmailStore × Except WfError String :=
  match calls.drawn with
  | none => (s, .error .crypto)
  | some token =>
    if calls.clockRead ∧ calls.inserted ∧ token ∉ s.tokens.map EmailToken.token then
      ({ s with tokens := s.tokens ++ [⟨token, kind, calls.now + 3600⟩] }, .ok token)
    else (s, .error .internal)

/-- The rows that the `DELETE` of a verification leaves. -/
def rowsAfter (s : EmailStore) (kind token : String) (calls : VerifyCalls) : List EmailToken :=
  if calls.deleted then s.tokens.filter fun row => !row.admits kind token calls.now else s.tokens

/-- `sqlite3_changes` after it. -/
def changesAfter (s : EmailStore) (kind token : String) (calls : VerifyCalls) : Nat :=
  if calls.deleted then s.tokens.countP fun row => row.admits kind token calls.now
  else calls.earlierChanges

/-- `metalbear_account_verify_email_token`. What was deleted is read off `sqlite3_changes`, also
where the statement failed. -/
def verifyEmailToken (s : EmailStore) (kind token : String) (calls : VerifyCalls) :
    EmailStore × Except WfError Unit :=
  if calls.prepared then
    if 0 < s.changesAfter kind token calls then
      ({ s with
          tokens := s.rowsAfter kind token calls
          emailConfirmed := s.emailConfirmed || kind = "confirm" && calls.confirmed }, .ok ())
    else ({ s with tokens := s.rowsAfter kind token calls }, .error .permission)
  else (s, .error .internal)

/-- `metalbear_account_delete_all_email_tokens`. -/
def deleteAllEmailTokens (s : EmailStore) (carriedOut : Bool) : EmailStore :=
  if carriedOut then { s with tokens := [] } else s

/-- `metalbear_account_delete_email_tokens_by_kind`. -/
def deleteEmailTokensByKind (s : EmailStore) (kind : String) (carriedOut : Bool) : EmailStore :=
  if carriedOut then { s with tokens := s.tokens.filter fun row => row.kind ≠ kind } else s

variable {s s' : EmailStore} {kind token : String}

/-- A token that is minted is a new row, and nothing else changes. -/
theorem createEmailToken_eq_ok {calls : MintCalls}
    (h : s.createEmailToken kind calls = (s', .ok token)) :
    token ∉ s.tokens.map EmailToken.token ∧
      s' = { s with tokens := s.tokens ++ [⟨token, kind, calls.now + 3600⟩] } := by
  rw [createEmailToken] at h
  split at h
  · cases h
  · split at h
    · next hnew =>
      simp only [Prod.mk.injEq, Except.ok.injEq] at h
      obtain ⟨rfl, rfl⟩ := h
      exact ⟨hnew.2.2, rfl⟩
    · cases h

/-- Where nothing is minted the store is as it was. -/
theorem createEmailToken_eq_error {calls : MintCalls} {e : WfError}
    (h : s.createEmailToken kind calls = (s', .error e)) : s' = s := by
  rw [createEmailToken] at h
  split at h
  · cases h
    rfl
  · split at h
    · cases h
    · cases h
      rfl

theorem rowsAfter_sublist (calls : VerifyCalls) :
    (s.rowsAfter kind token calls).Sublist s.tokens := by
  rw [rowsAfter]
  split
  · exact List.filter_sublist
  · exact List.Sublist.refl _

/-- A token is accepted where a row was deleted for it, if the deletion was carried out. -/
theorem verifyEmailToken_eq_ok {calls : VerifyCalls}
    (h : s.verifyEmailToken kind token calls = (s', .ok ())) :
    calls.prepared = true ∧ 0 < s.changesAfter kind token calls ∧
      s' = { s with
        tokens := s.rowsAfter kind token calls
        emailConfirmed := s.emailConfirmed || kind = "confirm" && calls.confirmed } := by
  rw [verifyEmailToken] at h
  split at h
  · next hprepared =>
    split at h
    · next hchanges =>
      cases h
      exact ⟨hprepared, hchanges, rfl⟩
    · cases h
  · cases h

/-- A refused token: no row is added. -/
theorem verifyEmailToken_eq_error {calls : VerifyCalls} {e : WfError}
    (h : s.verifyEmailToken kind token calls = (s', .error e)) :
    s'.tokens.Sublist s.tokens ∧ s'.email = s.email ∧ s'.emailConfirmed = s.emailConfirmed := by
  rw [verifyEmailToken] at h
  split at h
  · split at h
    · cases h
    · cases h
      exact ⟨rowsAfter_sublist calls, rfl, rfl⟩
  · cases h
    exact ⟨List.Sublist.refl _, rfl, rfl⟩

end EmailStore

end MetalBear.Account
