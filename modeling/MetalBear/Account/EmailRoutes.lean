import MetalBear.Account.Create

/-!
# The routes about the e-mail address

The handlers that mint, take and drop the tokens of an account, on its own store. A token is mailed
for a purpose; the route that the purpose names takes it.
-/

namespace MetalBear.Account

open MetalBear.Sync (XrpcError)

/-- What a request finds. -/
structure EmailCalls where
  /-- The account is resolved. -/
  resolved : Bool
  /-- The seconds to wait, where a limit is exceeded. -/
  limited : Option Nat
  emailRead : Bool
  mint : MintCalls
  /-- The mail is sent, or none is to be sent. -/
  mailed : Bool
  verify : VerifyCalls
  emailStored : Bool
  tokensDeleted : Bool
  answered : Bool
  deriving DecidableEq, Repr

/-- What a request leaves. -/
structure EmailReply where
  store : EmailStore
  answer : Except RouteError Unit
  /-- The token that it put into `email_token`. -/
  minted : Option String
  /-- The token that it accepted. -/
  spent : Option String

/-- A refusal before anything was written. -/
def EmailReply.refuse (s : EmailStore) (status : Nat) (name message : String) : EmailReply :=
  ⟨s, .error (.answer ⟨status, name, message⟩), none, none⟩

/-- `check_endpoint_rate_limit`, where it refuses. -/
def EmailReply.limit (s : EmailStore) (retryAfter : Nat) : EmailReply :=
  .refuse s 429 "RateLimitExceeded"
    ("Rate limit exceeded. Retry after " ++ toString retryAfter ++ " seconds.")

/-- The access token names no account. -/
def EmailReply.unresolved (s : EmailStore) : EmailReply :=
  .refuse s 401 "InvalidToken" "Invalid access token"

/-- `metalbear_account_get_email`: there is no success without an address. -/
def EmailStore.getEmail (s : EmailStore) (read : Bool) : Option String :=
  if read then s.email else none

/-- Mint a token and mail it. The texts are those of the two failures. -/
def mintAndMail (s : EmailStore) (kind notCreated notSent : String) (calls : EmailCalls) :
    EmailReply :=
  match s.createEmailToken kind calls.mint with
  | (s, .error _) => .refuse s 500 "InternalError" notCreated
  | (s, .ok token) =>
    if calls.mailed = false then
      ⟨s, .error (.answer ⟨500, "InternalError", notSent⟩), some token, none⟩
    else if calls.answered then ⟨s, .ok (), some token, none⟩
    else ⟨s, .error (.status .alloc), some token, none⟩

/-- `request_email_confirmation`. -/
def requestEmailConfirmation (s : EmailStore) (calls : EmailCalls) : EmailReply :=
  if calls.resolved = false then .unresolved s
  else if let some retryAfter := calls.limited then .limit s retryAfter
  else
    match s.getEmail calls.emailRead with
    | none => .refuse s 400 "AccountNotFound" "No email address on file"
    | some _ =>
      if s.emailConfirmed then .refuse s 400 "InvalidRequest" "Email is already confirmed"
      else
        mintAndMail s "confirm" "Could not create confirmation token"
          "Could not send confirmation email" calls

/-- `request_email_update`. -/
def requestEmailUpdate (s : EmailStore) (calls : EmailCalls) : EmailReply :=
  if calls.resolved = false then .unresolved s
  else if let some retryAfter := calls.limited then .limit s retryAfter
  else
    match s.getEmail calls.emailRead with
    | none => .refuse s 400 "InvalidRequest" "No email address on file"
    | some _ =>
      mintAndMail s "update" "Could not create update token" "Could not send update email" calls

/-- `confirm_email`. The address in the request is required and then not looked at. -/
def confirmEmail (s : EmailStore) (params : Option Json) (calls : EmailCalls) : EmailReply :=
  if calls.resolved = false then .unresolved s
  else
    match nonEmptyParam params "email", nonEmptyParam params "token" with
    | none, _ => .refuse s 400 "InvalidEmail" "email is required"
    | _, none => .refuse s 400 "InvalidToken" "token is required"
    | some _, some token =>
      match s.verifyEmailToken "confirm" token calls.verify with
      | (s, .error _) => .refuse s 400 "InvalidToken" "Invalid or expired confirmation token"
      | (s, .ok ()) =>
        ⟨s, if calls.answered then .ok () else .error (.status .alloc), none, some token⟩

/-- The last step of `update_email`. -/
def replaceEmail (s : EmailStore) (email : String) (calls : EmailCalls) (spent : Option String) :
    EmailReply :=
  match s.storeEmail email calls.emailStored with
  | (s, .error _) =>
    ⟨s, .error (.answer ⟨500, "InternalError", "Could not store email address"⟩), none, spent⟩
  | (s, .ok ()) => ⟨s, .ok (), none, spent⟩

/-- `update_email`. A token is asked for where the address is confirmed. -/
def updateEmail (s : EmailStore) (params : Option Json) (calls : EmailCalls) : EmailReply :=
  if calls.resolved = false then .unresolved s
  else
    match nonEmptyParam params "email" with
    | none => .refuse s 400 "InvalidRequest" "email is required"
    | some email =>
      if calls.emailRead ∧ s.emailConfirmed then
        match nonEmptyParam params "token" with
        | none =>
          .refuse s 400 "TokenRequired" "Token is required when email is already confirmed"
        | some token =>
          match s.verifyEmailToken "update" token calls.verify with
          | (s, .error _) => .refuse s 400 "InvalidToken" "Invalid or expired update token"
          | (s, .ok ()) => replaceEmail s email calls (some token)
      else replaceEmail s email calls none

/-- `admin_update_account_email`, once the account is found. -/
def adminUpdateAccountEmail (s : EmailStore) (email : String) (calls : EmailCalls) : EmailReply :=
  ⟨(s.storeEmail email calls.emailStored).1.deleteAllEmailTokens calls.tokensDeleted,
    if calls.answered then .ok () else .error (.status .alloc), none, none⟩

/-- The other purposes of a token. -/
inductive OtherPurpose where
  | reset
  | delete
  | plcOperation
  deriving DecidableEq, Repr

/-- The kind of its tokens. -/
def OtherPurpose.kind : OtherPurpose → String
  | .reset => "reset"
  | .delete => "delete"
  | .plcOperation => "plc_operation"

end MetalBear.Account
