import MetalBear.Account.Registry
import MetalBear.Account.Stores
import MetalBear.Sync.ListRepos

/-!
# Creating an account

`com.atproto.server.createAccount` on the registry, the invite codes and the data directories. The
checks come first, but the invite is consumed among them; then the stores are opened, the address is
written, and the account is registered. Announcing an account that is registered, its DNS record and
its session are left out: they concern the new account alone.
-/

namespace MetalBear.Account

open MetalBear.Sync (XrpcError)

/-! ## The request -/

/-- What `create_account` reads of the server. -/
structure CreateServer where
  dataDirectory : String
  /-- Empty where none is configured. -/
  userDomain : String
  inviteRequired : Bool
  /-- `plc_url` is set. -/
  plcConfigured : Bool
  /-- `wf_syntax_handle_validate` is `WF_OK`. -/
  handleValidates : String → Bool

/-- The stores of the host. -/
structure CreateHost where
  accounts : AccountTable
  invites : Invites
  dirs : String → AccountDir

/-- What a request finds, step by step. -/
structure CreateCalls where
  consume : ConsumeCalls
  handleRead : Bool
  emailRead : Bool
  /-- The bearer token is an access token of the DID in the request. -/
  ownsDid : Bool
  didRead : Bool
  didCopied : Bool
  /-- `mint_plc_did`. -/
  minted : Option (String × List UInt8)
  /-- A fresh key and its `did:key`. -/
  generated : Option (String × List UInt8)
  pathBuilt : Bool
  opening : OpenCalls
  deactivated : Bool
  emailStored : Bool
  registered : Bool
  sessionCreated : Bool
  answered : Bool
  deriving DecidableEq, Repr

/-- What every request has to bring. -/
structure CreateInput where
  email : String
  handle : String
  password : String
  deriving DecidableEq, Repr

/-- A string of the request body that is not empty. -/
def nonEmptyParam (params : Option Json) (name : String) : Option String :=
  (params.bind fun p => p.getString name).filter fun value => value ≠ ""

/-- The body carries a PLC operation. -/
def hasPlcOp (params : Option Json) : Bool :=
  match params.bind fun p => p.getObjectItem "plcOp" with
  | none => false
  | some .null => false
  | some _ => true

/-- The checks before the invite. -/
def checkInput (params : Option Json) : Except XrpcError CreateInput :=
  if hasPlcOp params then .error ⟨400, "InvalidRequest", "Unsupported input: \"plcOp\""⟩
  else
    match nonEmptyParam params "email", nonEmptyParam params "handle",
      nonEmptyParam params "password" with
    | none, _, _ => .error ⟨400, "InvalidRequest", "Email is required"⟩
    | _, none, _ => .error ⟨400, "InvalidHandle", "handle is required"⟩
    | _, _, none => .error ⟨400, "InvalidPassword", "password is required"⟩
    | some email, some handle, some password =>
      if 256 < password.utf8ByteSize then
        .error ⟨400, "InvalidRequest", "Password too long. Maximum length is 256 characters."⟩
      else .ok ⟨email, handle, password⟩

/-! ## The invite -/

/-- The invite of the request, where the host asks for one. -/
def takeInvite (server : CreateServer) (invites : Invites) (params : Option Json) (handle : String)
    (calls : ConsumeCalls) : Invites × Except XrpcError Unit :=
  if server.inviteRequired then
    match nonEmptyParam params "inviteCode" with
    | none =>
      (invites, .error ⟨400, "InvalidInviteCode", "an invite code is required to sign up"⟩)
    | some code =>
      match invites.consumeInviteCode code handle calls with
      | (invites, .error _) =>
        (invites, .error ⟨400, "InvalidInviteCode", "the invite code is invalid or exhausted"⟩)
      | (invites, .ok ()) => (invites, .ok ())
  else (invites, .ok ())

/-! ## The handle, the address and the DID -/

/-- What `snprintf` leaves of a message in a buffer; a character that is cut is dropped. -/
def snprintf (size : Nat) (message : String) : String :=
  String.ofList (message.toList.take ((List.range message.toList.length).countP fun n =>
    (String.ofList (message.toList.take (n + 1))).utf8ByteSize < size))

/-- The handle is not under the domain of the host. -/
def CreateServer.outsideDomain (server : CreateServer) (handle : String) : Bool :=
  server.userDomain = "" || handle.utf8ByteSize ≤ server.userDomain.utf8ByteSize ||
    !server.userDomain.toList.isSuffixOf handle.toList

/-- The handle and the address are well formed and free. -/
def checkAvailable (server : CreateServer) (accounts : AccountTable) (input : CreateInput)
    (calls : CreateCalls) : Except XrpcError Unit :=
  if server.handleValidates input.handle = false then
    .error ⟨400, "InvalidHandle", "invalid handle syntax"⟩
  else if calls.handleRead ∧ (accounts.findByHandle input.handle).isSome then
    .error ⟨400, "HandleNotAvailable", "Handle is already taken"⟩
  else if calls.emailRead ∧ (accounts.findByEmail input.email).isSome then
    .error ⟨400, "InvalidRequest", snprintf 512 ("Email already taken: " ++ input.email)⟩
  else if server.outsideDomain input.handle then
    .error ⟨400, "UnsupportedDomain", "handle is not provided on this domain"⟩
  else if input.handle.utf8ByteSize - server.userDomain.utf8ByteSize < 3 ∨
      18 < input.handle.utf8ByteSize - server.userDomain.utf8ByteSize then
    .error ⟨400, "InvalidHandle", "handle too short or too long"⟩
  else .ok ()

/-- A DID that anyone may bring. -/
def isExampleDid (did : String) : Bool := "did:example:".toList.isPrefixOf did.toList

/-- The DID of the new account, with its key where it was made here. There is no DID where one is
imported and none is minted. -/
def chooseDid (server : CreateServer) (accounts : AccountTable) (params : Option Json)
    (calls : CreateCalls) : Except XrpcError (Option String × Option (List UInt8)) :=
  let imported := nonEmptyParam params "did"
  match imported.filter isExampleDid with
  | some did =>
    if calls.didCopied then .ok (some did, none)
    else .error ⟨500, "InternalError", "Could not allocate account DID"⟩
  | none =>
    match imported.filter fun _ => !calls.ownsDid with
    | some did =>
      .error ⟨401, "AuthRequired",
        snprintf 512 ("Missing auth to create account with did: " ++ did)⟩
    | none =>
      match imported.filter fun did => calls.didRead && (accounts.findByDid did).isSome with
      | some did => .error ⟨400, "InvalidRequest", snprintf 512 ("DID already taken: " ++ did)⟩
      | none =>
        if server.plcConfigured then
          match calls.minted with
          | none => .error ⟨500, "InternalError", "Could not mint PLC DID"⟩
          | some (did, key) => .ok (some did, some key)
        else if imported.isSome then .ok (none, none)
        else
          match calls.generated with
          | none => .error ⟨500, "InternalError", "Could not generate account DID"⟩
          | some (did, key) => .ok (some did, some key)

/-- `metalbear_account_dir_for_did`. -/
def accountDirForDid (root did : String) : String :=
  root ++ (if root.toList.getLast? = some '/' then "" else "/") ++
    String.ofList (did.toList.map fun c => if c = ':' then '_' else c)

/-- The account to be made: its DID, its key and its directory. -/
structure NewAccount where
  did : String
  key : Option (List UInt8)
  path : String
  deriving DecidableEq, Repr

/-- Everything between the invite and the first store. -/
def chooseAccount (server : CreateServer) (accounts : AccountTable) (params : Option Json)
    (input : CreateInput) (calls : CreateCalls) : Except XrpcError NewAccount :=
  match checkAvailable server accounts input calls with
  | .error e => .error e
  | .ok () =>
    match chooseDid server accounts params calls with
    | .error e => .error e
    | .ok (none, _) => .error ⟨500, "InternalError", "Could not build data directory"⟩
    | .ok (some did, key) =>
      if did ≠ "" ∧ calls.pathBuilt then
        .ok ⟨did, key, accountDirForDid server.dataDirectory did⟩
      else .error ⟨500, "InternalError", "Could not build data directory"⟩

/-! ## The stores -/

/-- The account is brought by its owner, who has to activate it. -/
def startsDeactivated (params : Option Json) : Bool :=
  (nonEmptyParam params "did").any fun did => !isExampleDid did

/-- The stores of the new account: opened, deactivated where it is imported, with the address. -/
def provision (params : Option Json) (input : CreateInput) (account : NewAccount) (d : AccountDir)
    (calls : CreateCalls) : AccountDir × Except XrpcError Unit :=
  match accountContextOpenShared account.did input.handle input.password account.key d
    calls.opening with
  | (d, false) => (d, .error ⟨500, "InternalError", "Could not provision account stores"⟩)
  | (d, true) =>
    if startsDeactivated params ∧ calls.deactivated = false then
      (d, .error ⟨500, "InternalError", "Could not deactivate imported account"⟩)
    else
      match d.emails.storeEmail input.email calls.emailStored with
      | (_, .error _) =>
        ({ d with active := d.active && !startsDeactivated params },
          .error ⟨500, "InternalError", "Could not store account email"⟩)
      | (emails, .ok ()) =>
        ({ d with active := d.active && !startsDeactivated params, emails := emails }, .ok ())

/-! ## The route -/

/-- What a handler ends with instead of a result: an answer, or a status of its own. -/
inductive RouteError where
  | answer (e : XrpcError)
  | status (e : WfError)
  deriving DecidableEq, Repr

/-- The answer of the registry. -/
def registerError (e : WfError) : XrpcError :=
  if e = .conflict then ⟨400, "HandleNotAvailable", "Handle is already taken"⟩
  else ⟨500, "InternalError", "Could not register account"⟩

/-- `create_account`: the host that it leaves, and the DID of the account. -/
def createAccount (server : CreateServer) (host : CreateHost) (params : Option Json)
    (calls : CreateCalls) : CreateHost × Except RouteError String :=
  match checkInput params with
  | .error e => (host, .error (.answer e))
  | .ok input =>
    match takeInvite server host.invites params input.handle calls.consume with
    | (invites, .error e) => ({ host with invites := invites }, .error (.answer e))
    | (invites, .ok ()) =>
      match chooseAccount server host.accounts params input calls with
      | .error e => ({ host with invites := invites }, .error (.answer e))
      | .ok account =>
        match provision params input account (host.dirs account.path) calls with
        | (dir, .error e) =>
          ({ host with
              invites := invites
              dirs := Function.update host.dirs account.path dir }, .error (.answer e))
        | (dir, .ok ()) =>
          match host.accounts.addWithEmail ⟨account.did, input.handle, account.path,
            some input.email, !startsDeactivated params⟩ calls.registered with
          | .error e =>
            ({ host with
                invites := invites
                dirs := Function.update host.dirs account.path dir },
              .error (.answer (registerError e)))
          | .ok accounts =>
            (⟨accounts, invites, Function.update host.dirs account.path dir⟩,
              if calls.sessionCreated = false then
                .error (.answer ⟨500, "InternalError", "Could not create session"⟩)
              else if calls.answered then .ok account.did
              else .error (.status .alloc))

end MetalBear.Account
