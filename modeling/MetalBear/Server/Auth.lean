import MetalBear.OAuth.Scope
import MetalBear.OAuth.Session

/-!
# Authentication of requests

The gate that every request passes before its handler runs: admin routes by password,
public routes with few restrictions, and all others by an OAuth grant or a session token,
followed by the takedown and deactivation gates. Signature checks that the protocol
library makes, DID resolution and the account bundles are parameters.
-/

namespace MetalBear.Server

open OAuth

/-! ## What a request is decided on -/

/-- `wf_xrpc_request`, as far as authentication reads it. -/
structure XrpcRequest where
  nsid : String
  method : Option String
  authHeader : Option String
  dpopHeader : Option String
  contentType : Option String
  atprotoProxy : Option String
  params : Option Json

/-- `wf_xrpc_principal_kind`. -/
inductive PrincipalKind where
  | user
  | service
  deriving DecidableEq, Repr

/-- What a request is answered with: a status and the principal it runs as. -/
structure AuthResult where
  status : WfStatus
  principal : Option (String × PrincipalKind)
  deriving DecidableEq, Repr

/-- The gate lets the request through. -/
def grant (principal : Option (String × PrincipalKind)) : AuthResult := ⟨.ok, principal⟩

/-- The gate turns the request away. -/
def refuse (error : WfError) : AuthResult := ⟨error.status, none⟩

/-- `wf_oauth_verified_token`. -/
structure VerifiedToken where
  sub : Option String
  iss : Option String
  aud : Option String
  scope : Option String
  dpopBound : Bool
  deriving DecidableEq, Repr

/-- `wf_service_auth_claims`, as far as the server reads them. -/
structure ServiceClaims where
  aud : Option String
  lxm : Option String
  deriving DecidableEq, Repr

/-- The library functions that authentication calls. -/
structure AuthLibrary extends TokenLibrary, Syntax where
  /-- `wf_oauth_verify_request`, with the store's trusted keys and replay cache. -/
  oauthVerifyRequest : Option String → Option String → String → String →
    Except WfError VerifiedToken
  /-- `wf_did_resolve_verification_key`. -/
  resolveVerificationKey : String → String → Option String
  /-- `wf_server_verify_service_auth`. -/
  verifyServiceAuth : String → String → Option ServiceClaims
  /-- `EVP_EncodeBlock`. -/
  evpEncodeBlock : String → String

/-- `metalbear_account_entry`, as far as identifiers are resolved by it. -/
structure AccountEntry where
  did : String
  handle : String
  deriving DecidableEq, Repr

/-- A row of `subject_takedown`. -/
structure SubjectTakedown where
  did : Option String
  uri : Option String
  blobCid : Option String
  takedownRef : String
  deriving DecidableEq, Repr

/-- `metalbear_account_context`, as far as authentication reads it. -/
structure AccountContext where
  did : String
  auth : AuthStore
  /-- `metalbear_account_is_active`. -/
  active : Bool
  deriving DecidableEq, Repr

/-- `metalbear_server`: its configuration and the registry's tables. -/
structure MetalbearServer where
  serviceDid : Option String
  publicUrl : Option String
  appviewDid : Option String
  modServiceDid : Option String
  adminPassword : Option String
  /-- The issuer of the OAuth store, when there is one. -/
  oauthIssuer : Option String
  accounts : List AccountEntry
  takedowns : List SubjectTakedown

/-- What the outside decides while a request is authenticated: the time, which of the
registry's SELECTs get through, and which account bundles are open or can be opened. -/
structure AuthOutcomes where
  now : Int
  findsDid : Bool
  findsHandle : Bool
  readsTakedown : Bool
  contexts : String → Option AccountContext

/-! ## Route tables -/

/-- `is_public_route`. -/
def isPublicRoute (nsid : String) : Bool :=
  nsid ∈ ["com.atproto.server.describeServer", "_health", "com.atproto.server.createSession",
    "com.atproto.server.createAccount", "com.atproto.server.requestPasswordReset",
    "com.atproto.server.resetPassword", "com.atproto.server.reserveSigningKey",
    "com.atproto.identity.resolveHandle", "com.atproto.identity.resolveDid",
    "com.atproto.identity.resolveIdentity", "com.atproto.identity.refreshIdentity",
    "com.atproto.repo.getRecord", "com.atproto.repo.describeRepo",
    "com.atproto.repo.listRecords", "com.atproto.label.queryLabels",
    "com.atproto.sync.getLatestCommit", "com.atproto.sync.getBlob", "com.atproto.sync.getRepo",
    "com.atproto.sync.getBlocks", "com.atproto.sync.getRepoStatus", "com.atproto.sync.listRepos",
    "com.atproto.sync.listReposByCollection", "com.atproto.sync.listBlobs",
    "com.atproto.sync.getRecord", "com.atproto.sync.subscribeRepos",
    "com.atproto.sync.requestCrawl"]

/-- `is_admin_route`. -/
def isAdminRoute (nsid : String) : Bool :=
  nsid ∈ ["com.atproto.server.createInviteCode", "com.atproto.server.createInviteCodes",
    "com.atproto.admin.getAccountInfo", "com.atproto.admin.getAccountInfos",
    "com.atproto.admin.getSubjectStatus", "com.atproto.admin.updateSubjectStatus",
    "com.atproto.admin.sendEmail", "com.atproto.admin.updateAccountHandle",
    "com.atproto.admin.updateAccountEmail", "com.atproto.admin.updateAccountPassword",
    "com.atproto.admin.enableAccountInvites", "com.atproto.admin.disableAccountInvites",
    "com.atproto.admin.getInviteCodes", "com.atproto.admin.disableInviteCodes",
    "com.atproto.admin.deleteAccount"]

/-- `inactive_route_allowed`. -/
def inactiveRouteAllowed (nsid : String) : Bool :=
  nsid ∈ ["com.atproto.server.getSession", "com.atproto.server.checkAccountStatus",
    "com.atproto.server.activateAccount", "com.atproto.server.deactivateAccount",
    "com.atproto.server.refreshSession", "com.atproto.server.deleteSession"]

/-- `oauth_forbidden_route`. -/
def oauthForbiddenRoute (nsid : String) : Bool :=
  nsid ∈ ["com.atproto.server.createAppPassword", "com.atproto.server.activateAccount",
    "com.atproto.server.deactivateAccount", "com.atproto.server.requestAccountDelete",
    "com.atproto.server.requestEmailUpdate", "com.atproto.server.getAccountInviteCodes"]

/-- `full_access_route`. -/
def fullAccessRoute (nsid : String) : Bool :=
  nsid ∈ ["com.atproto.server.createAppPassword", "com.atproto.server.activateAccount",
    "com.atproto.server.deactivateAccount", "com.atproto.repo.importRepo",
    "com.atproto.identity.requestPlcOperationSignature", "com.atproto.identity.signPlcOperation",
    "com.atproto.server.requestAccountDelete", "com.atproto.server.requestEmailUpdate",
    "com.atproto.server.getAccountInviteCodes"]

/-- `takendown_route_allowed`. -/
def takendownRouteAllowed (nsid : String) : Bool :=
  nsid ∈ ["com.atproto.server.deactivateAccount", "com.atproto.sync.getRepo",
    "com.atproto.sync.getBlob", "com.atproto.sync.listBlobs",
    "com.atproto.moderation.createReport", "com.atproto.server.getServiceAuth",
    "com.atproto.identity.requestPlcOperationSignature", "com.atproto.identity.signPlcOperation",
    "app.bsky.actor.getPreferences"]

/-- `refresh_route`: the pair of routes whose handlers verify the token themselves. -/
def refreshRoute (nsid : String) : Bool :=
  nsid ∈ ["com.atproto.server.refreshSession", "com.atproto.server.deleteSession"]

/-- `strncmp(str, prefix, strlen(prefix)) == 0`. -/
def startsWith (start str : String) : Bool := start.toList.isPrefixOf str.toList

/-- `proxied_appview_rpc_route`. -/
def proxiedAppviewRpcRoute (nsid : String) : Bool :=
  if startsWith "app.bsky." nsid then
    nsid != "app.bsky.actor.getPreferences" && nsid != "app.bsky.actor.putPreferences"
  else startsWith "chat.bsky." nsid || startsWith "tools.ozone." nsid

/-! ## Headers -/

/-- `bearer_token`. -/
def bearerToken (header : Option String) : Option String := do
  let header ← header
  if startsWith "Bearer " header then some (String.ofList (header.toList.drop 7)) else none

/-- `strncasecmp(str, prefix, strlen(prefix)) == 0`, for a prefix in lower case. -/
def startsWithAnyCase (start str : String) : Bool :=
  start.toList.isPrefixOf (str.toList.map Char.toLower)

/-- `is_dpop_request`. -/
def isDpopRequest (authHeader dpopHeader : Option String) : Bool :=
  match authHeader with
  | none => false
  | some header =>
    startsWithAnyCase "dpop " header || (dpopHeader.isSome && startsWithAnyCase "bearer " header)

/-- Trailing white space of a credential is skipped. -/
def trimCredential (cs : List Char) : List Char :=
  cs.rdropWhile fun c => c = '\r' ∨ c = '\n' ∨ c = ' '

/-- `admin_authenticated`. -/
def adminAuthenticated (lib : AuthLibrary) (server : MetalbearServer) (req : XrpcRequest) :
    Bool :=
  match server.adminPassword, req.authHeader with
  | some password, some header =>
    password != "" && startsWith "Basic " header &&
      decide (("admin:" ++ password).utf8ByteSize < 512) &&
      trimCredential (lib.evpEncodeBlock ("admin:" ++ password)).toList ==
        trimCredential (header.toList.drop 6)
  | _, _ => false

/-! ## Accounts -/

/-- `context_for_did`. -/
def contextForDid (o : AuthOutcomes) (did : String) : Option AccountContext := o.contexts did

/-- `context_for_identifier`: by DID first, then by handle. -/
def contextForIdentifier (server : MetalbearServer) (o : AuthOutcomes) (identifier : String) :
    Option AccountContext := do
  let byDid := if o.findsDid then server.accounts.find? (·.did == identifier) else none
  let byHandle := if o.findsHandle then server.accounts.find? (·.handle == identifier) else none
  let entry ← byDid.or byHandle
  contextForDid o entry.did

/-- `metalbear_account_registry_get_takedown`. -/
def registryGetTakedown (server : MetalbearServer) (o : AuthOutcomes)
    (did uri blobCid : Option String) : Option String :=
  if o.readsTakedown then
    (server.takedowns.find? fun t =>
      t.did == did && t.uri == uri && t.blobCid == blobCid).map (·.takedownRef)
  else none

/-- `account_is_taken_down`. -/
def accountIsTakenDown (server : MetalbearServer) (o : AuthOutcomes) (did : String) : Bool :=
  did != "" && (registryGetTakedown server o (some did) none none).isSome

/-- The account that a request names in its `repo` or its `did`. -/
def requestTarget (req : XrpcRequest) : Option String := do
  let params ← req.params
  (params.getString "repo").or (params.getString "did")

/-! ## Public routes -/

/-- The public branch of `authenticate_request`. -/
def authenticatePublic (lib : AuthLibrary) (server : MetalbearServer) (o : AuthOutcomes)
    (req : XrpcRequest) : AuthResult :=
  let unavailable :=
    startsWith "com.atproto.repo." req.nsid &&
      match (requestTarget req).bind (contextForIdentifier server o) with
      | some acct => !acct.active && !accountIsTakenDown server o acct.did
      | none => false
  if unavailable then refuse .conflict
  else if req.nsid ∈ ["com.atproto.sync.getRepo", "com.atproto.sync.getBlob",
      "com.atproto.sync.listBlobs"] then
    -- A taken-down account's own takendown token opens its own export.
    let holder := do
      let provided ← bearerToken req.authHeader
      let did ← (← req.params).getString "did"
      let acct ← contextForDid o did
      if accountIsTakenDown server o acct.did ∧
          (authVerifyAccessScope lib.toTokenLibrary acct.auth o.now provided).toOption =
            some .takendown then
        some (acct.did, PrincipalKind.user)
      else none
    grant holder
  else grant none

/-! ## OAuth grants -/

/-- `snprintf(buf, size, ...)`: the text is cut to the buffer. -/
def snprintf (size : Nat) (text : String) : String := String.ofList (text.toList.take (size - 1))

/-- `metalbear_oauth_verify_request`. -/
def oauthVerifyRequest (lib : AuthLibrary) (issuer : String) (req : XrpcRequest)
    (method uri : String) : Except WfError VerifiedToken := do
  let token ← lib.oauthVerifyRequest req.authHeader req.dpopHeader method uri
  let atproto := token.scope.any fun s => decide ("atproto".toList <:+: s.toList)
  if token.sub.getD "" ≠ "" ∧ token.iss = some issuer ∧ token.aud = some issuer ∧
      atproto = true ∧ token.dpopBound = true then
    pure token
  else throw .permission

/-- `authenticate_oauth`: the subject and the scope of the token. -/
def authenticateOauth (lib : AuthLibrary) (server : MetalbearServer) (req : XrpcRequest) :
    Except WfError (String × Option String) := do
  match server.oauthIssuer with
  | none => throw .permission
  | some issuer =>
    let htu := server.publicUrl.getD "" ++ "/xrpc/" ++ req.nsid
    if 1024 ≤ htu.utf8ByteSize then throw .internal
    let token ← oauthVerifyRequest lib issuer req (req.method.getD "GET") htu
    match token.sub with
    | none => throw .permission
    | some sub => if sub = "" then throw .permission else pure (sub, token.scope)

/-- The string member of the request's parameters, if there is one. -/
def paramString (req : XrpcRequest) (name : String) : Option String :=
  req.params.bind (·.getString name)

/-- `"<service_did>#atproto_pds"`. -/
def pdsAudience (server : MetalbearServer) : String :=
  snprintf 320 (server.serviceDid.getD "" ++ "#atproto_pds")

/-- The audience that a proxied route is asked for. -/
def proxyAudience (server : MetalbearServer) (req : XrpcRequest) : String :=
  match req.atprotoProxy with
  | some header =>
    if header ≠ "" then header else snprintf 512 (server.appviewDid.getD "" ++ "#bsky_appview")
  | none => snprintf 512 (server.appviewDid.getD "" ++ "#bsky_appview")

/-- The action that the envelope of a record write stands for. -/
def writeAction (nsid : String) : Option RepoAction :=
  if nsid = "com.atproto.repo.createRecord" then some .create
  else if nsid = "com.atproto.repo.putRecord" then some .update
  else if nsid = "com.atproto.repo.deleteRecord" then some .delete
  else none

/-- What a set of scopes short of full access lets through: one branch for every kind of
scope that stands for a method, then record writes, then reads of a collection. -/
def scopeAdmits (server : MetalbearServer) (set : ScopeSet) (req : XrpcRequest) : Bool :=
  let nsid := req.nsid
  if nsid = "com.atproto.repo.uploadBlob" then
    allowsBlob set (match req.contentType with
      | some mime => if mime ≠ "" then mime else "application/octet-stream"
      | none => "application/octet-stream")
  else if nsid = "com.atproto.repo.importRepo" then allowsAccountManage set "repo"
  else if nsid = "com.atproto.identity.requestPlcOperationSignature" ∨
      nsid = "com.atproto.identity.signPlcOperation" then allowsIdentity set "*"
  else if nsid = "com.atproto.identity.updateHandle" then allowsIdentity set "handle"
  else if nsid = "com.atproto.server.getServiceAuth" then
    let lxm := match paramString req "lxm" with
      | some lxm => if lxm ≠ "" then lxm else "*"
      | none => "*"
    match paramString req "aud" with
    | some aud => allowsRpc set lxm aud
    | none => false
  else if nsid = "com.atproto.moderation.createReport" then
    allowsRpc set nsid (pdsAudience server)
  else if nsid = "app.bsky.actor.getPreferences" ∨ nsid = "app.bsky.actor.putPreferences" then
    allowsRpc set nsid (pdsAudience server)
  else if proxiedAppviewRpcRoute nsid then allowsRpc set nsid (proxyAudience server req)
  else
    match writeAction nsid, paramString req "collection" with
    | some action, some collection => allowsRepo set collection action
    | some _, none => true
    | none, collection => allowsRead set collection

/-- The scope check of an OAuth grant; an empty scope counts as full access. -/
def oauthScopeAdmits (lib : AuthLibrary) (server : MetalbearServer) (scope : Option String)
    (req : XrpcRequest) : Bool :=
  match scope with
  | none => true
  | some scope =>
    if scope = "" then true
    else
      let set := scopeSetParse lib.toSyntax scope
      isFullAccess set || scopeAdmits server set req

/-! ## Session tokens -/

/-- `metalbear_verify_mod_service_auth`: the issuer of a moderation service's token. -/
def verifyModServiceAuth (lib : AuthLibrary) (modServiceDid serviceDid : Option String)
    (token : String) : Option String := do
  let modService ← modServiceDid
  let localService ← serviceDid
  if modService = "" ∨ localService = "" then none
  let iss ← jwtClaim lib.toTokenLibrary token "iss"
  if iss ≠ modService ∧ iss ≠ modService ++ "#atproto_labeler" then none
  let did := String.ofList (iss.toList.takeWhile (· ≠ '#'))
  let fragment := String.ofList (iss.toList.dropWhile (· ≠ '#'))
  let keyId := if fragment = "#atproto_labeler" then "#atproto_label" else "#atproto"
  let didkey ←
    if startsWith "did:key:" did then some did else lib.resolveVerificationKey did keyId
  let claims ← lib.verifyServiceAuth token didkey
  if claims.aud = some localService ∧ claims.lxm = some "app.bsky.actor.getPreferences" then
    some iss
  else none

/-- The token of a session is verified against the account it names, except on the refresh
routes, and its scope is compared with what the route requires. -/
def authenticateSession (lib : AuthLibrary) (o : AuthOutcomes) (req : XrpcRequest)
    (provided : String) : Except WfError (String × AccessScope) :=
  match jwtSubject lib.toTokenLibrary provided with
  | none => .error .permission
  | some sub =>
    if refreshRoute req.nsid then .ok (sub, .full)
    else
      match contextForDid o sub with
      | none => .error .permission
      | some acct =>
        match authVerifyAccessScope lib.toTokenLibrary acct.auth o.now provided with
        | .error error => .error error
        | .ok scope =>
          if fullAccessRoute req.nsid ∧ scope ≠ .full ∧
              ¬ (scope = .takendown ∧ takendownRouteAllowed req.nsid) then
            .error .permission
          else .ok (sub, scope)

/-! ## The gate -/

/-- The end of `authenticate_request`: the takedown gate and the deactivation gate. -/
def admitSubject (server : MetalbearServer) (o : AuthOutcomes) (req : XrpcRequest)
    (sub : String) (scope : AccessScope) : AuthResult :=
  match contextForDid o sub with
  | none => refuse .permission
  | some acct =>
    if accountIsTakenDown server o sub ∧
        (scope ≠ .takendown ∨ takendownRouteAllowed req.nsid = false) then
      refuse .permission
    else if acct.active = false ∧ inactiveRouteAllowed req.nsid = false then refuse .conflict
    else grant (some (sub, .user))

/-- The account that the parameters name is unknown; `getPreferences` is exempt. -/
def namesUnknownAccount (server : MetalbearServer) (o : AuthOutcomes) (req : XrpcRequest) :
    Bool :=
  (req.params.any Json.isObject) && req.nsid != "app.bsky.actor.getPreferences" &&
    match requestTarget req with
    | none => false
    | some target => (contextForIdentifier server o target).isNone

/-- The two ways past the tables of admin and public routes: an OAuth grant, or a bearer
token, which on one route may be a moderation service's. -/
def authenticateBearer (lib : AuthLibrary) (server : MetalbearServer) (o : AuthOutcomes)
    (req : XrpcRequest) : AuthResult :=
  if isDpopRequest req.authHeader req.dpopHeader then
    match authenticateOauth lib server req with
    | .error error => refuse error
    | .ok (sub, scope) =>
      if oauthForbiddenRoute req.nsid then refuse .permission
      else if oauthScopeAdmits lib server scope req then admitSubject server o req sub .full
      else refuse .permission
  else
    match bearerToken req.authHeader with
    | none => refuse .permission
    | some provided =>
      let modService :=
        if req.nsid = "app.bsky.actor.getPreferences" then
          verifyModServiceAuth lib server.modServiceDid server.serviceDid provided
        else none
      match modService with
      | some iss => grant (some (iss, .service))
      | none =>
        match authenticateSession lib o req provided with
        | .error error => refuse error
        | .ok (sub, scope) => admitSubject server o req sub scope

/-- `authenticate_request`. -/
def authenticateRequest (lib : AuthLibrary) (server : MetalbearServer) (o : AuthOutcomes)
    (req : XrpcRequest) : AuthResult :=
  if isAdminRoute req.nsid then
    if adminAuthenticated lib server req then grant none else refuse .permission
  else if isPublicRoute req.nsid then authenticatePublic lib server o req
  else if namesUnknownAccount server o req then refuse .permission
  else authenticateBearer lib server o req

end MetalBear.Server
