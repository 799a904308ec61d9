import MetalBear.Account.EmailRoutes
import MetalBear.Library.CString

/-!
# Signing and submitting PLC operations

Three routes that are used one after the other: the first mails a token, the second takes it and
returns an operation, and the third sends an operation to the PLC directory. Strings are what C sees
of them.
-/

namespace MetalBear.Identity

open MetalBear.Account
open MetalBear.Sync (XrpcError)

/-! ## The server -/

/-- What the routes read of the server. It has no start without `public_url`. -/
structure PlcServer where
  serviceDid : String
  publicUrl : String
  /-- The did:key of the current key of `plc_rotation`. -/
  rotationDidkey : String
  plcUrl : Option String
  deriving DecidableEq, Repr

/-- What they read of the account, besides its store. -/
structure PlcAccount where
  did : String
  handle : String
  deriving DecidableEq, Repr

/-! ## The token -/

/-- `metalbear_account_create_email_token`, into a buffer of this size. -/
def createEmailTokenInto (s : EmailStore) (kind : String) (tokenLen : Nat) (calls : MintCalls) :
    EmailStore × Except WfError String :=
  if tokenLen < 33 then (s, .error .invalidArg) else s.createEmailToken kind calls

/-- `request_plc_operation_signature`, with a buffer of this size for the token. What becomes of the
mail is not looked at. -/
def requestSignature (tokenLen : Nat) (s : EmailStore) (calls : EmailCalls) : EmailReply :=
  if calls.resolved = false then .unresolved s
  else
    match (s.getEmail calls.emailRead).filter fun email => email ≠ "" with
    | none => .refuse s 400 "InvalidRequest" "Account does not have an email address"
    | some _ =>
      match createEmailTokenInto s "plc_operation" tokenLen calls.mint with
      | (s, .error _) => .refuse s 500 "InternalError" "Could not create verification token"
      | (s, .ok token) =>
        ⟨s, if calls.answered then .ok () else .error (.status .alloc), some token, none⟩

/-- `request_plc_operation_signature`: `char token[32]`. -/
def requestPlcOperationSignature (s : EmailStore) (calls : EmailCalls) : EmailReply :=
  requestSignature 32 s calls

/-! ## Signing -/

/-- What a request to sign finds. -/
structure SignCalls where
  resolved : Bool
  verify : VerifyCalls
  answered : Bool
  deriving DecidableEq, Repr

/-- `rotationKeys` and `alsoKnownAs`: what the caller supplies, if it is an array. -/
def arrayMember (params : Json) (name : String) (default : List Json) : Json :=
  match params.getObjectItem name with
  | some (.array items) => .array items
  | _ => .array default

/-- `verificationMethods` and `services`: what the caller supplies, if it is an object. -/
def objectMember (params : Json) (name : String) (default : List (String × Json)) : Json :=
  match params.getObjectItem name with
  | some (.object members) => .object members
  | _ => .object default

/-- The operation that is returned. -/
def plcOperation (server : PlcServer) (acct : PlcAccount) (params : Json) : Json :=
  .object
    [("type", .string "plc_operation"),
      ("prev", .string ""),
      ("rotationKeys", arrayMember params "rotationKeys" [.string server.serviceDid]),
      ("alsoKnownAs", arrayMember params "alsoKnownAs"
        [.string (CString.snprintf 512 ("at://" ++ acct.handle))]),
      ("verificationMethods", objectMember params "verificationMethods"
        [("atproto", .string acct.did)]),
      ("services", objectMember params "services"
        [("atproto_pds", .object
          [("type", .string "AtprotoPersonalDataServer"),
            ("endpoint", .string (CString.snprintf 512 server.publicUrl))])])]

/-- `sign_plc_operation`: the store it leaves, and the body of the response. -/
def signPlcOperation (server : PlcServer) (acct : PlcAccount) (s : EmailStore)
    (params : Option Json) (calls : SignCalls) : EmailStore × Except RouteError Json :=
  if calls.resolved = false then
    (s, .error (.answer ⟨401, "InvalidToken", "Invalid access token"⟩))
  else
    match params, nonEmptyParam params "token" with
    | some params, some token =>
      match s.verifyEmailToken "plc_operation" token calls.verify with
      | (s, .error _) => (s, .error (.answer ⟨400, "InvalidToken", "Invalid or expired token"⟩))
      | (s, .ok ()) =>
        (s,
          if calls.answered then .ok (.object [("operation", plcOperation server acct params)])
          else .error (.status .alloc))
    | _, _ => (s, .error (.answer ⟨400, "InvalidRequest", "token is required"⟩))

/-! ## Submission -/

/-- What a submission finds. -/
structure SubmitCalls where
  resolved : Bool
  /-- The did:key of the server's rotation key is derived. -/
  derived : Bool
  printed : Bool
  submitted : Bool
  answered : Bool
  deriving DecidableEq, Repr

/-- What a submission does: its answer, and the operation that the directory was sent. -/
structure SubmitReply where
  answer : Except RouteError Unit
  forwarded : Option Json

/-- The checks of the member `services`. -/
def checkServices (server : PlcServer) (operation : Json) : Except XrpcError Unit :=
  match (operation.getObjectItem "services").bind fun s => s.getObjectItem "atproto_pds" with
  | none => .ok ()
  | some pds =>
    if pds.getString "type" ≠ some "AtprotoPersonalDataServer" then
      .error ⟨400, "InvalidRequest", "Incorrect type on atproto_pds service"⟩
    else
      match pds.getString "endpoint" with
      | none => .ok ()
      | some endpoint =>
        if endpoint ≠ server.publicUrl then
          .error ⟨400, "InvalidRequest", "Incorrect endpoint on atproto_pds service"⟩
        else .ok ()

/-- The check of the member `rotationKeys`. -/
def checkRotationKeys (server : PlcServer) (operation : Json) : Except XrpcError Unit :=
  match (operation.getObjectItem "rotationKeys").bind Json.items? with
  | none => .ok ()
  | some keys =>
    if keys.any fun key => key.valueString = some server.rotationDidkey then .ok ()
    else .error ⟨400, "InvalidRequest", "Rotation keys do not include server's rotation key"⟩

/-- The checks of an operation. -/
def checkOperation (server : PlcServer) (operation : Json) (derived : Bool) :
    Except XrpcError Unit :=
  if operation.getString "type" ≠ some "plc_operation" then
    .error ⟨400, "InvalidRequest", "Invalid operation type"⟩
  else
    match checkServices server operation with
    | .error e => .error e
    | .ok () =>
      if derived = false then
        .error ⟨500, "InternalError", "Could not derive server rotation key"⟩
      else checkRotationKeys server operation

/-- The item `operation` of the request body. -/
def operationParam (params : Option Json) : Option Json :=
  (params.bind fun p => p.getObjectItem "operation").filter Json.isObject

/-- `submit_plc_operation`. -/
def submitPlcOperation (server : PlcServer) (params : Option Json) (calls : SubmitCalls) :
    SubmitReply :=
  if calls.resolved = false then
    ⟨.error (.answer ⟨401, "InvalidToken", "Invalid access token"⟩), none⟩
  else
    match operationParam params with
    | none => ⟨.error (.answer ⟨400, "InvalidRequest", "operation is required"⟩), none⟩
    | some operation =>
      match checkOperation server operation calls.derived with
      | .error e => ⟨.error (.answer e), none⟩
      | .ok () =>
        if server.plcUrl.getD "" = "" then
          ⟨.error (.answer ⟨500, "InternalError", "No PLC directory configured"⟩), none⟩
        else if calls.printed = false then ⟨.error (.status .alloc), none⟩
        else if calls.submitted = false then
          ⟨.error (.answer ⟨502, "InternalError", "Failed to submit operation to PLC directory"⟩),
            some operation⟩
        else ⟨if calls.answered then .ok () else .error (.status .alloc), some operation⟩

/-! ## What is asked of them -/

/-- Nothing fails while the token is requested, and what is drawn is new. -/
structure RequestsWell (s : EmailStore) (calls : EmailCalls) : Prop where
  resolved : calls.resolved = true
  emailRead : calls.emailRead = true
  drawn : ∃ token, calls.mint.drawn = some token ∧ token ≠ "" ∧
    token ∉ s.tokens.map EmailToken.token
  clockRead : calls.mint.clockRead = true
  inserted : calls.mint.inserted = true
  answered : calls.answered = true

/-- Nothing fails while the token is presented, in the hour after it was issued. -/
structure SignsWell (issued : Int) (calls : SignCalls) : Prop where
  resolved : calls.resolved = true
  prepared : calls.verify.prepared = true
  deleted : calls.verify.deleted = true
  answered : calls.answered = true
  lifetime : issued ≤ calls.verify.now ∧ calls.verify.now < issued + 3600

/-- A token is issued, and accepted when it is first presented, and not again. -/
def YieldsToken (server : PlcServer) (acct : PlcAccount) (issued : Int) (reply : EmailReply) :
    Prop :=
  reply.answer = .ok () ∧ ∃ token, reply.minted = some token ∧
    ∀ params, params.getString "token" = some token →
      ∀ first second, SignsWell issued first → SignsWell issued second →
        let signed := signPlcOperation server acct reply.store (some params) first
        signed.2 = .ok (.object [("operation", plcOperation server acct params)]) ∧
          (signPlcOperation server acct signed.1 (some params) second).2 =
            .error (.answer ⟨400, "InvalidToken", "Invalid or expired token"⟩)

/-- The operation names the server's rotation key, and the server as the data server. -/
structure NamesServer (server : PlcServer) (operation : Json) : Prop where
  rotationKey : ∃ keys, (operation.getObjectItem "rotationKeys").bind Json.items? = some keys ∧
    .string server.rotationDidkey ∈ keys
  service : ∃ pds, ((operation.getObjectItem "services").bind fun s =>
      s.getObjectItem "atproto_pds") = some pds ∧
    pds.getString "type" = some "AtprotoPersonalDataServer" ∧
    pds.getString "endpoint" = some server.publicUrl

/-- The caller supplies none of the four fields. -/
def SuppliesNone (params : Json) : Prop :=
  ∀ name ∈ ["rotationKeys", "alsoKnownAs", "verificationMethods", "services"],
    params.getObjectItem name = none

/-- What the three routes owe an account. -/
structure SigningLaws (server : PlcServer) (acct : PlcAccount) (s : EmailStore) : Prop where
  token : ∀ calls, RequestsWell s calls →
    YieldsToken server acct calls.mint.now (requestPlcOperationSignature s calls)
  skeleton : ∀ params, SuppliesNone params →
    checkOperation server (plcOperation server acct params) true = .ok ()
  forwarded : ∀ params calls operation,
    (submitPlcOperation server params calls).forwarded = some operation →
      NamesServer server operation

/-- The members that the checks look for are there, and of the type they look for. -/
structure CarriesMembers (operation : Json) : Prop where
  rotationKeys : ((operation.getObjectItem "rotationKeys").bind Json.items?).isSome = true
  endpoint : ((((operation.getObjectItem "services").bind fun s =>
    s.getObjectItem "atproto_pds")).bind fun pds => pds.getString "endpoint").isSome = true

/-! ## The life of a token -/

section Token

variable {s : EmailStore} {kind token : String} {calls : VerifyCalls} {expiresAt : Int}

theorem admits_eq_false (h : token ∉ s.tokens.map EmailToken.token) (now : Int) :
    ∀ row ∈ s.tokens, row.admits kind token now = false := by
  intro row hrow
  have hne : row.token ≠ token := fun heq => h (heq ▸ List.mem_map_of_mem hrow)
  simp [EmailToken.admits, hne]

/-- A token that the table does not have is refused. -/
theorem verifyEmailToken_absent (h : token ∉ s.tokens.map EmailToken.token)
    (hprepared : calls.prepared = true) (hdeleted : calls.deleted = true) :
    s.verifyEmailToken kind token calls = (s, .error .permission) := by
  have hcount : s.changesAfter kind token calls = 0 := by
    rw [EmailStore.changesAfter, if_pos hdeleted, List.countP_eq_zero]
    intro row hrow
    rw [admits_eq_false h _ row hrow]
    decide
  have hrows : s.rowsAfter kind token calls = s.tokens := by
    rw [EmailStore.rowsAfter, if_pos hdeleted, List.filter_eq_self]
    intro row hrow
    rw [admits_eq_false h _ row hrow]
    rfl
  rw [EmailStore.verifyEmailToken, if_pos hprepared, hcount, if_neg (Nat.lt_irrefl 0), hrows]

/-- A token that was just put into the table is accepted, and is gone then. -/
theorem verifyEmailToken_issued (h : token ∉ s.tokens.map EmailToken.token)
    (hprepared : calls.prepared = true) (hdeleted : calls.deleted = true)
    (hnow : calls.now < expiresAt) :
    ({ s with tokens := s.tokens ++ [⟨token, kind, expiresAt⟩] } : EmailStore).verifyEmailToken
        kind token calls =
      ({ s with emailConfirmed := s.emailConfirmed || kind = "confirm" && calls.confirmed },
        .ok ()) := by
  have hadmits : EmailToken.admits ⟨token, kind, expiresAt⟩ kind token calls.now = true := by
    simp [EmailToken.admits, hnow]
  have hcount : 0 < EmailStore.changesAfter
      { s with tokens := s.tokens ++ [⟨token, kind, expiresAt⟩] } kind token calls := by
    rw [EmailStore.changesAfter, if_pos hdeleted, List.countP_pos_iff]
    exact ⟨_, List.mem_append_right _ (List.mem_singleton.mpr rfl), hadmits⟩
  have hrows : EmailStore.rowsAfter
      { s with tokens := s.tokens ++ [⟨token, kind, expiresAt⟩] } kind token calls = s.tokens := by
    rw [EmailStore.rowsAfter, if_pos hdeleted, List.filter_append, List.filter_eq_self.mpr,
      List.filter_cons_of_neg, List.filter_nil, List.append_nil]
    · rw [hadmits]
      decide
    · intro row hrow
      rw [admits_eq_false h _ row hrow]
      rfl
  rw [EmailStore.verifyEmailToken, if_pos hprepared, if_pos hcount, hrows]

end Token

section Signing

variable {server : PlcServer} {acct : PlcAccount} {s : EmailStore} {calls : EmailCalls}
  {params : Json} {token : String} {sign : SignCalls} {issued : Int} {tokenLen : Nat}

/-- What a request to sign does with the store. -/
theorem signPlcOperation_eq (hresolved : sign.resolved = true) (hanswered : sign.answered = true)
    (htoken : params.getString "token" = some token) (hne : token ≠ "") :
    signPlcOperation server acct s (some params) sign =
      match s.verifyEmailToken "plc_operation" token sign.verify with
      | (s, .error _) => (s, .error (.answer ⟨400, "InvalidToken", "Invalid or expired token"⟩))
      | (s, .ok ()) => (s, .ok (.object [("operation", plcOperation server acct params)])) := by
  have hparam : nonEmptyParam (some params) "token" = some token := by
    rw [nonEmptyParam, Option.bind_some, htoken, Option.filter_some, if_pos (by simpa using hne)]
  unfold signPlcOperation
  rw [if_neg (by simp [hresolved])]
  simp only [hparam, hanswered, if_true]

/-- A request that is carried out depends on the buffer. -/
theorem requestSignature_eq (hwell : RequestsWell s calls)
    (hemail : ∃ email, s.email = some email ∧ email ≠ "") :
    ∃ token, token ≠ "" ∧ token ∉ s.tokens.map EmailToken.token ∧
      requestSignature tokenLen s calls =
        if tokenLen < 33 then
          .refuse s 500 "InternalError" "Could not create verification token"
        else
          ⟨{ s with tokens := s.tokens ++ [⟨token, "plc_operation", calls.mint.now + 3600⟩] },
            .ok (), some token, none⟩ := by
  obtain ⟨email, hemail, hne⟩ := hemail
  obtain ⟨token, hdrawn, htoken, hnew⟩ := hwell.drawn
  refine ⟨token, htoken, hnew, ?_⟩
  have hread : (s.getEmail calls.emailRead).filter (fun email => email ≠ "") = some email := by
    rw [EmailStore.getEmail, if_pos hwell.emailRead, hemail, Option.filter_some,
      if_pos (by simpa using hne)]
  have hcreated : s.createEmailToken "plc_operation" calls.mint =
      ({ s with tokens := s.tokens ++ [⟨token, "plc_operation", calls.mint.now + 3600⟩] },
        .ok token) := by
    rw [EmailStore.createEmailToken, hdrawn]
    exact if_pos ⟨hwell.clockRead, hwell.inserted, hnew⟩
  rw [requestSignature, if_neg (by simp [hwell.resolved]), hread]
  by_cases hshort : tokenLen < 33
  · simp only [createEmailTokenInto, if_pos hshort]
  · simp only [createEmailTokenInto, if_neg hshort, hcreated, hwell.answered, if_true]

/-- It is the buffer alone on which it depends whether a token comes of the request, which is then
accepted once. -/
theorem requestSignature_yields_iff (hwell : RequestsWell s calls)
    (hemail : ∃ email, s.email = some email ∧ email ≠ "") :
    YieldsToken server acct calls.mint.now (requestSignature tokenLen s calls) ↔
      33 ≤ tokenLen := by
  obtain ⟨token, hne, hnew, hreply⟩ := @requestSignature_eq s calls tokenLen hwell hemail
  constructor
  · rintro ⟨hanswer, -⟩
    by_contra hshort
    rw [hreply, if_pos (by omega)] at hanswer
    cases hanswer
  · intro hlong
    rw [hreply, if_neg (by omega)]
    refine ⟨rfl, token, rfl, fun params htoken first second hfirst hsecond => ?_⟩
    have haccepted := @verifyEmailToken_issued s "plc_operation" token first.verify _ hnew
      hfirst.prepared hfirst.deleted hfirst.lifetime.2
    dsimp only
    rw [signPlcOperation_eq hfirst.resolved hfirst.answered htoken hne, haccepted]
    refine ⟨rfl, ?_⟩
    dsimp only
    have hrefused (confirmed : Bool) := @verifyEmailToken_absent
      { s with emailConfirmed := confirmed } "plc_operation" token second.verify hnew
      hsecond.prepared hsecond.deleted
    rw [signPlcOperation_eq hsecond.resolved hsecond.answered htoken hne, hrefused]

end Signing

/-! ## What is signed and what is submitted -/

section Operations

variable {server : PlcServer} {acct : PlcAccount} {operation : Json}

/-- The service of an operation without fields of the caller. -/
def defaultService (server : PlcServer) : Json :=
  .object
    [("type", .string "AtprotoPersonalDataServer"),
      ("endpoint", .string (CString.snprintf 512 server.publicUrl))]

/-- The members of an operation without fields of the caller that a submission looks at. -/
theorem plcOperation_default {params : Json} (h : SuppliesNone params) :
    (plcOperation server acct params).getString "type" = some "plc_operation" ∧
      ((plcOperation server acct params).getObjectItem "rotationKeys").bind Json.items? =
        some [.string server.serviceDid] ∧
      ((plcOperation server acct params).getObjectItem "services").bind
        (fun s => s.getObjectItem "atproto_pds") = some (defaultService server) := by
  have hkeys : arrayMember params "rotationKeys" [.string server.serviceDid] =
      .array [.string server.serviceDid] := by
    rw [arrayMember, h _ (by decide)]
  have hservices : objectMember params "services" [("atproto_pds", defaultService server)] =
      .object [("atproto_pds", defaultService server)] := by
    rw [objectMember, h _ (by decide)]
  refine ⟨rfl, ?_, ?_⟩
  · exact congrArg Json.items? hkeys
  · exact congrArg (fun s => s.getObjectItem "atproto_pds") hservices

/-- What the checks of the services accept. -/
theorem checkServices_eq_ok : checkServices server operation = .ok () ↔
    ∀ pds, ((operation.getObjectItem "services").bind fun s =>
        s.getObjectItem "atproto_pds") = some pds →
      pds.getString "type" = some "AtprotoPersonalDataServer" ∧
        ∀ endpoint, pds.getString "endpoint" = some endpoint → endpoint = server.publicUrl := by
  rw [checkServices]
  cases hpds : (operation.getObjectItem "services").bind fun s => s.getObjectItem "atproto_pds" with
  | none => simp
  | some pds =>
    cases hendpoint : pds.getString "endpoint" with
    | none => simp [hendpoint]
    | some endpoint =>
      by_cases htype : pds.getString "type" = some "AtprotoPersonalDataServer"
      · by_cases hurl : endpoint = server.publicUrl <;> simp [hendpoint, htype, hurl]
      · simp [htype]

/-- What the check of the rotation keys accepts. -/
theorem checkRotationKeys_eq_ok : checkRotationKeys server operation = .ok () ↔
    ∀ keys, (operation.getObjectItem "rotationKeys").bind Json.items? = some keys →
      .string server.rotationDidkey ∈ keys := by
  have hstring (key : Json) : key.valueString = some server.rotationDidkey ↔
      key = .string server.rotationDidkey := by
    cases key <;> simp [Json.valueString]
  rw [checkRotationKeys]
  cases hkeys : (operation.getObjectItem "rotationKeys").bind Json.items? with
  | none => simp
  | some keys => simp [hstring]

theorem checkOperation_eq_ok {derived : Bool} :
    checkOperation server operation derived = .ok () ↔
      operation.getString "type" = some "plc_operation" ∧
        checkServices server operation = .ok () ∧ derived = true ∧
        checkRotationKeys server operation = .ok () := by
  rw [checkOperation]
  by_cases htype : operation.getString "type" = some "plc_operation"
  · cases hservices : checkServices server operation with
    | error e => simp [htype]
    | ok u => cases derived <;> simp [htype]
  · simp [htype]

/-- The operation that is signed by default passes the checks only on a host whose own DID is its
rotation key. -/
theorem checkOperation_default {params : Json} (h : SuppliesNone params) :
    checkOperation server (plcOperation server acct params) true = .ok () ↔
      server.serviceDid = server.rotationDidkey ∧ server.publicUrl.utf8ByteSize < 512 := by
  obtain ⟨htype, hkeys, hservices⟩ := @plcOperation_default server acct params h
  have hendpoint : (defaultService server).getString "endpoint" =
      some (CString.snprintf 512 server.publicUrl) := rfl
  have hdefault : (defaultService server).getString "type" =
      some "AtprotoPersonalDataServer" := rfl
  rw [checkOperation_eq_ok, checkServices_eq_ok, checkRotationKeys_eq_ok, hkeys, hservices,
    ← @CString.snprintf_eq_self_iff 512 server.publicUrl (by decide)]
  constructor
  · rintro ⟨-, hpds, -, hrotation⟩
    have hmem := hrotation _ rfl
    rw [List.mem_singleton] at hmem
    exact ⟨(Json.string.inj hmem).symm, (hpds _ rfl).2 _ hendpoint⟩
  · rintro ⟨hkey, hurl⟩
    refine ⟨htype, fun pds hpds => ?_, rfl, fun keys hkeys => ?_⟩
    · obtain rfl := Option.some.inj hpds
      refine ⟨hdefault, fun endpoint hget => ?_⟩
      rw [hendpoint] at hget
      exact (Option.some.inj hget).symm.trans hurl
    · obtain rfl := Option.some.inj hkeys
      rw [List.mem_singleton, hkey]

/-- What is sent to the directory has passed the checks. -/
theorem submitPlcOperation_forwarded {params : Option Json} {calls : SubmitCalls}
    (h : (submitPlcOperation server params calls).forwarded = some operation) :
    checkServices server operation = .ok () ∧ checkRotationKeys server operation = .ok () := by
  unfold submitPlcOperation at h
  split at h
  · cases h
  · split at h
    · cases h
    · next op hop =>
      split at h
      · cases h
      · next hcheck =>
        obtain ⟨-, hservices, -, hkeys⟩ := checkOperation_eq_ok.mp hcheck
        have hop : op = operation := by
          split_ifs at h
          all_goals exact Option.some.inj h
        exact hop ▸ ⟨hservices, hkeys⟩

/-- An operation that is sent names the server if and only if it has the members that the checks
look at. -/
theorem namesServer_iff {params : Option Json} {calls : SubmitCalls}
    (h : (submitPlcOperation server params calls).forwarded = some operation) :
    NamesServer server operation ↔ CarriesMembers operation := by
  obtain ⟨hservices, hkeys⟩ := submitPlcOperation_forwarded h
  constructor
  · rintro ⟨⟨keys, hget, -⟩, pds, hpds, -, hendpoint⟩
    refine ⟨by rw [hget]; rfl, ?_⟩
    rw [hpds, Option.bind_some, hendpoint]
    rfl
  · rintro ⟨hpresent, hendpoint⟩
    obtain ⟨keys, hget⟩ := Option.isSome_iff_exists.mp hpresent
    obtain ⟨url, hurl⟩ := Option.isSome_iff_exists.mp hendpoint
    obtain ⟨pds, hpds, hurl⟩ := Option.bind_eq_some_iff.mp hurl
    obtain ⟨htype, hsame⟩ := checkServices_eq_ok.mp hservices pds hpds
    refine ⟨⟨keys, hget, checkRotationKeys_eq_ok.mp hkeys keys hget⟩, pds, hpds, htype, ?_⟩
    rw [hurl, hsame url hurl]

end Operations

/-! ## The three routes -/

/-- There is always something new to be drawn. -/
theorem exists_requestsWell (s : EmailStore) : ∃ calls, RequestsWell s calls := by
  obtain ⟨token, hnew⟩ := Infinite.exists_notMem_finset
    (insert "" (s.tokens.map EmailToken.token).toFinset)
  rw [Finset.mem_insert, not_or, List.mem_toFinset] at hnew
  exact ⟨⟨true, none, true, ⟨some token, true, true, 0⟩, true, ⟨true, true, 0, true, 0⟩, true, true,
    true⟩, rfl, rfl, ⟨token, rfl, hnew.1, hnew.2⟩, rfl, rfl, rfl⟩

/-- The three routes do not do what they owe an account: no token ever comes of a request. An
operation that is signed without fields of the caller is accepted where the host's own DID is its
rotation key and its URL is short, and what is sent to the directory names the server where it has
the members that are checked. -/
theorem signingLaws_never (server : PlcServer) (acct : PlcAccount) (s : EmailStore)
    (hemail : ∃ email, s.email = some email ∧ email ≠ "") :
    ¬ SigningLaws server acct s ∧
      (∀ calls, RequestsWell s calls →
        ¬ YieldsToken server acct calls.mint.now (requestPlcOperationSignature s calls)) ∧
      (∀ params, SuppliesNone params →
        (checkOperation server (plcOperation server acct params) true = .ok () ↔
          server.serviceDid = server.rotationDidkey ∧ server.publicUrl.utf8ByteSize < 512)) ∧
      ∀ params calls operation,
        (submitPlcOperation server params calls).forwarded = some operation →
          (NamesServer server operation ↔ CarriesMembers operation) := by
  have htoken : ∀ calls, RequestsWell s calls →
      ¬ YieldsToken server acct calls.mint.now (requestPlcOperationSignature s calls) := by
    intro calls hwell hyields
    have hlong : 33 ≤ 32 := (requestSignature_yields_iff hwell hemail).mp hyields
    omega
  refine ⟨fun hlaws => ?_, htoken, fun params => checkOperation_default,
    fun params calls operation => namesServer_iff⟩
  obtain ⟨calls, hwell⟩ := exists_requestsWell s
  exact htoken calls hwell (hlaws.token calls hwell)

/-- A host with a rotation key and a directory. -/
def exampleServer : PlcServer :=
  ⟨"did:web:pds.example", "https://pds.example", "did:key:zQ3sh", some "https://plc.directory"⟩

/-- An account with an address. -/
def exampleStore : EmailStore := ⟨some "alice@pds.example", true, []⟩

theorem signingLaws_never_example :
    ¬ SigningLaws exampleServer ⟨"did:plc:alice", "alice.pds.example"⟩ exampleStore :=
  (signingLaws_never _ _ exampleStore ⟨_, rfl, by decide⟩).1

/-- A request in which nothing fails. -/
def exampleRequest : EmailCalls :=
  ⟨true, none, true, ⟨some "00112233445566778899aabbccddeeff", true, true, 100⟩, true,
    ⟨true, true, 0, true, 0⟩, true, true, true⟩

/-- No token is issued; the default operation is refused; and an operation without members is
sent to the directory. -/
theorem plc_signing_fails :
    (requestPlcOperationSignature exampleStore exampleRequest).answer =
        .error (.answer ⟨500, "InternalError", "Could not create verification token"⟩) ∧
      checkOperation exampleServer
          (plcOperation exampleServer ⟨"did:plc:alice", "alice.pds.example"⟩ (.object [])) true =
        .error ⟨400, "InvalidRequest", "Rotation keys do not include server's rotation key"⟩ ∧
      (submitPlcOperation exampleServer
          (some (.object [("operation", .object [("type", .string "plc_operation")])]))
          ⟨true, true, true, true, true⟩).forwarded =
        some (.object [("type", .string "plc_operation")]) ∧
      ¬ SigningLaws exampleServer ⟨"did:plc:alice", "alice.pds.example"⟩ exampleStore := by
  have hrequest : (requestPlcOperationSignature exampleStore exampleRequest).answer =
      .error (.answer ⟨500, "InternalError", "Could not create verification token"⟩) := rfl
  refine ⟨hrequest, by decide +kernel, rfl, fun hlaws => ?_⟩
  have hwell : RequestsWell exampleStore exampleRequest :=
    ⟨rfl, rfl, ⟨_, rfl, by decide, List.not_mem_nil⟩, rfl, rfl, rfl⟩
  have hanswer := (hlaws.token exampleRequest hwell).1
  rw [hrequest] at hanswer
  cases hanswer

end MetalBear.Identity
