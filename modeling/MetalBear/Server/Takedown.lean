import MetalBear.Server.Auth

/-!
# Takendown sessions

A session of scope `takendown` is opened for the holder of a taken-down account and is
meant for the takendown routes only. The gate is followed for every session token on every
route that needs one: when it opens, and when what it opens is more than the scope allows.
-/

namespace MetalBear.Server

open OAuth

/-! ## Sessions and what they may do -/

/-- The verifiers of the protocol library ask for the signature of a key pair, so neither
takes a session token, which a store accepts only when signed with its own secret. -/
def RefusesSessionTokens (lib : AuthLibrary) : Prop :=
  ∀ store now token scope,
    authVerifyAccessScope lib.toTokenLibrary store now token = .ok scope →
      (∀ header dpop method uri v, bearerToken header = some token →
        lib.oauthVerifyRequest header dpop method uri ≠ .ok v) ∧
      ∀ didkey, lib.verifyServiceAuth token didkey = none

/-- A request to a route that is neither admin nor public presents a valid session token
of this scope for this account. -/
structure SessionRequest (lib : AuthLibrary) (o : AuthOutcomes) (req : XrpcRequest)
    (token sub : String) (acct : AccountContext) (scope : AccessScope) : Prop where
  bearer : bearerToken req.authHeader = some token
  subject : jwtSubject lib.toTokenLibrary token = some sub
  account : contextForDid o sub = some acct
  verified : authVerifyAccessScope lib.toTokenLibrary acct.auth o.now token = .ok scope
  notAdmin : isAdminRoute req.nsid = false
  notPublic : isPublicRoute req.nsid = false

/-- A takedown is recorded against the account. -/
def TakenDown (server : MetalbearServer) (did : String) : Prop :=
  ∃ t ∈ server.takedowns, t.did = some did ∧ t.uri = none ∧ t.blobCid = none

/-- A request that is let through goes to a takendown route when the session is of scope
`takendown`, and comes from an account that is not taken down when it is of any other. -/
def Confined (server : MetalbearServer) (nsid sub : String) (scope : AccessScope)
    (result : AuthResult) : Prop :=
  result.status = .ok →
    (scope = .takendown → takendownRouteAllowed nsid = true) ∧
      (scope ≠ .takendown → ¬ TakenDown server sub)

/-- What every session has to pass apart from the scope and the takedown: no DPoP proof, no
unknown account among the parameters, and an account that may act on the route. -/
structure GatesOpen (server : MetalbearServer) (o : AuthOutcomes) (req : XrpcRequest)
    (acct : AccountContext) : Prop where
  session : isDpopRequest req.authHeader req.dpopHeader = false
  known : namesUnknownAccount server o req = false
  active : acct.active = true ∨ inactiveRouteAllowed req.nsid = true

/-- The gates are open to a session that is not to pass: one of scope `takendown` on another
route once the account is no longer found taken down, unless the route asks for full access
and verifies the token here; or one of another scope while the takedown cannot be read. -/
def Lapses (server : MetalbearServer) (o : AuthOutcomes) (req : XrpcRequest) (sub : String)
    (acct : AccountContext) (scope : AccessScope) : Prop :=
  GatesOpen server o req acct ∧
    ((scope = .takendown ∧ takendownRouteAllowed req.nsid = false ∧
        (refreshRoute req.nsid = true ∨ fullAccessRoute req.nsid = false) ∧
        (o.readsTakedown = false ∨ ¬ TakenDown server sub)) ∨
      (scope ≠ .takendown ∧ TakenDown server sub ∧ o.readsTakedown = false ∧
        (refreshRoute req.nsid = true ∨ fullAccessRoute req.nsid = false ∨ scope = .full)))

/-! ## The parts of the gate -/

theorem jwtClaim_ne_empty {lib : TokenLibrary} {token name value : String}
    (h : jwtClaim lib token name = some value) : value ≠ "" := by
  rintro rfl
  simp only [jwtClaim, Option.bind_eq_bind, Option.bind_eq_some_iff] at h
  obtain ⟨_, _, _, _, _, _, _, _, value, _, hv⟩ := h
  by_cases he : value = "" <;> simp [he] at hv

/-- The takedown gate sees a recorded takedown exactly when its SELECT gets through. -/
theorem accountIsTakenDown_iff {server : MetalbearServer} {o : AuthOutcomes} {did : String}
    (hdid : did ≠ "") :
    accountIsTakenDown server o did = true ↔ o.readsTakedown = true ∧ TakenDown server did := by
  have hsome : (server.takedowns.find? fun t =>
      t.did == some did && t.uri == none && t.blobCid == none).isSome = true ↔
        TakenDown server did := by
    simp [TakenDown, List.find?_isSome, and_assoc]
  cases hr : o.readsTakedown
  · simp [accountIsTakenDown, registryGetTakedown, hr]
  · simp [accountIsTakenDown, registryGetTakedown, hr, hdid, ← hsome]

/-- The token of a bearer header. -/
theorem bearerToken_bearer (token : String) :
    bearerToken (some ("Bearer " ++ token)) = some token := by
  simp [bearerToken, startsWith]

/-- A bearer header without a proof is no OAuth request. -/
theorem isDpopRequest_bearer (token : String) :
    isDpopRequest (some ("Bearer " ++ token)) none = false := by
  simp [isDpopRequest, startsWithAnyCase, List.isPrefixOf]

/-- The last two gates let an account through that is not taken down, or through a takendown
session to a takendown route, and that is active or on a route for the inactive. -/
theorem admitSubject_ok_iff {server : MetalbearServer} {o : AuthOutcomes} {req : XrpcRequest}
    {sub : String} {acct : AccountContext} (scope : AccessScope)
    (h : contextForDid o sub = some acct) :
    (admitSubject server o req sub scope).status = .ok ↔
      (accountIsTakenDown server o sub = true →
        scope = .takendown ∧ takendownRouteAllowed req.nsid = true) ∧
      (acct.active = true ∨ inactiveRouteAllowed req.nsid = true) := by
  simp only [admitSubject, h]
  split
  · next hdown =>
    have hneg : ¬ (accountIsTakenDown server o sub = true →
        scope = .takendown ∧ takendownRouteAllowed req.nsid = true) := by
      rintro himp
      obtain ⟨hs, hr⟩ := himp hdown.1
      simp [hs, hr] at hdown
    simp [refuse, hneg]
  · next hdown =>
    have hpos : accountIsTakenDown server o sub = true →
        scope = .takendown ∧ takendownRouteAllowed req.nsid = true := by
      intro ht
      simpa [ht] using hdown
    split
    · next hact => simp [refuse, hact.1, hact.2]
    · next hact =>
      have hopen : acct.active = true ∨ inactiveRouteAllowed req.nsid = true := by
        simpa [Decidable.or_iff_not_not_and_not] using hact
      exact ⟨fun _ => ⟨hpos, hopen⟩, fun _ => rfl⟩

/-- The scope a session is admitted with: the refresh routes do not read the token's. -/
def admittedScope (nsid : String) (scope : AccessScope) : AccessScope :=
  if refreshRoute nsid then .full else scope

/-- A session token is taken for its subject, unless the route asks for more scope. -/
theorem authenticateSession_eq {lib : AuthLibrary} {o : AuthOutcomes} {req : XrpcRequest}
    {token sub : String} {acct : AccountContext} {scope : AccessScope}
    (h : SessionRequest lib o req token sub acct scope) :
    authenticateSession lib o req token =
      if refreshRoute req.nsid = false ∧ fullAccessRoute req.nsid = true ∧ scope ≠ .full ∧
          ¬ (scope = .takendown ∧ takendownRouteAllowed req.nsid = true) then
        .error .permission
      else .ok (sub, admittedScope req.nsid scope) := by
  cases hr : refreshRoute req.nsid with
  | true => simp [authenticateSession, h.subject, admittedScope, hr]
  | false => simp [authenticateSession, h.subject, h.account, h.verified, admittedScope, hr]

/-- Without a token that the protocol library verifies there is no OAuth grant. -/
theorem authenticateOauth_error {lib : AuthLibrary} (server : MetalbearServer)
    {req : XrpcRequest}
    (h : ∀ method uri v, lib.oauthVerifyRequest req.authHeader req.dpopHeader method uri ≠ .ok v) :
    ∃ error, authenticateOauth lib server req = .error error := by
  cases hresult : authenticateOauth lib server req with
  | error error => exact ⟨error, rfl⟩
  | ok granted =>
    unfold authenticateOauth at hresult
    split at hresult
    · cases hresult
    · next issuer _ =>
      simp only [oauthVerifyRequest] at hresult
      cases hv : lib.oauthVerifyRequest req.authHeader req.dpopHeader (req.method.getD "GET")
          (server.publicUrl.getD "" ++ "/xrpc/" ++ req.nsid) with
      | ok v => exact absurd hv (h _ _ _)
      | error error =>
        rw [hv] at hresult
        split at hresult <;> cases hresult

/-- Without claims that the protocol library verifies there is no moderation service. -/
theorem verifyModServiceAuth_none {lib : AuthLibrary} {modService service : Option String}
    {token : String} (h : ∀ didkey, lib.verifyServiceAuth token didkey = none) :
    verifyModServiceAuth lib modService service token = none := by
  simp only [verifyModServiceAuth, h, Option.bind_eq_bind, Option.bind_none,
    Option.bind_fun_none, ite_self]

/-- When the gate opens to a session. -/
theorem authenticateRequest_session_iff {lib : AuthLibrary} {server : MetalbearServer}
    {o : AuthOutcomes} {req : XrpcRequest} {token sub : String} {acct : AccountContext}
    {scope : AccessScope} (hlib : RefusesSessionTokens lib)
    (h : SessionRequest lib o req token sub acct scope) :
    (authenticateRequest lib server o req).status = .ok ↔
      GatesOpen server o req acct ∧
        (refreshRoute req.nsid = true ∨ fullAccessRoute req.nsid = false ∨ scope = .full ∨
          (scope = .takendown ∧ takendownRouteAllowed req.nsid = true)) ∧
        (accountIsTakenDown server o sub = true →
          admittedScope req.nsid scope = .takendown ∧ takendownRouteAllowed req.nsid = true) := by
  obtain ⟨hoauth, hservice⟩ := hlib _ _ _ _ h.verified
  simp only [authenticateRequest, h.notAdmin, h.notPublic, Bool.false_eq_true, if_false]
  by_cases hknown : namesUnknownAccount server o req = true
  · have hclosed : ¬ GatesOpen server o req acct := fun hg => by simp [hg.known] at hknown
    simp [hknown, hclosed, refuse]
  by_cases hdpop : isDpopRequest req.authHeader req.dpopHeader = true
  · have hclosed : ¬ GatesOpen server o req acct := fun hg => by simp [hg.session] at hdpop
    obtain ⟨error, herror⟩ := authenticateOauth_error server (hoauth _ req.dpopHeader · · · h.bearer)
    simp [hknown, hclosed, authenticateBearer, hdpop, herror, refuse]
  have hmod : verifyModServiceAuth lib server.modServiceDid server.serviceDid token = none :=
    verifyModServiceAuth_none hservice
  have hgates : GatesOpen server o req acct ↔
      (acct.active = true ∨ inactiveRouteAllowed req.nsid = true) :=
    ⟨fun hg => hg.active, fun ha => ⟨by simpa using hdpop, by simpa using hknown, ha⟩⟩
  simp only [hknown, authenticateBearer, hdpop, h.bearer, hmod, ite_self, authenticateSession_eq h,
    Bool.false_eq_true, if_false]
  by_cases hscope : refreshRoute req.nsid = true ∨ fullAccessRoute req.nsid = false ∨
      scope = .full ∨ (scope = .takendown ∧ takendownRouteAllowed req.nsid = true)
  · have hpass : ¬ (refreshRoute req.nsid = false ∧ fullAccessRoute req.nsid = true ∧
        scope ≠ .full ∧ ¬ (scope = .takendown ∧ takendownRouteAllowed req.nsid = true)) := by
      rintro ⟨h1, h2, h3, h4⟩
      simp [h1, h2, h3, h4] at hscope
    simp only [hpass, if_false, admitSubject_ok_iff _ h.account, hgates, hscope, true_and]
    exact and_comm
  · have hstop : refreshRoute req.nsid = false ∧ fullAccessRoute req.nsid = true ∧
        scope ≠ .full ∧ ¬ (scope = .takendown ∧ takendownRouteAllowed req.nsid = true) := by
      simpa only [not_or, Bool.not_eq_true, Bool.not_eq_false] using hscope
    simp [hstop, refuse]

/-! ## Confinement -/

/-- A session token is held to its scope, on every route and in every state of the account,
if and only if the gates do not lapse. -/
theorem session_confined_iff {lib : AuthLibrary} (server : MetalbearServer) {o : AuthOutcomes}
    {req : XrpcRequest} {token sub : String} {acct : AccountContext} {scope : AccessScope}
    (hlib : RefusesSessionTokens lib) (h : SessionRequest lib o req token sub acct scope) :
    Confined server req.nsid sub scope (authenticateRequest lib server o req) ↔
      ¬ Lapses server o req sub acct scope := by
  rw [Confined, authenticateRequest_session_iff hlib h,
    accountIsTakenDown_iff (jwtClaim_ne_empty h.subject)]
  by_cases hgates : GatesOpen server o req acct
  · simp only [Lapses, hgates, true_and]
    by_cases hs : scope = .takendown
    · subst hs
      cases htr : takendownRouteAllowed req.nsid with
      | true => simp
      | false =>
        simp only [Bool.false_eq_true, and_false, or_false, ne_eq, not_true, false_and, true_and,
          reduceCtorEq]
        cases o.readsTakedown <;> by_cases hdown : TakenDown server sub <;> simp [hdown]
    · simp only [hs, ne_eq, not_false_eq_true, true_and, false_and, or_false, false_or]
      have hadm : admittedScope req.nsid scope ≠ .takendown := by
        unfold admittedScope
        split <;> simp [hs]
      simp only [hadm, false_and]
      cases o.readsTakedown <;> by_cases hdown : TakenDown server sub <;> simp [hdown]
  · simp [Lapses, hgates]

/-! ## A takedown that is lifted -/

section Lifted

/-- The header of every access token. -/
def accessHeader : Json := .object [("typ", .string "at+jwt"), ("alg", .string "HS256")]

/-- The payload of a takendown session of `did:plc:alice`. -/
def takendownPayload : Json :=
  .object [("scope", .string "com.atproto.takendown"), ("aud", .string "did:web:pds.test"),
    ("sub", .string "did:plc:alice"), ("iat", .number (Double.finite 1700000000)),
    ("exp", .number (Double.finite 1700007200))]

/-- The token of that header and payload, signed under the key 0, 1, …, 31. -/
def takendownText : List Char :=
  "eyJ0eXAiOiJhdCtqd3QiLCJhbGciOiJIUzI1NiJ9".toList ++ '.' ::
    ("eyJzY29wZSI6ImNvbS5hdHByb3RvLnRha2VuZG93".toList ++
      ("biIsImF1ZCI6ImRpZDp3ZWI6cGRzLnRlc3QiLCJz".toList ++
        ("dWIiOiJkaWQ6cGxjOmFsaWNlIiwiaWF0IjoxNzAw".toList ++
          ("MDAwMDAwLCJleHAiOjE3MDAwMDcyMDB9".toList ++
            '.' :: "eRDs3Di49rlEQ8wvDuARS-FxHcHV_eJJH0QeprIcuq8".toList))))

def takendownToken : String := String.ofList takendownText

/-- The libraries on that token: its texts parse to its header and payload, the hash is the
one it is signed with, and no verifier of another kind takes it. -/
def takendownLibrary : AuthLibrary where
  hmacSha256 _ _ := [121, 16, 236, 220, 56, 184, 246, 185, 68, 67, 204, 47, 14, 224, 17, 75, 225,
    113, 29, 193, 213, 253, 226, 73, 31, 68, 30, 166, 178, 28, 186, 175]
  parseJson raw := if raw.length = 30 then some accessHeader else some takendownPayload
  wfBase64urlDecode segment := base64urlDecode segment.toList
  nsidIsValid _ := true
  didIsValid _ := true
  oauthVerifyRequest _ _ _ _ := .error .permission
  resolveVerificationKey _ _ := none
  verifyServiceAuth _ _ := none
  evpEncodeBlock text := text

/-- The account of `did:plc:alice`, active. -/
def aliceAccount : AccountContext where
  did := "did:plc:alice"
  auth := ⟨(List.range 32).map UInt8.ofNat, "did:web:pds.test", "did:plc:alice"⟩
  active := true

/-- The server once the takedown has been lifted: no row of it is left. -/
def liftedServer : MetalbearServer where
  serviceDid := some "did:web:pds.test"
  publicUrl := some "https://pds.test"
  appviewDid := none
  modServiceDid := none
  adminPassword := none
  oauthIssuer := some "https://pds.test"
  accounts := [⟨"did:plc:alice", "alice.pds.test"⟩]
  takedowns := []

def liftedOutcomes : AuthOutcomes where
  now := 1700000100
  findsDid := true
  findsHandle := true
  readsTakedown := true
  contexts did := if did = "did:plc:alice" then some aliceAccount else none

/-- The request of a record, with the token of the takendown session. -/
def createRequest : XrpcRequest where
  nsid := "com.atproto.repo.createRecord"
  method := some "POST"
  authHeader := some ("Bearer " ++ takendownToken)
  dpopHeader := none
  contentType := some "application/json"
  atprotoProxy := none
  params := some (.object [("repo", .string "did:plc:alice"),
    ("collection", .string "app.bsky.feed.post")])

theorem takendownToken_toList : takendownToken.toList = takendownText := String.toList_ofList

theorem createRequest_session : SessionRequest takendownLibrary liftedOutcomes createRequest
    takendownToken "did:plc:alice" aliceAccount .takendown := by
  -- The text is long: its characters are read off piece by piece.
  have htext : takendownText = _ :=
    congrArg₂ (· ++ '.' :: ·) String.toList_ofList (congrArg₂ (· ++ ·) String.toList_ofList
      (congrArg₂ (· ++ ·) String.toList_ofList (congrArg₂ (· ++ ·) String.toList_ofList
        (congrArg₂ (· ++ '.' :: ·) String.toList_ofList String.toList_ofList))))
  refine ⟨bearerToken_bearer takendownToken, ?_, rfl, ?_, by decide, by decide⟩
  · simp only [jwtSubject, jwtClaim, takendownToken_toList, takendownLibrary,
      String.toList_ofList, htext]
    decide +kernel
  · have hfits : ¬ (takendownToken = "" ∨ jwtMaxBytes < takendownToken.utf8ByteSize) := by
      rw [takendownToken, htext]
      exact jwt_fits (by decide +kernel) (by decide +kernel)
    rw [authVerifyAccessScope, verifyJwt, if_neg hfits, takendownToken_toList, htext]
    decide +kernel

theorem takendownLibrary_refuses : RefusesSessionTokens takendownLibrary :=
  fun _ _ _ _ _ => ⟨fun _ _ _ _ _ _ => nofun, fun _ => rfl⟩

/-- Once the takedown is lifted, the takendown session may write records. -/
theorem takendown_session_writes :
    SessionRequest takendownLibrary liftedOutcomes createRequest takendownToken "did:plc:alice"
        aliceAccount .takendown ∧
      ¬ Confined liftedServer createRequest.nsid "did:plc:alice" .takendown
        (authenticateRequest takendownLibrary liftedServer liftedOutcomes createRequest) := by
  refine ⟨createRequest_session, fun h => ?_⟩
  have hgates : GatesOpen liftedServer liftedOutcomes createRequest aliceAccount :=
    ⟨isDpopRequest_bearer takendownToken, by decide, Or.inl rfl⟩
  have hok := (authenticateRequest_session_iff takendownLibrary_refuses createRequest_session).mpr
    ⟨hgates, Or.inr (Or.inl (by decide)), fun hdown => absurd hdown (by decide)⟩
  exact absurd ((h hok).1 rfl) (by decide)

/-- While the takedown stands, the session is confined. -/
theorem takendown_session_confined :
    Confined { liftedServer with takedowns := [⟨some "did:plc:alice", none, none, "ref"⟩] }
      createRequest.nsid "did:plc:alice" .takendown
      (authenticateRequest takendownLibrary
        { liftedServer with takedowns := [⟨some "did:plc:alice", none, none, "ref"⟩] }
        liftedOutcomes createRequest) :=
  (session_confined_iff _ takendownLibrary_refuses createRequest_session).mpr (by
    rintro ⟨-, ⟨-, -, -, hread | hdown⟩ | ⟨hscope, -⟩⟩
    · exact absurd hread (by decide)
    · exact hdown ⟨_, List.mem_singleton.mpr rfl, rfl, rfl, rfl⟩
    · exact hscope rfl)

end Lifted

end MetalBear.Server
