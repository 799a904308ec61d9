import MetalBear.Server.Takedown

/-!
# The account a request acts on

The gate looks at the token of a request and at its `repo` and `did` members, and the
handlers resolve an account of their own. For every request that is let through it is said
which account that is, and that the two agree on it.
-/

namespace MetalBear.Server

open OAuth

/-! ## The handlers' resolver -/

/-- The authority of an `at://` value, where it fits the buffer; other values as they are. -/
def identifierOf (bufsz : Nat) (cand : String) : Option String :=
  if startsWith "at://" cand then
    let authority := String.ofList ((cand.toList.drop 5).takeWhile (· ≠ '/'))
    if authority = "" ∨ bufsz ≤ authority.utf8ByteSize then none else some authority
  else some cand

/-- The DID of an identifier: a DID as it is, or that of the account of the handle. -/
def didOfIdentifier (server : MetalbearServer) (o : AuthOutcomes) (bufsz : Nat)
    (identifier : String) : Option String :=
  if startsWith "did:" identifier then some identifier
  else do
    let entry ← if o.findsHandle then server.accounts.find? (·.handle == identifier) else none
    if entry.did.utf8ByteSize < bufsz then some entry.did else none

/-- `request_account_did`. -/
def requestAccountDid (server : MetalbearServer) (o : AuthOutcomes) (req : XrpcRequest)
    (authedSubject : Option String) (bufsz : Nat) : Option String :=
  match authedSubject.filter (· ≠ "") with
  | some sub => some sub
  | none => do
    let cand ← requestTarget req
    let identifier ← identifierOf bufsz cand
    didOfIdentifier server o bufsz identifier

/-- `resolve_request_context`. -/
def resolveRequestContext (server : MetalbearServer) (o : AuthOutcomes) (req : XrpcRequest)
    (authedSubject : Option String) : Option AccountContext :=
  (requestAccountDid server o req authedSubject 256).bind (contextForDid o)

/-- The routes of one repository, named by `repo`. -/
def repoRoute (nsid : String) : Bool :=
  nsid ∈ ["com.atproto.repo.createRecord", "com.atproto.repo.putRecord",
    "com.atproto.repo.deleteRecord", "com.atproto.repo.applyWrites",
    "com.atproto.repo.getRecord", "com.atproto.repo.describeRepo",
    "com.atproto.repo.listRecords"]

/-- The routes of one repository, named by `did`. -/
def syncRoute (nsid : String) : Bool :=
  nsid ∈ ["com.atproto.sync.getLatestCommit", "com.atproto.sync.getBlob",
    "com.atproto.sync.getRepo", "com.atproto.sync.getBlocks", "com.atproto.sync.getRepoStatus",
    "com.atproto.sync.listBlobs", "com.atproto.sync.getRecord", "com.atproto.sync.getHead",
    "com.atproto.sync.getCheckout"]

/-- The routes whose handlers ask for a `did` of their own accord. -/
def readsDid (nsid : String) : Bool :=
  nsid ∈ ["com.atproto.sync.getRepo", "com.atproto.sync.getBlocks",
    "com.atproto.sync.getRepoStatus", "com.atproto.sync.listBlobs",
    "com.atproto.sync.getRecord", "com.atproto.sync.getHead", "com.atproto.sync.getCheckout"]

/-- The account whose repository the handler reads or writes. -/
def servedAccount (server : MetalbearServer) (o : AuthOutcomes) (req : XrpcRequest)
    (authedSubject : Option String) : Option AccountContext :=
  if readsDid req.nsid ∧ (paramString req "did").isNone then none
  else resolveRequestContext server o req authedSubject

/-! ## What is claimed, and what holds -/

/-- The identifier is the DID of the account, or its handle. -/
def Identifies (server : MetalbearServer) (did identifier : String) : Prop :=
  identifier = did ∨ ∃ e ∈ server.accounts, e.handle = identifier ∧ e.did = did

/-- The value names the account: by an identifier, or as the authority of an `at://` URI. -/
def NamesAccount (server : MetalbearServer) (did value : String) : Prop :=
  Identifies server did value ∨
    ∃ authority rest, value = "at://" ++ authority ++ rest ∧ '/' ∉ authority.toList ∧
      (rest = "" ∨ startsWith "/" rest) ∧ Identifies server did authority

/-- The member that names the repository on the route. -/
def repositoryMember (nsid : String) : String := if repoRoute nsid then "repo" else "did"

/-- A request that is let through acts on the account it names, or on none. -/
def ActsOnNamed (lib : AuthLibrary) (server : MetalbearServer) (o : AuthOutcomes)
    (req : XrpcRequest) : Prop :=
  let r := authenticateRequest lib server o req
  r.status = .ok → ∀ acct, servedAccount server o req (r.principal.map Prod.fst) = some acct →
    ∀ value, paramString req (repositoryMember req.nsid) = some value →
      NamesAccount server acct.did value

/-- The DIDs of accounts and no others start with `did:`, and a bundle is opened for its own
DID. -/
structure WellRegistered (server : MetalbearServer) (o : AuthOutcomes) : Prop where
  opened : ∀ did acct, o.contexts did = some acct → acct.did = did ∧ startsWith "did:" did = true
  dids : ∀ e ∈ server.accounts, startsWith "did:" e.did = true
  handles : ∀ e ∈ server.accounts, startsWith "did:" e.handle = false ∧
    startsWith "at://" e.handle = false

/-- The takedown gate and the deactivation gate have let this account through. -/
structure GatesPassed (server : MetalbearServer) (o : AuthOutcomes) (nsid : String)
    (acct : AccountContext) : Prop where
  takedown : accountIsTakenDown server o acct.did = true → takendownRouteAllowed nsid = true
  active : acct.active = true ∨ inactiveRouteAllowed nsid = true

/-- A request with a user's token acts on that user's account. On the routes that need a token
this is the account that the gates have let through, whatever other hosted account the members
name; on a public route it is the one that `did` names. A request without one acts on the
account that its `repo` names, or on the routes of `did` without a `repo` its `did`, and the
gate has looked at the availability of no other account. -/
structure ActsOnOne (server : MetalbearServer) (o : AuthOutcomes) (req : XrpcRequest)
    (principal : Option (String × PrincipalKind)) (acct : AccountContext) : Prop where
  user : ∀ sub kind, principal = some (sub, kind) → acct.did = sub ∧ kind = .user
  gates : ∀ sub kind, principal = some (sub, kind) → isPublicRoute req.nsid = false →
    GatesPassed server o req.nsid acct ∧
      ∀ value, requestTarget req = some value → (contextForIdentifier server o value).isSome = true
  holder : ∀ sub kind, principal = some (sub, kind) → isPublicRoute req.nsid = true →
    paramString req "did" = some sub
  anonymous : principal = none → isPublicRoute req.nsid = true ∧
    ∀ value, paramString req (repositoryMember req.nsid) = some value →
      (repoRoute req.nsid = false → paramString req "repo" = none) →
        NamesAccount server acct.did value ∧
          ∀ checked, contextForIdentifier server o value = some checked → checked = acct

/-! ## The parts -/

section Parts

variable {lib : AuthLibrary} {server : MetalbearServer} {o : AuthOutcomes} {req : XrpcRequest}

theorem startsWith_iff {start str : String} :
    startsWith start str = true ↔ ∃ rest, str = start ++ rest := by
  rw [startsWith, List.isPrefixOf_iff_prefix]
  constructor
  · rintro ⟨rest, hrest⟩
    refine ⟨String.ofList rest, String.toList_inj.mp ?_⟩
    rw [String.toList_append, String.toList_ofList, hrest]
  · rintro ⟨rest, rfl⟩
    exact ⟨rest.toList, (String.toList_append ..).symm⟩

/-- What an identifier is cut out of. -/
theorem identifierOf_names {bufsz : Nat} {cand identifier : String}
    (h : identifierOf bufsz cand = some identifier) :
    cand = identifier ∨ ∃ rest, cand = "at://" ++ identifier ++ rest ∧
      '/' ∉ identifier.toList ∧ (rest = "" ∨ startsWith "/" rest) := by
  unfold identifierOf at h
  split at h
  · next huri =>
    obtain ⟨path, rfl⟩ := startsWith_iff.mp huri
    right
    dsimp only at h
    split at h
    · cases h
    · cases h
      have hdrop : ("at://" ++ path).toList.drop 5 = path.toList := by
        rw [String.toList_append]
        rfl
      simp only [hdrop]
      refine ⟨String.ofList (path.toList.dropWhile (· ≠ '/')), ?_, ?_, ?_⟩
      · apply String.toList_inj.mp
        simp only [String.toList_append, String.toList_ofList, List.append_assoc,
          List.takeWhile_append_dropWhile]
      · rw [String.toList_ofList]
        intro hmem
        simpa using List.mem_takeWhile_imp hmem
      · cases hrest : path.toList.dropWhile (· ≠ '/') with
        | nil => exact Or.inl rfl
        | cons c rest =>
          right
          have hc : c = '/' := by
            have hhead := List.head?_dropWhile_not (· ≠ '/') path.toList
            rw [hrest] at hhead
            simpa using hhead
          rw [startsWith, String.toList_ofList, hc]
          simp
  · exact Or.inl (Option.some.inj h)

/-- The DID that an identifier stands for. -/
theorem didOfIdentifier_identifies {bufsz : Nat} {identifier did : String}
    (h : didOfIdentifier server o bufsz identifier = some did) :
    Identifies server did identifier := by
  unfold didOfIdentifier at h
  split at h
  · exact Or.inl (Option.some.inj h)
  · cases hfinds : o.findsHandle with
    | false => simp [hfinds] at h
    | true =>
      simp only [hfinds, if_true, Option.bind_eq_bind, Option.bind_eq_some_iff] at h
      obtain ⟨entry, hentry, h⟩ := h
      split at h
      · refine Or.inr ⟨entry, List.mem_of_find?_eq_some hentry, ?_, Option.some.inj h⟩
        simpa using List.find?_some hentry
      · cases h

/-- The entry by which the gate finds an account. -/
theorem contextForIdentifier_entry {value : String} {checked : AccountContext}
    (h : contextForIdentifier server o value = some checked) :
    ∃ entry ∈ server.accounts, contextForDid o entry.did = some checked ∧
      (entry.did = value ∨ (entry.handle = value ∧
        (if o.findsHandle then server.accounts.find? (·.handle == value) else none) =
          some entry)) := by
  simp only [contextForIdentifier, Option.bind_eq_bind, Option.bind_eq_some_iff] at h
  obtain ⟨entry, hentry, hopen⟩ := h
  rcases Option.or_eq_some_iff.mp hentry with hdid | ⟨-, hhandle⟩
  · cases hfinds : o.findsDid with
    | false => simp [hfinds] at hdid
    | true =>
      rw [hfinds, if_pos rfl] at hdid
      have heq : entry.did = value := by simpa using List.find?_some hdid
      exact ⟨entry, List.mem_of_find?_eq_some hdid, hopen, Or.inl heq⟩
  · cases hfinds : o.findsHandle with
    | false => simp [hfinds] at hhandle
    | true =>
      rw [hfinds, if_pos rfl] at hhandle
      have heq : entry.handle = value := by simpa using List.find?_some hhandle
      exact ⟨entry, List.mem_of_find?_eq_some hhandle, hopen, Or.inr ⟨heq, hhandle⟩⟩

theorem startsWith_did_of_at {value : String} (h : startsWith "at://" value = true) :
    startsWith "did:" value = false := by
  obtain ⟨rest, rfl⟩ := startsWith_iff.mp h
  rw [startsWith, String.toList_append]
  rfl

/-- Where the gate and the handlers both find an account for a value, it is one account. -/
theorem contextForIdentifier_unique (hreg : WellRegistered server o) {bufsz : Nat}
    {value identifier did : String} {checked acct : AccountContext}
    (hid : identifierOf bufsz value = some identifier)
    (hdid : didOfIdentifier server o bufsz identifier = some did)
    (hacct : contextForDid o did = some acct)
    (hchecked : contextForIdentifier server o value = some checked) : checked = acct := by
  obtain ⟨entry, hmem, hopen, hentry⟩ := contextForIdentifier_entry hchecked
  obtain ⟨hnotDid, hnotAt⟩ := hreg.handles entry hmem
  have hdids := hreg.dids entry hmem
  unfold identifierOf at hid
  split at hid
  · next huri =>
    have hnot := startsWith_did_of_at huri
    rcases hentry with rfl | ⟨rfl, -⟩
    · rw [hdids] at hnot
      cases hnot
    · rw [hnotAt] at huri
      cases huri
  · obtain rfl := Option.some.inj hid
    unfold didOfIdentifier at hdid
    split at hdid
    · next hvalue =>
      obtain rfl := Option.some.inj hdid
      rcases hentry with rfl | ⟨rfl, -⟩
      · exact Option.some.inj (hopen.symm.trans hacct)
      · rw [hnotDid] at hvalue
        cases hvalue
    · next hvalue =>
      rcases hentry with rfl | ⟨-, hfind⟩
      · exact absurd hdids hvalue
      · cases hfinds : o.findsHandle with
        | false => simp [hfinds] at hfind
        | true =>
          rw [hfinds, if_pos rfl] at hfind
          simp only [hfinds, if_true, hfind, Option.bind_eq_bind, Option.bind_some] at hdid
          split at hdid
          · obtain rfl := Option.some.inj hdid
            exact Option.some.inj (hopen.symm.trans hacct)
          · cases hdid

/-- What the handlers resolve without a subject. -/
theorem requestAccountDid_anonymous {bufsz : Nat} {did : String}
    (h : requestAccountDid server o req none bufsz = some did) :
    ∃ value identifier, requestTarget req = some value ∧
      identifierOf bufsz value = some identifier ∧
      didOfIdentifier server o bufsz identifier = some did := by
  simp only [requestAccountDid, Option.filter_none, Option.bind_eq_bind,
    Option.bind_eq_some_iff] at h
  obtain ⟨value, hvalue, identifier, hid, hdid⟩ := h
  exact ⟨value, identifier, hvalue, hid, hdid⟩

theorem servedAccount_resolve {authed : Option String} {acct : AccountContext}
    (h : servedAccount server o req authed = some acct) :
    ∃ did, requestAccountDid server o req authed 256 = some did ∧
      contextForDid o did = some acct := by
  unfold servedAccount at h
  split at h
  · cases h
  · exact Option.bind_eq_some_iff.mp h

/-- A subject that is set is what the handlers resolve. -/
theorem requestAccountDid_subject {bufsz : Nat} {sub : String} (hsub : sub ≠ "") :
    requestAccountDid server o req (some sub) bufsz = some sub := by
  simp [requestAccountDid, Option.filter, hsub]

/-! ## What the gate grants -/

theorem admitSubject_granted {sub : String} {scope : AccessScope}
    (hok : (admitSubject server o req sub scope).status = .ok) :
    (admitSubject server o req sub scope).principal = some (sub, .user) ∧
      ∃ acct, contextForDid o sub = some acct ∧
        (accountIsTakenDown server o sub = true → takendownRouteAllowed req.nsid = true) ∧
        (acct.active = true ∨ inactiveRouteAllowed req.nsid = true) := by
  cases hacct : contextForDid o sub with
  | none =>
    rw [admitSubject, hacct] at hok
    cases hok
  | some acct =>
    obtain ⟨hdown, hactive⟩ := (admitSubject_ok_iff scope hacct).mp hok
    refine ⟨?_, acct, rfl, fun h => (hdown h).2, hactive⟩
    rw [admitSubject, hacct] at hok ⊢
    dsimp only at hok ⊢
    split at hok
    · cases hok
    · next hopen =>
      rw [if_neg hopen]
      split at hok
      · cases hok
      · next hact =>
        rw [if_neg hact]
        rfl

/-- Past the tables of routes, the gate grants a user whose account it has looked at; only on
one other route it grants a service. -/
theorem authenticateBearer_granted (hroute : req.nsid ≠ "app.bsky.actor.getPreferences")
    (hok : (authenticateBearer lib server o req).status = .ok) :
    ∃ sub scope, authenticateBearer lib server o req = admitSubject server o req sub scope := by
  rw [authenticateBearer] at hok ⊢
  by_cases hdpop : isDpopRequest req.authHeader req.dpopHeader = true
  · rw [if_pos hdpop] at hok ⊢
    cases htoken : authenticateOauth lib server req with
    | error error =>
      rw [htoken] at hok
      exact absurd hok error.ne_ok
    | ok token =>
      obtain ⟨sub, scope⟩ := token
      rw [htoken] at hok
      dsimp only at hok ⊢
      by_cases hforbidden : oauthForbiddenRoute req.nsid = true
      · rw [if_pos hforbidden] at hok
        cases hok
      · rw [if_neg hforbidden] at hok ⊢
        by_cases hadmits : oauthScopeAdmits lib server scope req = true
        · rw [if_pos hadmits]
          exact ⟨sub, .full, rfl⟩
        · rw [if_neg hadmits] at hok
          cases hok
  · rw [if_neg hdpop] at hok ⊢
    cases hprovided : bearerToken req.authHeader with
    | none =>
      rw [hprovided] at hok
      cases hok
    | some provided =>
      rw [hprovided] at hok
      simp only [hroute, if_false] at hok ⊢
      cases htoken : authenticateSession lib o req provided with
      | error error =>
        rw [htoken] at hok
        exact absurd hok error.ne_ok
      | ok token => exact ⟨token.1, token.2, rfl⟩

/-- The holder of a taken-down account presents the takendown token of the account that `did`
names, on a route that exports it. -/
structure OpensExport (lib : AuthLibrary) (server : MetalbearServer) (o : AuthOutcomes)
    (req : XrpcRequest) (acct : AccountContext) : Prop where
  route : req.nsid ∈ ["com.atproto.sync.getRepo", "com.atproto.sync.getBlob",
    "com.atproto.sync.listBlobs"]
  named : ∃ did, paramString req "did" = some did ∧ contextForDid o did = some acct
  down : accountIsTakenDown server o acct.did = true
  token : ∃ token, bearerToken req.authHeader = some token ∧
    (authVerifyAccessScope lib.toTokenLibrary acct.auth o.now token).toOption = some .takendown

/-- The account that a read of `com.atproto.repo` names is deactivated, and not taken down. -/
def namesDeactivated (server : MetalbearServer) (o : AuthOutcomes) (req : XrpcRequest) : Bool :=
  startsWith "com.atproto.repo." req.nsid &&
    match (requestTarget req).bind (contextForIdentifier server o) with
    | some acct => !acct.active && !accountIsTakenDown server o acct.did
    | none => false

/-- The principal of the token that a public route is asked to export with. -/
def exportHolder (lib : AuthLibrary) (server : MetalbearServer) (o : AuthOutcomes)
    (req : XrpcRequest) : Option (String × PrincipalKind) := do
  let provided ← bearerToken req.authHeader
  let did ← (← req.params).getString "did"
  let acct ← contextForDid o did
  if accountIsTakenDown server o acct.did ∧
      (authVerifyAccessScope lib.toTokenLibrary acct.auth o.now provided).toOption =
        some .takendown then
    some (acct.did, PrincipalKind.user)
  else none

/-- The public branch of the gate, in its three cases. -/
theorem authenticatePublic_eq : authenticatePublic lib server o req =
    if namesDeactivated server o req then refuse .conflict
    else if req.nsid ∈ ["com.atproto.sync.getRepo", "com.atproto.sync.getBlob",
        "com.atproto.sync.listBlobs"] then grant (exportHolder lib server o req)
    else grant none := rfl

/-- A public route that is open grants a principal to such a holder only. -/
theorem authenticatePublic_open (h : namesDeactivated server o req = false) :
    (authenticatePublic lib server o req).status = .ok ∧
      ∀ p, (authenticatePublic lib server o req).principal = some p ↔
        ∃ acct, OpensExport lib server o req acct ∧ p = (acct.did, .user) := by
  rw [authenticatePublic_eq, if_neg (by simp [h])]
  by_cases hroute : req.nsid ∈ ["com.atproto.sync.getRepo", "com.atproto.sync.getBlob",
      "com.atproto.sync.listBlobs"]
  · rw [if_pos hroute]
    refine ⟨rfl, fun p => ?_⟩
    simp only [grant, exportHolder, Option.bind_eq_bind, Option.bind_eq_some_iff]
    constructor
    · rintro ⟨token, htoken, params, hparams, did, hdid, acct, hacct, h⟩
      split at h
      · next hdown =>
        refine ⟨acct, ⟨hroute, ⟨did, ?_, hacct⟩, hdown.1, ⟨token, htoken, hdown.2⟩⟩,
          (Option.some.inj h).symm⟩
        rw [paramString, hparams]
        exact hdid
      · cases h
    · rintro ⟨acct, hopens, rfl⟩
      obtain ⟨did, hdid, hacct⟩ := hopens.named
      obtain ⟨token, htoken, hscope⟩ := hopens.token
      obtain ⟨params, hparams, hget⟩ := Option.bind_eq_some_iff.mp hdid
      exact ⟨token, htoken, params, hparams, did, hget, acct, hacct,
        if_pos ⟨hopens.down, hscope⟩⟩
  · rw [if_neg hroute]
    refine ⟨rfl, fun p => iff_of_false (fun h => ?_) ?_⟩
    · cases h
    · rintro ⟨acct, hopens, -⟩
      exact hroute hopens.route

/-- Every grant of a route of one repository: past the gates, as a holder on a public route, or
without a principal. -/
theorem authenticateRequest_granted (hadmin : isAdminRoute req.nsid = false)
    (hservice : req.nsid ≠ "app.bsky.actor.getPreferences")
    (hok : (authenticateRequest lib server o req).status = .ok) :
    (isPublicRoute req.nsid = false ∧ namesUnknownAccount server o req = false ∧
        ∃ sub acct, (authenticateRequest lib server o req).principal = some (sub, .user) ∧
          contextForDid o sub = some acct ∧
          (accountIsTakenDown server o sub = true → takendownRouteAllowed req.nsid = true) ∧
          (acct.active = true ∨ inactiveRouteAllowed req.nsid = true)) ∨
      (isPublicRoute req.nsid = true ∧
        ∀ p, (authenticateRequest lib server o req).principal = some p ↔
          ∃ acct, OpensExport lib server o req acct ∧ p = (acct.did, .user)) := by
  rw [authenticateRequest, if_neg (by simp [hadmin])] at hok ⊢
  cases hpublic : isPublicRoute req.nsid with
  | true =>
    rw [hpublic, if_pos rfl] at hok
    rw [if_pos rfl]
    right
    cases hdeactivated : namesDeactivated server o req with
    | true =>
      rw [authenticatePublic_eq, if_pos hdeactivated] at hok
      cases hok
    | false => exact ⟨rfl, (authenticatePublic_open hdeactivated).2⟩
  | false =>
    rw [hpublic, if_neg (by simp)] at hok
    rw [if_neg (by simp)]
    left
    cases hunknown : namesUnknownAccount server o req with
    | true =>
      rw [hunknown, if_pos rfl] at hok
      cases hok
    | false =>
      rw [hunknown, if_neg (by simp)] at hok
      rw [if_neg (by simp)]
      obtain ⟨sub, scope, hgranted⟩ := authenticateBearer_granted hservice hok
      rw [hgranted] at hok ⊢
      obtain ⟨hprincipal, acct, hacct, hdown, hactive⟩ := admitSubject_granted hok
      exact ⟨rfl, rfl, sub, acct, hprincipal, hacct, hdown, hactive⟩

end Parts

/-! ## The main result -/

/-- The routes of one repository are no admin routes, and no service acts on them. -/
theorem repositoryRoute_cases {nsid : String} (h : repoRoute nsid = true ∨ syncRoute nsid = true) :
    isAdminRoute nsid = false ∧ nsid ≠ "app.bsky.actor.getPreferences" := by
  simp only [repoRoute, syncRoute, List.mem_cons, List.not_mem_nil, or_false,
    decide_eq_true_eq] at h
  rcases h with h | h <;> rcases h with rfl | rfl | rfl | rfl | rfl | rfl | rfl | rfl | rfl <;>
    exact ⟨by decide, by decide⟩

/-- A value that the gate has not found unknown names an account. -/
theorem known_of_not_unknown {server : MetalbearServer} {o : AuthOutcomes} {req : XrpcRequest}
    (hservice : req.nsid ≠ "app.bsky.actor.getPreferences")
    (hknown : namesUnknownAccount server o req = false) {value : String}
    (hvalue : requestTarget req = some value) :
    (contextForIdentifier server o value).isSome = true := by
  have hobject : req.params.any Json.isObject = true := by
    simp only [requestTarget, Option.bind_eq_bind, Option.bind_eq_some_iff] at hvalue
    obtain ⟨params, hparams, hget⟩ := hvalue
    rw [hparams, Option.any_some]
    cases params with
    | object members => rfl
    | null => cases hget
    | bool b => cases hget
    | number v => cases hget
    | string s => cases hget
    | array items => cases hget
  rw [namesUnknownAccount, hobject, hvalue] at hknown
  cases hfound : contextForIdentifier server o value with
  | some other => rfl
  | none => simp [hfound, hservice] at hknown

/-- The member of the route is the one that is resolved, unless a `repo` stands beside a
`did`. -/
theorem requestTarget_of_member {req : XrpcRequest} {value : String}
    (honly : repoRoute req.nsid = false → paramString req "repo" = none)
    (hvalue : paramString req (repositoryMember req.nsid) = some value) :
    requestTarget req = some value := by
  have htarget : requestTarget req = (paramString req "repo").or (paramString req "did") := by
    rw [requestTarget, paramString, paramString]
    cases req.params <;> rfl
  rw [htarget]
  rw [repositoryMember] at hvalue
  cases hrepo : repoRoute req.nsid with
  | true =>
    rw [hrepo, if_pos rfl] at hvalue
    rw [hvalue, Option.some_or]
  | false =>
    rw [hrepo, if_neg (by simp)] at hvalue
    rw [honly hrepo, hvalue, Option.none_or]

/-- Every request on a route of one repository that is let through and served acts on one
account: that of its user, or without one the account that it names. -/
theorem granted_acts_on_one (lib : AuthLibrary) (server : MetalbearServer) (o : AuthOutcomes)
    (hreg : WellRegistered server o) (req : XrpcRequest)
    (hroute : repoRoute req.nsid = true ∨ syncRoute req.nsid = true)
    (hok : (authenticateRequest lib server o req).status = .ok) (acct : AccountContext)
    (hserved : servedAccount server o req
      ((authenticateRequest lib server o req).principal.map Prod.fst) = some acct) :
    ActsOnOne server o req (authenticateRequest lib server o req).principal acct := by
  obtain ⟨hadmin, hservice⟩ := repositoryRoute_cases hroute
  obtain ⟨did, hdid, hacct⟩ := servedAccount_resolve hserved
  obtain ⟨hopened, hstart⟩ := hreg.opened did acct hacct
  have hsubject : ∀ sub kind,
      (authenticateRequest lib server o req).principal = some (sub, kind) →
      ∀ acct', contextForDid o sub = some acct' → did = sub := by
    intro sub kind hprincipal acct' hacct'
    have hne : sub ≠ "" := by
      rintro rfl
      exact absurd (hreg.opened "" acct' hacct').2 (by decide)
    rw [hprincipal, Option.map_some, requestAccountDid_subject hne] at hdid
    exact (Option.some.inj hdid).symm
  rcases authenticateRequest_granted hadmin hservice hok with
    ⟨hpublic, hknown, sub, acct', hprincipal, hacct', hdown, hactive⟩ | ⟨hpublic, hprincipal⟩
  · have hsub := hsubject sub .user hprincipal acct' hacct'
    subst hsub
    obtain rfl : acct' = acct := Option.some.inj (hacct'.symm.trans hacct)
    refine ⟨fun sub kind h => ?_, fun _ _ _ _ => ⟨⟨?_, hactive⟩, fun value hvalue => ?_⟩,
      fun _ _ _ h => ?_, fun h => ?_⟩
    · cases hprincipal.symm.trans h
      exact ⟨hopened, rfl⟩
    · rw [hopened]
      exact hdown
    · exact known_of_not_unknown hservice hknown hvalue
    · rw [hpublic] at h
      cases h
    · rw [hprincipal] at h
      cases h
  · refine ⟨fun sub kind h => ?_, fun _ _ _ h => ?_, fun sub kind h _ => ?_, fun h => ⟨hpublic, ?_⟩⟩
    · obtain ⟨acct', hopens, heq⟩ := (hprincipal _).mp h
      obtain ⟨did', -, hacct'⟩ := hopens.named
      obtain ⟨hopened', -⟩ := hreg.opened did' acct' hacct'
      obtain ⟨rfl, rfl⟩ := Prod.mk.inj heq
      rw [← hopened'] at hacct'
      rw [hopened, hsubject _ _ h acct' hacct']
      exact ⟨rfl, rfl⟩
    · rw [hpublic] at h
      cases h
    · obtain ⟨acct', hopens, heq⟩ := (hprincipal _).mp h
      obtain ⟨did', hnamed, hacct'⟩ := hopens.named
      obtain ⟨rfl, -⟩ := Prod.mk.inj heq
      rw [hnamed, (hreg.opened did' acct' hacct').1]
    · intro value hvalue honly
      rw [h, Option.map_none] at hdid
      obtain ⟨value', identifier, htarget, hid, hdid'⟩ := requestAccountDid_anonymous hdid
      obtain rfl : value = value' := by
        rw [requestTarget_of_member honly hvalue] at htarget
        exact Option.some.inj htarget
      refine ⟨?_, fun checked => contextForIdentifier_unique hreg hid hdid' hacct⟩
      rw [hopened]
      have hidentifies := didOfIdentifier_identifies hdid'
      rcases identifierOf_names hid with rfl | ⟨rest, heq, hslash, hrest⟩
      · exact Or.inl hidentifies
      · exact Or.inr ⟨identifier, rest, heq, hslash, hrest, hidentifies⟩

section SharedServer

/-- An OAuth library that verifies one token, of `did:plc:alice`. -/
def aliceTokenLibrary : AuthLibrary where
  hmacSha256 _ _ := []
  parseJson _ := none
  wfBase64urlDecode _ := none
  nsidIsValid _ := true
  didIsValid _ := true
  oauthVerifyRequest header proof _ _ :=
    if header = some "DPoP token" ∧ proof = some "proof" then
      .ok ⟨some "did:plc:alice", some "https://pds.test", some "https://pds.test",
        some "atproto transition:generic", true⟩
    else .error .permission
  resolveVerificationKey _ _ := none
  verifyServiceAuth _ _ := none
  evpEncodeBlock _ := ""

/-- A server of two accounts. -/
def sharedServer : MetalbearServer where
  serviceDid := some "did:web:pds.test"
  publicUrl := some "https://pds.test"
  appviewDid := none
  modServiceDid := none
  adminPassword := none
  oauthIssuer := some "https://pds.test"
  accounts := [⟨"did:plc:alice", "alice.pds.test"⟩, ⟨"did:plc:bob", "bob.pds.test"⟩]
  takedowns := []

def sharedOutcomes : AuthOutcomes where
  now := 1700000100
  findsDid := true
  findsHandle := true
  readsTakedown := true
  contexts did :=
    if did ∈ ["did:plc:alice", "did:plc:bob"] then
      some ⟨did, ⟨[], "did:web:pds.test", did⟩, true⟩
    else none

/-- A record for the repository of `did:plc:bob`, with the token of `did:plc:alice`. -/
def foreignRequest : XrpcRequest where
  nsid := "com.atproto.repo.createRecord"
  method := some "POST"
  authHeader := some "DPoP token"
  dpopHeader := some "proof"
  contentType := some "application/json"
  atprotoProxy := none
  params := some (.object [("repo", .string "did:plc:bob"),
    ("collection", .string "app.bsky.feed.post")])

theorem sharedServer_registered : WellRegistered sharedServer sharedOutcomes where
  opened := by
    intro did acct h
    simp only [sharedOutcomes, List.mem_cons, List.not_mem_nil, or_false] at h
    split at h
    · next hdid =>
      cases h
      rcases hdid with rfl | rfl <;> exact ⟨rfl, by decide⟩
    · cases h
  dids := by decide
  handles := by decide

theorem foreignRequest_authenticated :
    authenticateRequest aliceTokenLibrary sharedServer sharedOutcomes foreignRequest =
      ⟨.ok, some ("did:plc:alice", .user)⟩ := by
  decide

/-- The bundle of an account of the server. -/
def sharedAccount (did : String) : AccountContext := ⟨did, ⟨[], "did:web:pds.test", did⟩, true⟩

theorem foreignRequest_served :
    servedAccount sharedServer sharedOutcomes foreignRequest (some "did:plc:alice") =
      some (sharedAccount "did:plc:alice") := by
  decide

theorem granted_acts_on_one_foreign :
    ActsOnOne sharedServer sharedOutcomes foreignRequest (some ("did:plc:alice", .user))
      (sharedAccount "did:plc:alice") := by
  have hserved := foreignRequest_served
  have h := granted_acts_on_one aliceTokenLibrary sharedServer sharedOutcomes
    sharedServer_registered foreignRequest (Or.inl (by decide))
  rw [foreignRequest_authenticated] at h
  exact h rfl _ hserved

/-- A write that names another hosted account is let through, and acts on the caller's own. -/
theorem foreign_write_acts_on_caller :
    ¬ ActsOnNamed aliceTokenLibrary sharedServer sharedOutcomes foreignRequest := by
  intro h
  unfold ActsOnNamed at h
  rw [foreignRequest_authenticated] at h
  have hnames := h rfl _ foreignRequest_served "did:plc:bob" (by decide)
  rcases hnames with (hid | ⟨e, he, hhandle, -⟩) | ⟨authority, rest, heq, -⟩
  · exact absurd hid (by decide)
  · revert e
    decide
  · have hat : startsWith "at://" "did:plc:bob" = true :=
      startsWith_iff.mpr ⟨authority ++ rest, by rw [heq, String.append_assoc]⟩
    exact absurd hat (by decide)

end SharedServer

end MetalBear.Server
