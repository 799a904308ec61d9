import MetalBear.Server.Target
import MetalBear.Sync.ListRepos

/-!
# The availability of a repository

Nine read routes serve the repository of one account. Each of them passes the gate of public
routes first and resolves its account in its own handler, which then asks whether that account
is taken down or deactivated. The account itself is to be exempt from both; which requests are,
depends on the principal that the gate has set.
-/

namespace MetalBear.Server

open OAuth Sync

/-! ## The routes -/

/-- The routes that read the repository of one account. -/
inductive ReadRoute where
  | getRepo
  | getBlocks
  | getBlob
  | listBlobs
  | syncGetRecord
  | getLatestCommit
  | repoGetRecord
  | listRecords
  | describeRepo
  deriving DecidableEq, Repr

def ReadRoute.nsid : ReadRoute → String
  | .getRepo => "com.atproto.sync.getRepo"
  | .getBlocks => "com.atproto.sync.getBlocks"
  | .getBlob => "com.atproto.sync.getBlob"
  | .listBlobs => "com.atproto.sync.listBlobs"
  | .syncGetRecord => "com.atproto.sync.getRecord"
  | .getLatestCommit => "com.atproto.sync.getLatestCommit"
  | .repoGetRecord => "com.atproto.repo.getRecord"
  | .listRecords => "com.atproto.repo.listRecords"
  | .describeRepo => "com.atproto.repo.describeRepo"

/-- What the outside decides besides what authentication asks of it. -/
structure ReadOutcomes extends AuthOutcomes where
  /-- `check_endpoint_rate_limit` on the bucket of getRepo: the seconds to wait, where it
  refuses. -/
  retryAfter : Option Nat
  /-- What the XRPC library answers for a status of the gate. -/
  answers : WfStatus → XrpcError

/-! ## The handlers, up to the first read of the repository -/

/-- `assert_repo_available`, with the account that it is asked about. -/
def assertRepoAvailable (server : MetalbearServer) (o : AuthOutcomes)
    (acct : Option AccountContext) (authedSubject : Option String) :
    Except XrpcError AccountContext :=
  match acct with
  | none => .error ⟨400, "RepoNotFound", "Could not find repo"⟩
  | some acct =>
    -- The account itself always sees its own repository.
    if authedSubject = some acct.did then .ok acct
    else if accountIsTakenDown server o acct.did then
      .error ⟨400, "RepoTakendown", "Repo has been takendown"⟩
    else if acct.active = false then
      .error ⟨400, "RepoDeactivated", "Repo has been deactivated"⟩
    else .ok acct

/-- `resolve_repo` with `metalbear_repo_access_guard`, on the routes of the repository layer. -/
def resolveRepo (server : MetalbearServer) (o : AuthOutcomes) (req : XrpcRequest)
    (authedSubject : Option String) : Except XrpcError AccountContext :=
  match resolveRequestContext server o req authedSubject with
  | none => .error ⟨400, "RepoNotFound", "Repository is not hosted here"⟩
  | some acct => assertRepoAvailable server o (some acct) authedSubject

/-- `require_string`, on a parameter of the request. -/
def requireParam (req : XrpcRequest) (name : String) : Except XrpcError Unit :=
  if paramString req name = none ∨ paramString req name = some "" then
    .error ⟨400, "InvalidRequest", name ++ " is required"⟩
  else .ok ()

/-- What the handler of the route does before it reads the repository. -/
def openRepository (server : MetalbearServer) (o : ReadOutcomes) (req : XrpcRequest)
    (authedSubject : Option String) : ReadRoute → Except XrpcError AccountContext
  | .getRepo => do
    if (paramString req "did").isNone then throw ⟨400, "InvalidRequest", "did is required"⟩
    match o.retryAfter with
    | some seconds =>
      throw ⟨429, "RateLimitExceeded",
        "Rate limit exceeded. Retry after " ++ toString seconds ++ " seconds."⟩
    | none =>
      assertRepoAvailable server o.toAuthOutcomes
        (resolveRequestContext server o.toAuthOutcomes req authedSubject) authedSubject
  | .getBlocks => do
    if (paramString req "did").isNone then throw ⟨400, "InvalidRequest", "did is required"⟩
    assertRepoAvailable server o.toAuthOutcomes
      (resolveRequestContext server o.toAuthOutcomes req authedSubject) authedSubject
  | .getBlob => do
    if paramString req "cid" = none ∨ paramString req "cid" = some "" then
      throw ⟨400, "InvalidRequest", "missing or invalid 'cid' parameter"⟩
    match resolveRequestContext server o.toAuthOutcomes req authedSubject with
    | none => throw ⟨404, "BlobNotFound", "account is not hosted here"⟩
    | some acct => assertRepoAvailable server o.toAuthOutcomes (some acct) authedSubject
  | .listBlobs =>
    assertRepoAvailable server o.toAuthOutcomes
      (if (paramString req "did").isSome then
        resolveRequestContext server o.toAuthOutcomes req authedSubject
      else none) authedSubject
  | .syncGetRecord => do
    requireParam req "did"
    requireParam req "collection"
    requireParam req "rkey"
    assertRepoAvailable server o.toAuthOutcomes
      (resolveRequestContext server o.toAuthOutcomes req authedSubject) authedSubject
  | .getLatestCommit | .repoGetRecord | .listRecords | .describeRepo =>
    resolveRepo server o.toAuthOutcomes req authedSubject

/-- The gate and then the handler: the account whose repository is read, or the error. -/
def answerRead (lib : AuthLibrary) (server : MetalbearServer) (o : ReadOutcomes)
    (req : XrpcRequest) (route : ReadRoute) : Except XrpcError AccountContext :=
  let r := authenticateRequest lib server o.toAuthOutcomes req
  if r.status = .ok then openRepository server o req (r.principal.map Prod.fst) route
  else .error (o.answers r.status)

/-! ## What is claimed -/

/-- The value is a spelling of the account. -/
def Spells (server : MetalbearServer) (o : AuthOutcomes) (acct : AccountContext)
    (value : String) : Prop :=
  ∃ identifier did, identifierOf 256 value = some identifier ∧
    didOfIdentifier server o 256 identifier = some did ∧ contextForDid o did = some acct

/-- A request to the route, with the parameters that it asks for, of which `repo` and `did` are
spellings of the account. -/
structure ReadsAccount (server : MetalbearServer) (o : AuthOutcomes) (req : XrpcRequest)
    (route : ReadRoute) (acct : AccountContext) : Prop where
  nsid : req.nsid = route.nsid
  named : ∃ value, paramString req (repositoryMember route.nsid) = some value ∧ value ≠ ""
  spelled : ∀ member ∈ ["repo", "did"], ∀ value, paramString req member = some value →
    Spells server o acct value
  cid : route = .getBlob → ∃ cid, paramString req "cid" = some cid ∧ cid ≠ ""
  record : route = .syncGetRecord → ∀ name ∈ ["collection", "rkey"],
    ∃ value, paramString req name = some value ∧ value ≠ ""

/-- The request carries a token of the account that verifies: a session token of whatever
scope, or an OAuth token. -/
def CarriesToken (lib : AuthLibrary) (server : MetalbearServer) (o : AuthOutcomes)
    (req : XrpcRequest) (acct : AccountContext) : Prop :=
  (∃ token scope, bearerToken req.authHeader = some token ∧
    authVerifyAccessScope lib.toTokenLibrary acct.auth o.now token = .ok scope) ∨
  (isDpopRequest req.authHeader req.dpopHeader = true ∧
    ∃ scope, authenticateOauth lib server req = .ok (acct.did, scope))

/-- The answer is an error of this name. -/
def RefusedAs (name : String) (answer : Except XrpcError AccountContext) : Prop :=
  ∃ error, answer = .error error ∧ error.name = name

/-- The repository is served to those who may see it, and refused to others under the name of
the reason. -/
structure DecidedAlike (lib : AuthLibrary) (server : MetalbearServer) (o : ReadOutcomes)
    (req : XrpcRequest) (route : ReadRoute) (acct : AccountContext) : Prop where
  served : (acct.active = true ∧ ¬ TakenDown server acct.did) ∨
    CarriesToken lib server o.toAuthOutcomes req acct →
      answerRead lib server o req route = .ok acct
  takendown : TakenDown server acct.did → ¬ CarriesToken lib server o.toAuthOutcomes req acct →
    RefusedAs "RepoTakendown" (answerRead lib server o req route)
  deactivated : acct.active = false → ¬ TakenDown server acct.did →
    ¬ CarriesToken lib server o.toAuthOutcomes req acct →
      RefusedAs "RepoDeactivated" (answerRead lib server o req route)

/-- When that is so: getRepo is not over its rate limit, and no account that is unavailable
carries a token, but to export a taken-down repository. -/
def AvailabilityAgrees (lib : AuthLibrary) (server : MetalbearServer) (o : ReadOutcomes)
    (req : XrpcRequest) (route : ReadRoute) (acct : AccountContext) : Prop :=
  let carries := CarriesToken lib server o.toAuthOutcomes req acct
  let down := TakenDown server acct.did
  (route = .getRepo → o.retryAfter = none) ∧
  ((¬ down ∧ (acct.active = true ∨ ¬ carries)) ∨
    (down ∧ o.readsTakedown = true ∧
      (OpensExport lib server o.toAuthOutcomes req acct ∨ ¬ carries)) ∨
    (down ∧ o.readsTakedown = false ∧ acct.active = true ∧ carries))

/-! ## The answer -/

section Answer

variable {lib : AuthLibrary} {server : MetalbearServer} {o : ReadOutcomes} {req : XrpcRequest}
  {route : ReadRoute} {acct : AccountContext}

/-- The read routes are public, and each is named by its own member. -/
theorem ReadRoute.public (route : ReadRoute) :
    isPublicRoute route.nsid = true ∧ isAdminRoute route.nsid = false := by
  cases route <;> exact ⟨by decide, by decide⟩

theorem spells_resolved {authed : Option String} (hreg : WellRegistered server o.toAuthOutcomes)
    (hreads : ReadsAccount server o.toAuthOutcomes req route acct)
    (hauthed : ∀ sub, authed = some sub → sub = acct.did) :
    resolveRequestContext server o.toAuthOutcomes req authed = some acct := by
  have hcontext : ∀ value, Spells server o.toAuthOutcomes acct value →
      contextForDid o.toAuthOutcomes acct.did = some acct ∧ acct.did ≠ "" := by
    rintro value ⟨identifier, did, -, -, hacct⟩
    obtain ⟨hdid, hstart⟩ := hreg.opened did acct hacct
    refine ⟨by rw [hdid]; exact hacct, ?_⟩
    rintro hempty
    rw [← hdid, hempty] at hstart
    exact absurd hstart (by decide)
  obtain ⟨value, hvalue, -⟩ := hreads.named
  have hmember : repositoryMember route.nsid ∈ ["repo", "did"] := by
    unfold repositoryMember
    split <;> simp
  have hown := hreads.spelled _ hmember value hvalue
  obtain ⟨hopen, hne⟩ := hcontext value hown
  cases authed with
  | some sub =>
    obtain rfl := hauthed sub rfl
    rw [resolveRequestContext, requestAccountDid_subject hne]
    exact hopen
  | none =>
    have htarget : ∃ target, requestTarget req = some target ∧
        Spells server o.toAuthOutcomes acct target := by
      have heq : requestTarget req = (paramString req "repo").or (paramString req "did") := by
        rw [requestTarget, paramString, paramString]
        cases req.params <;> rfl
      cases hrepo : paramString req "repo" with
      | some repo =>
        exact ⟨repo, by rw [heq, hrepo, Option.some_or],
          hreads.spelled "repo" (by simp) repo hrepo⟩
      | none =>
        cases hdid : paramString req "did" with
        | some did =>
          exact ⟨did, by rw [heq, hrepo, hdid, Option.none_or],
            hreads.spelled "did" (by simp) did hdid⟩
        | none =>
          simp only [List.mem_cons, List.not_mem_nil, or_false] at hmember
          rcases hmember with h | h <;> rw [h] at hvalue
          · rw [hrepo] at hvalue
            cases hvalue
          · rw [hdid] at hvalue
            cases hvalue
    obtain ⟨target, htarget, identifier, did, hidentifier, hdid, hacct⟩ := htarget
    simp only [resolveRequestContext, requestAccountDid, Option.filter_none, htarget,
      hidentifier, hdid, Option.bind_eq_bind, Option.bind_some, hacct]

/-- Past its checks, every handler asks the same guard about the account. -/
theorem openRepository_eq (hreads : ReadsAccount server o.toAuthOutcomes req route acct)
    {authed : Option String}
    (hresolved : resolveRequestContext server o.toAuthOutcomes req authed = some acct)
    (hlimit : route = .getRepo → o.retryAfter = none) :
    openRepository server o req authed route =
      assertRepoAvailable server o.toAuthOutcomes (some acct) authed := by
  obtain ⟨value, hvalue, hne⟩ := hreads.named
  cases route with
  | getRepo =>
    have hdid : paramString req "did" = some value := hvalue
    simp only [openRepository, hdid, hlimit rfl, hresolved]
    rfl
  | getBlocks =>
    have hdid : paramString req "did" = some value := hvalue
    simp only [openRepository, hdid, hresolved]
    rfl
  | getBlob =>
    obtain ⟨cid, hcid, hcidNe⟩ := hreads.cid rfl
    simp only [openRepository, hcid, hresolved, reduceCtorEq, Option.some.injEq, hcidNe,
      or_self, if_false]
  | listBlobs =>
    have hdid : paramString req "did" = some value := hvalue
    simp only [openRepository, hdid, hresolved, Option.isSome_some, if_true]
  | syncGetRecord =>
    have hdid : paramString req "did" = some value := hvalue
    obtain ⟨collection, hcollection, hcollectionNe⟩ := hreads.record rfl "collection" (by simp)
    obtain ⟨rkey, hrkey, hrkeyNe⟩ := hreads.record rfl "rkey" (by simp)
    simp only [openRepository, requireParam, hdid, hcollection, hrkey, hresolved, reduceCtorEq,
      Option.some.injEq, hne, hcollectionNe, hrkeyNe, or_self, if_false]
    rfl
  | getLatestCommit | repoGetRecord | listRecords | describeRepo =>
    simp only [openRepository, resolveRepo, hresolved]

/-- An export is opened for the account that the request names. -/
theorem opensExport_named (hreg : WellRegistered server o.toAuthOutcomes)
    (hreads : ReadsAccount server o.toAuthOutcomes req route acct) {other : AccountContext}
    (hopens : OpensExport lib server o.toAuthOutcomes req other) : other = acct := by
  obtain ⟨did, hdid, hother⟩ := hopens.named
  obtain ⟨-, hstart⟩ := hreg.opened did other hother
  obtain ⟨identifier, did', hidentifier, hdid', hacct⟩ :=
    hreads.spelled "did" (by simp) did hdid
  have hnot : ¬ startsWith "at://" did = true := by
    intro hat
    rw [startsWith_did_of_at hat] at hstart
    cases hstart
  unfold identifierOf at hidentifier
  rw [if_neg hnot] at hidentifier
  obtain rfl := Option.some.inj hidentifier
  unfold didOfIdentifier at hdid'
  rw [if_pos hstart] at hdid'
  obtain rfl := Option.some.inj hdid'
  exact Option.some.inj (hother.symm.trans hacct)

/-- Where the gate refuses a read, the account is deactivated. -/
theorem namesDeactivated_named (hreg : WellRegistered server o.toAuthOutcomes)
    (hreads : ReadsAccount server o.toAuthOutcomes req route acct)
    (hnames : namesDeactivated server o.toAuthOutcomes req = true) :
    acct.active = false ∧ accountIsTakenDown server o.toAuthOutcomes acct.did = false := by
  obtain ⟨-, hmatch⟩ := Bool.and_eq_true_iff.mp hnames
  cases htarget : requestTarget req with
  | none => simp [htarget] at hmatch
  | some target =>
    cases hchecked : contextForIdentifier server o.toAuthOutcomes target with
    | none => simp [htarget, hchecked] at hmatch
    | some checked =>
      have hspells : Spells server o.toAuthOutcomes acct target := by
        have heq : requestTarget req = (paramString req "repo").or (paramString req "did") := by
          rw [requestTarget, paramString, paramString]
          cases req.params <;> rfl
        rw [heq] at htarget
        rcases Option.or_eq_some_iff.mp htarget with h | ⟨-, h⟩
        · exact hreads.spelled "repo" (by simp) target h
        · exact hreads.spelled "did" (by simp) target h
      obtain ⟨identifier, did, hidentifier, hdid, hacct⟩ := hspells
      obtain rfl := contextForIdentifier_unique hreg hidentifier hdid hacct hchecked
      simpa [htarget, hchecked] using hmatch

/-- The answer, in its four cases. -/
theorem answerRead_eq (hreg : WellRegistered server o.toAuthOutcomes)
    (hreads : ReadsAccount server o.toAuthOutcomes req route acct)
    (hanswers : (o.answers .conflict).name = "RepoDeactivated")
    (hlimit : route = .getRepo → o.retryAfter = none) :
    (OpensExport lib server o.toAuthOutcomes req acct →
      answerRead lib server o req route = .ok acct) ∧
    (¬ OpensExport lib server o.toAuthOutcomes req acct →
      (accountIsTakenDown server o.toAuthOutcomes acct.did = true →
        RefusedAs "RepoTakendown" (answerRead lib server o req route)) ∧
      (accountIsTakenDown server o.toAuthOutcomes acct.did = false → acct.active = false →
        RefusedAs "RepoDeactivated" (answerRead lib server o req route)) ∧
      (accountIsTakenDown server o.toAuthOutcomes acct.did = false → acct.active = true →
        answerRead lib server o req route = .ok acct)) := by
  obtain ⟨hpublic, hadmin⟩ := route.public
  have hgate : authenticateRequest lib server o.toAuthOutcomes req =
      authenticatePublic lib server o.toAuthOutcomes req := by
    rw [authenticateRequest, hreads.nsid, hpublic, hadmin, if_neg (by simp), if_pos rfl]
  cases hdeactivated : namesDeactivated server o.toAuthOutcomes req with
  | true =>
    obtain ⟨hinactive, hup⟩ := namesDeactivated_named hreg hreads hdeactivated
    have hanswer : answerRead lib server o req route = .error (o.answers .conflict) := by
      rw [answerRead, hgate, authenticatePublic_eq, if_pos hdeactivated]
      rfl
    refine ⟨fun hopens => ?_, fun _ => ⟨fun hdown => ?_, fun _ _ => ⟨_, hanswer, hanswers⟩,
      fun _ hactive => ?_⟩⟩
    · rw [hopens.down] at hup
      cases hup
    · rw [hdown] at hup
      cases hup
    · rw [hactive] at hinactive
      cases hinactive
  | false =>
    have hopen : _ ∧ ∀ p, (authenticatePublic lib server o.toAuthOutcomes req).principal = some p ↔
        _ := authenticatePublic_open hdeactivated
    obtain ⟨hok, hprincipal⟩ := hopen
    have hauthed : ∀ sub,
        (authenticatePublic lib server o.toAuthOutcomes req).principal.map Prod.fst = some sub →
        sub = acct.did ∧ OpensExport lib server o.toAuthOutcomes req acct := by
      intro sub hsub
      obtain ⟨p, hp, rfl⟩ := Option.map_eq_some_iff.mp hsub
      obtain ⟨other, hopens, rfl⟩ := (hprincipal p).mp hp
      obtain rfl := opensExport_named hreg hreads hopens
      exact ⟨rfl, hopens⟩
    have hanswer : answerRead lib server o req route =
        assertRepoAvailable server o.toAuthOutcomes (some acct)
          ((authenticatePublic lib server o.toAuthOutcomes req).principal.map Prod.fst) := by
      rw [answerRead, hgate, if_pos hok]
      exact openRepository_eq hreads
        (spells_resolved hreg hreads fun sub hsub => (hauthed sub hsub).1) hlimit
    rw [hanswer]
    refine ⟨fun hopens => ?_, fun hcloses => ?_⟩
    · have hp := (hprincipal (acct.did, .user)).mpr ⟨acct, hopens, rfl⟩
      rw [hp, assertRepoAvailable, Option.map_some, if_pos rfl]
    · have hnone : (authenticatePublic lib server o.toAuthOutcomes req).principal.map Prod.fst =
          none :=
        Option.eq_none_iff_forall_not_mem.mpr fun sub hsub => hcloses (hauthed sub hsub).2
      rw [hnone, assertRepoAvailable, if_neg (by simp)]
      refine ⟨fun hdown => ?_, fun hup hinactive => ?_, fun hup hactive => ?_⟩
      · rw [hdown, if_pos rfl]
        exact ⟨_, rfl, rfl⟩
      · rw [hup, if_neg (by simp), if_pos hinactive]
        exact ⟨_, rfl, rfl⟩
      · rw [hup, if_neg (by simp), if_neg (by simp [hactive])]

/-- A request over the limit is refused under another name. -/
theorem answerRead_limited (hreads : ReadsAccount server o.toAuthOutcomes req .getRepo acct)
    {seconds : Nat} (hlimit : o.retryAfter = some seconds) :
    RefusedAs "RateLimitExceeded" (answerRead lib server o req .getRepo) := by
  have hpublic := ReadRoute.getRepo.public
  obtain ⟨value, hvalue, -⟩ := hreads.named
  have hdid : paramString req "did" = some value := hvalue
  have hnot : namesDeactivated server o.toAuthOutcomes req = false := by
    rw [namesDeactivated, hreads.nsid, show startsWith "com.atproto.repo." ReadRoute.getRepo.nsid
      = false by decide, Bool.false_and]
  have hok : (authenticateRequest lib server o.toAuthOutcomes req).status = .ok := by
    rw [authenticateRequest, hreads.nsid, hpublic.1, hpublic.2, if_neg (by simp), if_pos rfl]
    exact (authenticatePublic_open hnot).1
  rw [answerRead, if_pos hok]
  simp only [openRepository, hdid, hlimit]
  exact ⟨_, rfl, rfl⟩

theorem OpensExport.carriesToken (hopens : OpensExport lib server o.toAuthOutcomes req acct) :
    CarriesToken lib server o.toAuthOutcomes req acct := by
  obtain ⟨token, htoken, hscope⟩ := hopens.token
  refine Or.inl ⟨token, .takendown, htoken, ?_⟩
  cases hverified : authVerifyAccessScope lib.toTokenLibrary acct.auth o.now token with
  | error error =>
    rw [hverified] at hscope
    cases hscope
  | ok scope =>
    rw [hverified] at hscope
    rw [Option.some.inj hscope]

end Answer

/-! ## The main result -/

/-- Two names of an error do not both fit. -/
theorem RefusedAs.unique {name name' : String} {answer : Except XrpcError AccountContext}
    (h : RefusedAs name answer) (h' : RefusedAs name' answer) : name = name' := by
  obtain ⟨error, heq, rfl⟩ := h
  obtain ⟨error', heq', rfl⟩ := h'
  rw [heq] at heq'
  cases heq'
  rfl

theorem RefusedAs.not_ok {name : String} {answer : Except XrpcError AccountContext}
    (h : RefusedAs name answer) (acct : AccountContext) : answer ≠ .ok acct := by
  obtain ⟨error, rfl, -⟩ := h
  intro heq
  cases heq

section States

variable {lib : AuthLibrary} {server : MetalbearServer} {o : ReadOutcomes} {req : XrpcRequest}
  {route : ReadRoute} {acct : AccountContext}

theorem ReadsAccount.did_ne_empty (hreg : WellRegistered server o.toAuthOutcomes)
    (hreads : ReadsAccount server o.toAuthOutcomes req route acct) : acct.did ≠ "" := by
  obtain ⟨value, hvalue, -⟩ := hreads.named
  have hmember : repositoryMember route.nsid ∈ ["repo", "did"] := by
    unfold repositoryMember
    split <;> simp
  obtain ⟨identifier, did, -, -, hacct⟩ := hreads.spelled _ hmember value hvalue
  obtain ⟨hdid, hstart⟩ := hreg.opened did acct hacct
  rintro hempty
  rw [← hdid, hempty] at hstart
  exact absurd hstart (by decide)

/-- Whatever the state of the account, something is asked for that a refusal under another name
misses. -/
theorem not_decided_other {name : String} (htakendown : name ≠ "RepoTakendown")
    (hdeactivated : name ≠ "RepoDeactivated")
    (hrefused : RefusedAs name (answerRead lib server o req route)) :
    ¬ DecidedAlike lib server o req route acct := by
  intro h
  by_cases hcarry : CarriesToken lib server o.toAuthOutcomes req acct
  · exact hrefused.not_ok acct (h.served (Or.inr hcarry))
  · by_cases ht : TakenDown server acct.did
    · exact htakendown (hrefused.unique (h.takendown ht hcarry))
    · cases hactive : acct.active with
      | true => exact hrefused.not_ok acct (h.served (Or.inl ⟨hactive, ht⟩))
      | false => exact hdeactivated (hrefused.unique (h.deactivated hactive ht hcarry))

/-- An account that is not taken down. -/
theorem decided_up_iff (ht : ¬ TakenDown server acct.did)
    (hinactive : acct.active = false →
      RefusedAs "RepoDeactivated" (answerRead lib server o req route))
    (hactive : acct.active = true → answerRead lib server o req route = .ok acct) :
    DecidedAlike lib server o req route acct ↔
      acct.active = true ∨ ¬ CarriesToken lib server o.toAuthOutcomes req acct := by
  constructor
  · intro h
    by_contra hneither
    obtain ⟨hnot, hcarry⟩ := not_or.mp hneither
    exact (hinactive (Bool.eq_false_iff.mpr hnot)).not_ok acct
      (h.served (Or.inr (not_not.mp hcarry)))
  · intro hagrees
    refine ⟨fun h => hactive ?_, fun h => absurd h ht, fun hnot _ _ => hinactive hnot⟩
    rcases h with ⟨h, -⟩ | hcarry
    · exact h
    · exact hagrees.resolve_right (not_not.mpr hcarry)

/-- An account that is taken down, as the registry says. -/
theorem decided_down_iff (ht : TakenDown server acct.did)
    (hopened : OpensExport lib server o.toAuthOutcomes req acct →
      answerRead lib server o req route = .ok acct)
    (hclosed : ¬ OpensExport lib server o.toAuthOutcomes req acct →
      RefusedAs "RepoTakendown" (answerRead lib server o req route)) :
    DecidedAlike lib server o req route acct ↔
      OpensExport lib server o.toAuthOutcomes req acct ∨
        ¬ CarriesToken lib server o.toAuthOutcomes req acct := by
  constructor
  · intro h
    by_contra hneither
    obtain ⟨hnot, hcarry⟩ := not_or.mp hneither
    exact (hclosed hnot).not_ok acct (h.served (Or.inr (not_not.mp hcarry)))
  · intro hagrees
    refine ⟨fun h => hopened ?_, fun _ hcarry => hclosed ?_, fun _ h => absurd ht h⟩
    · rcases h with ⟨-, h⟩ | hcarry
      · exact absurd ht h
      · exact hagrees.resolve_right (not_not.mpr hcarry)
    · exact fun hopens => hcarry hopens.carriesToken

/-- An account that is taken down, where the registry's row is not read. -/
theorem decided_unread_iff (ht : TakenDown server acct.did)
    (hinactive : acct.active = false →
      RefusedAs "RepoDeactivated" (answerRead lib server o req route))
    (hactive : acct.active = true → answerRead lib server o req route = .ok acct) :
    DecidedAlike lib server o req route acct ↔
      acct.active = true ∧ CarriesToken lib server o.toAuthOutcomes req acct := by
  constructor
  · intro h
    by_cases hcarry : CarriesToken lib server o.toAuthOutcomes req acct
    · refine ⟨?_, hcarry⟩
      by_contra hnot
      exact (hinactive (Bool.eq_false_iff.mpr hnot)).not_ok acct (h.served (Or.inr hcarry))
    · have hrefused := h.takendown ht hcarry
      cases ha : acct.active with
      | true => exact absurd (hactive ha) (hrefused.not_ok acct)
      | false => exact absurd (hrefused.unique (hinactive ha)) (by decide)
  · rintro ⟨ha, hcarry⟩
    exact ⟨fun _ => hactive ha, fun _ h => absurd hcarry h, fun _ h => absurd ht h⟩

end States

/-- Availability is decided alike exactly where no account that is unavailable carries a token,
but to export a taken-down repository. -/
theorem availability_decided_iff (lib : AuthLibrary) (server : MetalbearServer) (o : ReadOutcomes)
    (hreg : WellRegistered server o.toAuthOutcomes)
    (hanswers : (o.answers .conflict).name = "RepoDeactivated") (req : XrpcRequest)
    (route : ReadRoute) (acct : AccountContext)
    (hreads : ReadsAccount server o.toAuthOutcomes req route acct) :
    DecidedAlike lib server o req route acct ↔ AvailabilityAgrees lib server o req route acct := by
  have hdown : accountIsTakenDown server o.toAuthOutcomes acct.did = true ↔
      o.readsTakedown = true ∧ TakenDown server acct.did :=
    accountIsTakenDown_iff (hreads.did_ne_empty hreg)
  by_cases hlimit : route = .getRepo → o.retryAfter = none
  swap
  · have hno : ¬ AvailabilityAgrees lib server o req route acct := fun h => hlimit h.1
    obtain ⟨rfl, hsome⟩ := Classical.not_imp.mp hlimit
    obtain ⟨seconds, hseconds⟩ := Option.ne_none_iff_exists'.mp hsome
    have hlimited : RefusedAs "RateLimitExceeded" (answerRead lib server o req .getRepo) :=
      answerRead_limited hreads hseconds
    exact iff_of_false (not_decided_other (by decide) (by decide) hlimited) hno
  · have hanswer : (OpensExport lib server o.toAuthOutcomes req acct →
        answerRead lib server o req route = .ok acct) ∧ _ :=
      answerRead_eq hreg hreads hanswers hlimit
    obtain ⟨hopened, hclosed⟩ := hanswer
    have hup : accountIsTakenDown server o.toAuthOutcomes acct.did = false →
        (acct.active = false → RefusedAs "RepoDeactivated" (answerRead lib server o req route)) ∧
        (acct.active = true → answerRead lib server o req route = .ok acct) := by
      intro hup
      have hnot : ¬ OpensExport lib server o.toAuthOutcomes req acct := by
        intro hopens
        rw [hopens.down] at hup
        cases hup
      exact ⟨(hclosed hnot).2.1 hup, (hclosed hnot).2.2 hup⟩
    by_cases ht : TakenDown server acct.did
    · cases hread : o.readsTakedown with
      | true =>
        rw [decided_down_iff ht hopened fun hnot => (hclosed hnot).1 (hdown.mpr ⟨hread, ht⟩)]
        simp only [AvailabilityAgrees, ht, hread, not_true, false_and, true_and, false_or,
          reduceCtorEq, or_false, iff_and_self]
        exact fun _ => hlimit
      | false =>
        obtain ⟨hinactive, hactive⟩ :=
          hup (Bool.eq_false_iff.mpr fun h => by simp [(hdown.mp h).1] at hread)
        rw [decided_unread_iff ht hinactive hactive]
        simp only [AvailabilityAgrees, ht, hread, not_true, false_and, true_and, false_or,
          reduceCtorEq, iff_and_self]
        exact fun _ => hlimit
    · obtain ⟨hinactive, hactive⟩ := hup (Bool.eq_false_iff.mpr fun h => ht (hdown.mp h).2)
      rw [decided_up_iff ht hinactive hactive]
      simp only [AvailabilityAgrees, ht, not_false_iff, true_and, false_and, or_false,
        iff_and_self]
      exact fun _ => hlimit

section OwnRepository

/-- The account of `did:plc:alice` is deactivated. -/
def deactivatedOutcomes : ReadOutcomes where
  toAuthOutcomes := { sharedOutcomes with
    contexts := fun did =>
      if did = "did:plc:alice" then some ⟨did, ⟨[], "did:web:pds.test", did⟩, false⟩ else none }
  retryAfter := none
  answers status :=
    if status = .conflict then ⟨403, "RepoDeactivated", "Repo has been deactivated"⟩
    else ⟨500, "InternalServerError", "Internal Server Error"⟩

def deactivatedAccount : AccountContext :=
  ⟨"did:plc:alice", ⟨[], "did:web:pds.test", "did:plc:alice"⟩, false⟩

/-- The account asks for its own repository. -/
def ownRequest : XrpcRequest where
  nsid := "com.atproto.sync.getRepo"
  method := some "GET"
  authHeader := some "DPoP token"
  dpopHeader := some "proof"
  contentType := none
  atprotoProxy := none
  params := some (.object [("did", .string "did:plc:alice")])

theorem deactivatedOutcomes_registered :
    WellRegistered sharedServer deactivatedOutcomes.toAuthOutcomes where
  opened := by
    intro did acct h
    simp only [deactivatedOutcomes] at h
    split at h
    · next hdid =>
      cases h
      subst hdid
      exact ⟨rfl, by decide⟩
    · cases h
  dids := by decide
  handles := by decide

theorem ownRequest_reads : ReadsAccount sharedServer deactivatedOutcomes.toAuthOutcomes ownRequest
    .getRepo deactivatedAccount where
  nsid := rfl
  named := ⟨"did:plc:alice", by decide, by decide⟩
  spelled := by
    intro member hmember value hvalue
    simp only [List.mem_cons, List.not_mem_nil, or_false] at hmember
    rcases hmember with rfl | rfl
    · cases hvalue
    · obtain rfl : "did:plc:alice" = value := Option.some.inj hvalue
      exact ⟨"did:plc:alice", "did:plc:alice", by decide, by decide, rfl⟩
  cid h := by cases h
  record h := by cases h

theorem ownRequest_carries : CarriesToken aliceTokenLibrary sharedServer
    deactivatedOutcomes.toAuthOutcomes ownRequest deactivatedAccount :=
  Or.inr ⟨by decide, some "atproto transition:generic", by decide⟩

theorem availability_decided_own :
    DecidedAlike aliceTokenLibrary sharedServer deactivatedOutcomes ownRequest .getRepo
        deactivatedAccount ↔
      AvailabilityAgrees aliceTokenLibrary sharedServer deactivatedOutcomes ownRequest .getRepo
        deactivatedAccount :=
  availability_decided_iff aliceTokenLibrary sharedServer deactivatedOutcomes
    deactivatedOutcomes_registered rfl ownRequest .getRepo deactivatedAccount ownRequest_reads

/-- A deactivated account is refused its own repository. -/
theorem own_repository_refused :
    ReadsAccount sharedServer deactivatedOutcomes.toAuthOutcomes ownRequest .getRepo
        deactivatedAccount ∧
      ¬ DecidedAlike aliceTokenLibrary sharedServer deactivatedOutcomes ownRequest .getRepo
        deactivatedAccount := by
  refine ⟨ownRequest_reads, fun h => ?_⟩
  have hrefused : answerRead aliceTokenLibrary sharedServer deactivatedOutcomes ownRequest
      .getRepo = .error ⟨400, "RepoDeactivated", "Repo has been deactivated"⟩ := by
    decide
  rw [h.served (Or.inr ownRequest_carries)] at hrefused
  cases hrefused

end OwnRepository

end MetalBear.Server
