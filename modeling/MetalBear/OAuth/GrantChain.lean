import MetalBear.Library.Spending
import MetalBear.OAuth.Grants

/-!
# Chains of grants

Runs of the calls of the OAuth store, in any order and with any outcome of their statements. A
request URI, an authorization code and a refresh token are spent at most as often as they are given,
and a grant carries what the pushed request at the start of its chain asked for, however long the
chain. Once the grants of a subject to a client are revoked, only a later exchange starts a chain.
-/

namespace MetalBear.OAuth.Grants

open KeyTable Machine Spending

/-! ## Events -/

/-- What is spent once: a request URI, or a code or a refresh token by its hash. -/
inductive Credential where
  | requestUri (uri : String)
  | code (hash : Hash)
  | refresh (hash : Hash)
  deriving DecidableEq, Repr

/-- The calls that succeed, with their time and the hash of what they give. -/
inductive GrantEvent where
  | pushed (uri : String) (r : Request) (now : Int)
  | authorized (uri clientId subject : String) (code : Hash) (now : Int)
  | exchanged (p : CodeProof) (code : Hash) (grant : Grant) (refresh : Hash) (now issued : Int)
  | refreshed (p : RefreshProof) (used : Hash) (grant : Grant) (refresh : Hash) (now issued : Int)
  deriving DecidableEq, Repr

/-- What an event gives. -/
def GrantEvent.gives : GrantEvent → Option Credential
  | pushed uri _ _ => some (.requestUri uri)
  | authorized _ _ _ code _ => some (.code code)
  | exchanged _ _ _ refresh _ _ => some (.refresh refresh)
  | refreshed _ _ _ refresh _ _ => some (.refresh refresh)

/-- What it spends. -/
def GrantEvent.spends : GrantEvent → Option Credential
  | pushed _ _ _ => none
  | authorized uri _ _ _ _ => some (.requestUri uri)
  | exchanged _ code _ _ _ _ => some (.code code)
  | refreshed _ used _ _ _ _ => some (.refresh used)

/-- The ledger of the store. -/
def grantLedger : Ledger GrantEvent Credential := ⟨GrantEvent.gives, GrantEvent.spends⟩

/-- What there is a row of. -/
def GrantStore.holds (s : GrantStore) : Credential → Bool
  | .requestUri uri => (s.par uri).isSome
  | .code hash => (s.code hash).isSome
  | .refresh hash => (s.refresh hash).isSome

/-- The calls of the store that write. -/
inductive GrantCall where
  | createPar (r : Request) (o : ParOutcome)
  | authorize (requestUri clientId subject : String) (o : AuthorizeOutcome)
  | exchangeCode (p : CodeProof) (o : GrantOutcome)
  | refresh (p : RefreshProof) (o : GrantOutcome)
  | revoke (token : String) (o : Statement)
  | grantsRevoke (subject clientId : String) (o : Statement)

/-- The event of a call that succeeds. -/
def eventOf {α : Type} (result : Except WfError α) (event : α → GrantEvent) : List GrantEvent :=
  match result with
  | .error _ => []
  | .ok a => [event a]

/-- A call, with its event. -/
def serve (lib : GrantLibrary) (s : GrantStore) : GrantCall → GrantStore × List GrantEvent
  | .createPar r o =>
    let a := createPar s r o
    (a.1, eventOf a.2 fun given => .pushed given.1 r o.now)
  | .authorize requestUri clientId subject o =>
    let a := authorize lib s requestUri clientId subject o
    (a.1, eventOf a.2 fun given =>
      .authorized requestUri clientId subject (lib.sha256 given.code) o.now)
  | .exchangeCode p o =>
    let a := exchangeCode lib s p o
    (a.1, eventOf a.2 fun grant => .exchanged p (lib.sha256 p.code) grant
      (lib.sha256 grant.refreshToken) o.now o.issue.now)
  | .refresh p o =>
    let a := refreshGrant lib s p o
    (a.1, eventOf a.2 fun grant => .refreshed p (lib.sha256 p.refreshToken) grant
      (lib.sha256 grant.refreshToken) o.now o.issue.now)
  | .revoke token o => ((revoke lib s token o).1, [])
  | .grantsRevoke subject clientId o => ((grantsRevoke s subject clientId o).1, [])

/-- The store after a run, and the events of the run. -/
def afterCalls (lib : GrantLibrary) (s : GrantStore) (run : List GrantCall) :
    GrantStore × List GrantEvent :=
  exec (logged (serve lib)) (s, []) run

/-! ## What a call does -/

/-- No row is new, and none is changed. -/
structure GrantStore.Within (s' s : GrantStore) : Prop where
  issuer : s'.issuer = s.issuer
  par : ∀ uri row, s'.par uri = some row → s.par uri = some row
  code : ∀ hash row, s'.code hash = some row → s.code hash = some row
  refresh : ∀ hash row, s'.refresh hash = some row → s.refresh hash = some row

variable {lib : GrantLibrary} {s s' m : GrantStore}

theorem GrantStore.Within.refl (s : GrantStore) : s.Within s :=
  ⟨rfl, fun _ _ => id, fun _ _ => id, fun _ _ => id⟩

theorem within_prune (now : Int) (o : PruneOutcome) : (prune s now o).Within s :=
  ⟨rfl, fun _ _ => pruneTable_eq_some, fun _ _ => pruneTable_eq_some,
    fun _ _ => pruneTable_eq_some⟩

/-- Codes may be deleted, -/
theorem GrantStore.Within.deleteCode {q : Hash → CodeRow → Bool} (h : m.Within s) :
    ({ m with code := m.code.deleteWhere q } : GrantStore).Within s :=
  ⟨h.issuer, h.par, fun hash row hrow => h.code hash row (deleteWhere_eq_some.mp hrow).1,
    h.refresh⟩

/-- and so may refresh tokens. -/
theorem GrantStore.Within.deleteRefresh {q : Hash → RefreshRow → Bool} (h : m.Within s) :
    ({ m with refresh := m.refresh.deleteWhere q } : GrantStore).Within s :=
  ⟨h.issuer, h.par, h.code,
    fun hash row hrow => h.refresh hash row (deleteWhere_eq_some.mp hrow).1⟩

/-- A request that is pushed adds its row where there was none. -/
theorem createPar_cases (s : GrantStore) (r : Request) (o : ParOutcome) :
    (∃ error, (createPar s r o).2 = .error error ∧ (createPar s r o).1.Within s) ∨
      ∃ (uri : String) (m : GrantStore), m.Within s ∧ m.par uri = none ∧ validRequest r = true ∧
        createPar s r o = ({ m with par := Function.update m.par uri (some (r.row o.now)) },
          .ok (uri, parLifetimeSeconds)) := by
  unfold createPar
  split
  · exact .inl ⟨_, rfl, .refl s⟩
  · next hvalid =>
    split
    · exact .inl ⟨_, rfl, .refl s⟩
    · next random _ =>
      split
      · exact .inl ⟨_, rfl, .refl s⟩
      · dsimp only
        cases hinsert : insertRow (prune s o.now o.prune).par (requestUriPrefix ++ random)
          (r.row o.now) o.insert with
        | error error => exact .inl ⟨error, rfl, within_prune _ _⟩
        | ok par =>
          obtain ⟨hnone, rfl⟩ := insertRow_eq_ok hinsert
          exact .inr ⟨_, _, within_prune _ _, hnone, by simpa using hvalid, rfl⟩

/-- The request that is read is live, and the client's own. -/
theorem readPar_eq_ok {uri clientId : String} {o : AuthorizeOutcome} {row : ParRow}
    (h : readPar s uri clientId o = .ok row) :
    s.par uri = some row ∧ o.now < row.expiresAt ∧ row.clientId = clientId := by
  unfold readPar at h
  split at h
  · cases h
  · next hselect =>
    split at h
    · cases h
    · split at h
      · cases h
      · next hclient =>
        cases h
        have hrow := selectLive_eq_ok hselect
        exact ⟨hrow.1, hrow.2, not_not.mp hclient⟩

/-- A request that is approved is deleted, and a code takes its place. -/
theorem authorize_cases (lib : GrantLibrary) (s : GrantStore) (uri clientId subject : String)
    (o : AuthorizeOutcome) :
    (∃ error, (authorize lib s uri clientId subject o).2 = .error error ∧
      (authorize lib s uri clientId subject o).1.Within s) ∨
      ∃ (code : String) (row : ParRow) (m : GrantStore), m.Within s ∧ m.par uri = some row ∧
        o.now < row.expiresAt ∧ row.clientId = clientId ∧ m.code (lib.sha256 code) = none ∧
        authorize lib s uri clientId subject o =
          ({ m with
            par := m.par.deleteWhere fun k _ => k = uri
            code := Function.update m.code (lib.sha256 code) (some (row.code subject o.now)) },
          .ok ⟨code, row.redirectUri, row.state⟩) := by
  unfold authorize
  cases hcode : o.code with
  | error error => exact .inl ⟨error, rfl, .refl s⟩
  | ok code =>
    dsimp only
    cases hread : readPar (prune s o.now o.prune) uri clientId o with
    | error error => exact .inl ⟨error, rfl, within_prune _ _⟩
    | ok row =>
      dsimp only
      cases hspend : spendPar lib (prune s o.now o.prune) uri subject code row o with
      | error error => exact .inl ⟨error, rfl, within_prune _ _⟩
      | ok s' =>
        obtain ⟨hrow, hlive, hclient⟩ := readPar_eq_ok hread
        unfold spendPar at hspend
        split at hspend
        · cases hspend
        · split at hspend
          · cases hspend
          · next par hdelete =>
            split at hspend
            · cases hspend
            · next code' hinsert =>
              split at hspend
              · cases hspend
                obtain ⟨hnone, rfl⟩ := insertRow_eq_ok hinsert
                obtain ⟨-, rfl⟩ := deleteKey_eq_ok hdelete
                exact .inr ⟨code, row, _, within_prune _ _, hrow, hlive, hclient, hnone, rfl⟩
              · cases hspend

/-- The grant that is issued on these terms. -/
def issued (issuer clientId scope jkt subject jti refreshToken : String) (o : IssueOutcome) :
    Grant :=
  ⟨⟨issuer, subject, issuer, scope, clientId, jti, o.signedAt, o.now + accessLifetimeSeconds, jkt⟩,
    refreshToken, accessLifetimeSeconds⟩

/-- A grant that is issued adds the row of its refresh token where there was none. -/
theorem issueGrant_cases (lib : GrantLibrary) (s : GrantStore) (clientId scope jkt subject : String)
    (o : IssueOutcome) :
    (∃ error, issueGrant lib s clientId scope jkt subject o = (s, .error error)) ∨
      ∃ jti token, s.refresh (lib.sha256 token) = none ∧
        issueGrant lib s clientId scope jkt subject o =
          ({ s with
            refresh := Function.update s.refresh (lib.sha256 token)
              (some ⟨clientId, scope, some jkt, subject, o.now + refreshLifetimeSeconds⟩) },
          .ok (issued s.issuer clientId scope jkt subject jti token o)) := by
  cases hresult : (issueGrant lib s clientId scope jkt subject o).2 with
  | error error => exact .inl ⟨error, Prod.ext (issueGrant_error hresult) hresult⟩
  | ok grant =>
    right
    unfold issueGrant persistRefresh at hresult ⊢
    cases hjti : o.jti with
    | none =>
      rw [hjti] at hresult
      cases hresult
    | some jti =>
      simp only [hjti] at hresult ⊢
      cases htoken : o.refreshToken with
      | error error =>
        rw [htoken] at hresult
        cases hresult
      | ok token =>
        simp only [htoken] at hresult ⊢
        split at hresult
        · cases hresult
        · next hpersist =>
          split at hpersist
          · cases hpersist
          · split at hpersist
            · cases hpersist
            · next refresh hinsert =>
              obtain ⟨hnone, rfl⟩ := insertRow_eq_ok hinsert
              cases hresult
              cases hpersist
              refine ⟨jti, token, hnone, ?_⟩
              rfl

/-- A code that is exchanged is deleted, and a refresh token takes its place. -/
theorem exchangeCode_cases (lib : GrantLibrary) (s : GrantStore) (p : CodeProof)
    (o : GrantOutcome) :
    (∃ error, (exchangeCode lib s p o).2 = .error error ∧ (exchangeCode lib s p o).1.Within s) ∨
      ∃ (row : CodeRow) (m : GrantStore) (jti token : String), m.Within s ∧
        checkCode lib m p o = .ok row ∧ m.refresh (lib.sha256 token) = none ∧
        exchangeCode lib s p o =
          ({ m with
            code := m.code.deleteWhere fun k _ => k = lib.sha256 p.code
            refresh := Function.update m.refresh (lib.sha256 token) (some ⟨p.clientId, row.scope,
              some p.dpopJkt, row.subject, o.issue.now + refreshLifetimeSeconds⟩) },
          .ok (issued m.issuer p.clientId row.scope p.dpopJkt row.subject jti token o.issue)) := by
  unfold exchangeCode
  split
  · exact .inl ⟨_, rfl, .refl s⟩
  · dsimp only
    cases hcheck : checkCode lib (prune s o.now o.prune) p o with
    | error error => exact .inl ⟨error, rfl, within_prune _ _⟩
    | ok row =>
      dsimp only
      cases hdelete : deleteKey (prune s o.now o.prune).code (lib.sha256 p.code) .permission
        o.delete with
      | error error => exact .inl ⟨error, rfl, within_prune _ _⟩
      | ok code =>
        obtain ⟨-, rfl⟩ := deleteKey_eq_ok hdelete
        have hwithin := within_prune (s := s) o.now o.prune
        dsimp only
        obtain ⟨error, herror⟩ | ⟨jti, token, hnone, hissue⟩ := issueGrant_cases lib
          { prune s o.now o.prune with
            code := (prune s o.now o.prune).code.deleteWhere fun k _ => k = lib.sha256 p.code }
          p.clientId row.scope p.dpopJkt row.subject o.issue
        · rw [herror]
          exact .inl ⟨error, rfl, hwithin.deleteCode⟩
        · rw [hissue]
          exact .inr ⟨row, _, jti, token, hwithin, hcheck, hnone, rfl⟩

/-- A refresh token that is used is deleted, and another one takes its place. -/
theorem refreshGrant_cases (lib : GrantLibrary) (s : GrantStore) (p : RefreshProof)
    (o : GrantOutcome) :
    (∃ error, (refreshGrant lib s p o).2 = .error error ∧ (refreshGrant lib s p o).1.Within s) ∨
      ∃ (row : RefreshRow) (m : GrantStore) (jti token : String), m.Within s ∧
        checkRefresh lib m p o = .ok row ∧
        (m.refresh.deleteWhere fun k _ => k = lib.sha256 p.refreshToken) (lib.sha256 token) =
          none ∧
        refreshGrant lib s p o =
          ({ m with
            refresh := Function.update
              (m.refresh.deleteWhere fun k _ => k = lib.sha256 p.refreshToken) (lib.sha256 token)
              (some ⟨p.clientId, row.scope, some p.dpopJkt, row.subject,
                o.issue.now + refreshLifetimeSeconds⟩) },
          .ok (issued m.issuer p.clientId row.scope p.dpopJkt row.subject jti token o.issue)) := by
  unfold refreshGrant
  split
  · exact .inl ⟨_, rfl, .refl s⟩
  · dsimp only
    cases hcheck : checkRefresh lib (prune s o.now o.prune) p o with
    | error error => exact .inl ⟨error, rfl, within_prune _ _⟩
    | ok row =>
      dsimp only
      cases hdelete : deleteKey (prune s o.now o.prune).refresh (lib.sha256 p.refreshToken)
        .permission o.delete with
      | error error => exact .inl ⟨error, rfl, within_prune _ _⟩
      | ok refresh =>
        obtain ⟨-, rfl⟩ := deleteKey_eq_ok hdelete
        have hwithin := within_prune (s := s) o.now o.prune
        dsimp only
        obtain ⟨error, herror⟩ | ⟨jti, token, hnone, hissue⟩ := issueGrant_cases lib
          { prune s o.now o.prune with
            refresh := (prune s o.now o.prune).refresh.deleteWhere
              fun k _ => k = lib.sha256 p.refreshToken }
          p.clientId row.scope p.dpopJkt row.subject o.issue
        · rw [herror]
          exact .inl ⟨error, rfl, hwithin.deleteRefresh⟩
        · rw [hissue]
          exact .inr ⟨row, _, jti, token, hwithin, hcheck, hnone, rfl⟩

theorem within_revoke (token : String) (o : Statement) :
    (revoke lib s token o).1.Within s := by
  unfold revoke
  split
  · exact (GrantStore.Within.refl s).deleteRefresh
  · exact .refl s

theorem within_grantsRevoke (subject clientId : String) (o : Statement) :
    (grantsRevoke s subject clientId o).1.Within s := by
  unfold grantsRevoke
  split
  · exact .refl s
  · split
    · exact (GrantStore.Within.refl s).deleteRefresh
    · exact .refl s

/-- What a call does, with its event: one case for each kind of event, and one for no event. -/
inductive Served (lib : GrantLibrary) (s : GrantStore) : GrantStore × List GrantEvent → Prop where
  | nothing {s' : GrantStore} : s'.Within s → Served lib s (s', [])
  | pushed {m : GrantStore} {uri : String} {r : Request} {now : Int} : m.Within s →
      m.par uri = none → validRequest r = true →
      Served lib s ({ m with par := Function.update m.par uri (some (r.row now)) },
        [.pushed uri r now])
  | authorized {m : GrantStore} {uri subject : String} {code : Hash} {row : ParRow} {now : Int} :
      m.Within s → m.par uri = some row → now < row.expiresAt → m.code code = none →
      Served lib s
        ({ m with
          par := m.par.deleteWhere fun k _ => k = uri
          code := Function.update m.code code (some (row.code subject now)) },
        [.authorized uri row.clientId subject code now])
  | exchanged {m : GrantStore} {p : CodeProof} {o : GrantOutcome} {row : CodeRow}
      {jti token : String} : m.Within s → checkCode lib m p o = .ok row →
      m.refresh (lib.sha256 token) = none →
      Served lib s
        ({ m with
          code := m.code.deleteWhere fun k _ => k = lib.sha256 p.code
          refresh := Function.update m.refresh (lib.sha256 token) (some ⟨p.clientId, row.scope,
            some p.dpopJkt, row.subject, o.issue.now + refreshLifetimeSeconds⟩) },
        [.exchanged p (lib.sha256 p.code)
          (issued m.issuer p.clientId row.scope p.dpopJkt row.subject jti token o.issue)
          (lib.sha256 token) o.now o.issue.now])
  | refreshed {m : GrantStore} {p : RefreshProof} {o : GrantOutcome} {row : RefreshRow}
      {jti token : String} : m.Within s → checkRefresh lib m p o = .ok row →
      (m.refresh.deleteWhere fun k _ => k = lib.sha256 p.refreshToken) (lib.sha256 token) = none →
      Served lib s
        ({ m with
          refresh := Function.update
            (m.refresh.deleteWhere fun k _ => k = lib.sha256 p.refreshToken) (lib.sha256 token)
            (some ⟨p.clientId, row.scope, some p.dpopJkt, row.subject,
              o.issue.now + refreshLifetimeSeconds⟩) },
        [.refreshed p (lib.sha256 p.refreshToken)
          (issued m.issuer p.clientId row.scope p.dpopJkt row.subject jti token o.issue)
          (lib.sha256 token) o.now o.issue.now])

/-- The cases cover every call. -/
theorem served (lib : GrantLibrary) (s : GrantStore) (call : GrantCall) :
    Served lib s (serve lib s call) := by
  cases call with
  | createPar r o =>
    simp only [serve]
    obtain ⟨error, herror, hwithin⟩ | ⟨uri, m, hwithin, hnone, hvalid, heq⟩ :=
      createPar_cases s r o
    · rw [herror]
      exact .nothing hwithin
    · rw [heq]
      exact .pushed hwithin hnone hvalid
  | authorize uri clientId subject o =>
    simp only [serve]
    obtain ⟨error, herror, hwithin⟩ | ⟨code, row, m, hwithin, hrow, hlive, rfl, hnone, heq⟩ :=
      authorize_cases lib s uri clientId subject o
    · rw [herror]
      exact .nothing hwithin
    · rw [heq]
      exact .authorized hwithin hrow hlive hnone
  | exchangeCode p o =>
    simp only [serve]
    obtain ⟨error, herror, hwithin⟩ | ⟨row, m, jti, token, hwithin, hcheck, hnone, heq⟩ :=
      exchangeCode_cases lib s p o
    · rw [herror]
      exact .nothing hwithin
    · rw [heq]
      exact .exchanged hwithin hcheck hnone
  | refresh p o =>
    simp only [serve]
    obtain ⟨error, herror, hwithin⟩ | ⟨row, m, jti, token, hwithin, hcheck, hnone, heq⟩ :=
      refreshGrant_cases lib s p o
    · rw [herror]
      exact .nothing hwithin
    · rw [heq]
      exact .refreshed hwithin hcheck hnone
  | revoke token o => exact .nothing (within_revoke token o)
  | grantsRevoke subject clientId o => exact .nothing (within_grantsRevoke subject clientId o)

/-! ## Spending -/

theorem holds_within (h : m.Within s) {k : Credential} (hk : m.holds k = true) :
    s.holds k = true := by
  cases k with
  | requestUri uri =>
    obtain ⟨row, hrow⟩ := Option.isSome_iff_exists.mp hk
    exact Option.isSome_iff_exists.mpr ⟨row, h.par uri row hrow⟩
  | code hash =>
    obtain ⟨row, hrow⟩ := Option.isSome_iff_exists.mp hk
    exact Option.isSome_iff_exists.mpr ⟨row, h.code hash row hrow⟩
  | refresh hash =>
    obtain ⟨row, hrow⟩ := Option.isSome_iff_exists.mp hk
    exact Option.isSome_iff_exists.mpr ⟨row, h.refresh hash row hrow⟩

section Tables

variable {κ ρ : Type} [DecidableEq κ] {t : KeyTable κ ρ} {key k : κ} {row : ρ}

/-- A row that is there after an insert is the new one, or was there. -/
theorem isSome_update (h : (Function.update t key (some row) k).isSome = true) :
    k = key ∨ (t k).isSome = true := by
  by_cases hk : k = key
  · exact .inl hk
  · rw [Function.update_of_ne hk] at h
    exact .inr h

/-- A row that is left by a delete was there, under another key. -/
theorem isSome_deleteKey (h : (t.deleteWhere (fun k _ => k = key) k).isSome = true) :
    (t k).isSome = true ∧ k ≠ key := by
  obtain ⟨row, hrow⟩ := Option.isSome_iff_exists.mp h
  obtain ⟨hrow, hne⟩ := deleteWhere_eq_some.mp hrow
  exact ⟨Option.isSome_iff_exists.mpr ⟨row, hrow⟩, of_decide_eq_false hne⟩

end Tables

/-- What a call leaves is accounted for by its event. -/
theorem Served.accounts {result : GrantStore × List GrantEvent} (h : Served lib s result) :
    Accounts grantLedger s.holds result.2 result.1.holds := by
  cases h with
  | nothing hwithin => exact accounts_nil fun _ => holds_within hwithin
  | @pushed m uri r now hwithin hnone hvalid =>
    refine accounts_single (fun k hk => by cases hk) fun k hk => ?_
    cases k with
    | requestUri uri' =>
      obtain rfl | hold := isSome_update hk
      · exact .inl rfl
      · exact .inr ⟨holds_within (k := .requestUri uri') hwithin hold, fun h => by cases h⟩
    | code hash => exact .inr ⟨holds_within (k := .code hash) hwithin hk, fun h => by cases h⟩
    | refresh hash =>
      exact .inr ⟨holds_within (k := .refresh hash) hwithin hk, fun h => by cases h⟩
  | @authorized m uri subject code row now hwithin hrow hlive hnone =>
    refine accounts_single (fun k hk => ?_) fun k hk => ?_
    · cases hk
      exact holds_within hwithin (Option.isSome_iff_exists.mpr ⟨row, hrow⟩)
    · cases k with
      | requestUri uri' =>
        obtain ⟨hold, hne⟩ := isSome_deleteKey hk
        exact .inr ⟨holds_within (k := .requestUri uri') hwithin hold,
          fun h => hne (Credential.requestUri.inj (Option.some.inj h)).symm⟩
      | code hash =>
        obtain rfl | hold := isSome_update hk
        · exact .inl rfl
        · exact .inr ⟨holds_within (k := .code hash) hwithin hold, fun h => by cases h⟩
      | refresh hash =>
        exact .inr ⟨holds_within (k := .refresh hash) hwithin hk, fun h => by cases h⟩
  | @exchanged m p o row jti token hwithin hcheck hnone =>
    refine accounts_single (fun k hk => ?_) fun k hk => ?_
    · cases hk
      exact holds_within hwithin (Option.isSome_iff_exists.mpr ⟨row, (checkCode_eq_ok hcheck).1⟩)
    · cases k with
      | requestUri uri =>
        exact .inr ⟨holds_within (k := .requestUri uri) hwithin hk, fun h => by cases h⟩
      | code hash =>
        obtain ⟨hold, hne⟩ := isSome_deleteKey hk
        exact .inr ⟨holds_within (k := .code hash) hwithin hold,
          fun h => hne (Credential.code.inj (Option.some.inj h)).symm⟩
      | refresh hash =>
        obtain rfl | hold := isSome_update hk
        · exact .inl rfl
        · exact .inr ⟨holds_within (k := .refresh hash) hwithin hold, fun h => by cases h⟩
  | @refreshed m p o row jti token hwithin hcheck hnone =>
    refine accounts_single (fun k hk => ?_) fun k hk => ?_
    · cases hk
      exact holds_within hwithin
        (Option.isSome_iff_exists.mpr ⟨row, (checkRefresh_eq_ok hcheck).1⟩)
    · cases k with
      | requestUri uri =>
        exact .inr ⟨holds_within (k := .requestUri uri) hwithin hk, fun h => by cases h⟩
      | code hash => exact .inr ⟨holds_within (k := .code hash) hwithin hk, fun h => by cases h⟩
      | refresh hash =>
        obtain rfl | hold := isSome_update hk
        · exact .inl rfl
        · obtain ⟨hold, hne⟩ := isSome_deleteKey hold
          exact .inr ⟨holds_within (k := .refresh hash) hwithin hold,
            fun h => hne (Credential.refresh.inj (Option.some.inj h)).symm⟩

/-- In every run a request URI, a code and a refresh token have been spent at most as often as they
were given, and once less while there is a row of them. -/
theorem credentials_spent_once (lib : GrantLibrary) (issuer : String) (run : List GrantCall)
    (k : Credential) :
    let after := afterCalls lib (.new issuer) run
    grantLedger.spent after.2 k + (after.1.holds k).toNat ≤ grantLedger.given after.2 k := by
  have h := accounts_exec (serve lib) GrantStore.holds
    (fun s call => (served lib s call).accounts) (.new issuer) run k
  have hnew : (GrantStore.new issuer).holds k = false := by cases k <;> rfl
  rwa [hnew, Bool.toNat_false, Nat.add_zero] at h

/-! ## Chains -/

/-- A pushed request was approved by the subject before it expired, and gave this code. -/
def Approved (events : List GrantEvent) (r : Request) (subject : String) (code : Hash)
    (now : Int) : Prop :=
  ∃ uri t, .pushed uri r t ∈ events ∧ .authorized uri r.clientId subject code now ∈ events ∧
    now < t + parLifetimeSeconds

/-- The refresh token comes from the request by an exchange and the refreshes after it, each before
what it spends expired. -/
inductive Chain (events : List GrantEvent) (r : Request) (subject : String) :
    Hash → Int → Prop where
  | exchanged {p : CodeProof} {code refresh : Hash} {grant : Grant} {t now issued : Int} :
      Approved events r subject code t → now < t + codeLifetimeSeconds →
      .exchanged p code grant refresh now issued ∈ events → Chain events r subject refresh issued
  | refreshed {p : RefreshProof} {used refresh : Hash} {grant : Grant} {t now issued : Int} :
      Chain events r subject used t → now < t + refreshLifetimeSeconds →
      .refreshed p used grant refresh now issued ∈ events → Chain events r subject refresh issued

/-- The access token says what the request asked for, and who approved it. -/
structure Grant.Carries (grant : Grant) (issuer : String) (r : Request) (subject : String) :
    Prop where
  iss : grant.accessToken.iss = issuer
  aud : grant.accessToken.aud = issuer
  sub : grant.accessToken.sub = subject
  scope : grant.accessToken.scope = r.scope
  clientId : grant.accessToken.clientId = r.clientId
  cnfJkt : grant.accessToken.cnfJkt = r.dpopJkt

/-- What an event has to rest on, given the events before it. -/
def GrantEvent.Backed (lib : GrantLibrary) (issuer : String) (events : List GrantEvent) :
    GrantEvent → Prop
  | pushed _ r _ => validRequest r = true
  | authorized uri clientId _ _ now =>
    ∃ r t, .pushed uri r t ∈ events ∧ now < t + parLifetimeSeconds ∧ clientId = r.clientId
  | exchanged p code grant _ now _ => code = lib.sha256 p.code ∧
    ∃ r subject t, Approved events r subject code t ∧ now < t + codeLifetimeSeconds ∧
      p.clientId = r.clientId ∧ p.redirectUri = r.redirectUri ∧
      lib.pkceChallenge p.codeVerifier = .ok r.codeChallenge ∧ p.dpopJkt = r.dpopJkt ∧
      grant.Carries issuer r subject
  | refreshed p used grant _ now _ => used = lib.sha256 p.refreshToken ∧
    ∃ r subject t, Chain events r subject used t ∧ now < t + refreshLifetimeSeconds ∧
      p.clientId = r.clientId ∧ p.dpopJkt = r.dpopJkt ∧ grant.Carries issuer r subject

/-- Every event rests on those before it. -/
def Founded (lib : GrantLibrary) (issuer : String) (events : List GrantEvent) : Prop :=
  ∀ before e later, events = before ++ e :: later → e.Backed lib issuer before

/-- Every event rests on those before it, and every row on the events so far. -/
structure Rooted (lib : GrantLibrary) (issuer : String) (s : GrantStore)
    (events : List GrantEvent) : Prop where
  issued_by : s.issuer = issuer
  par : ∀ uri row, s.par uri = some row → ∃ r t, .pushed uri r t ∈ events ∧ row = r.row t
  code : ∀ hash row, s.code hash = some row → ∃ r subject t, Approved events r subject hash t ∧
    row = ⟨r.clientId, r.redirectUri, r.scope, r.codeChallenge, some r.dpopJkt, subject,
      t + codeLifetimeSeconds⟩
  refresh : ∀ hash row, s.refresh hash = some row → ∃ r subject t, Chain events r subject hash t ∧
    row = ⟨r.clientId, r.scope, some r.dpopJkt, subject, t + refreshLifetimeSeconds⟩
  backed : Founded lib issuer events

variable {issuer : String} {events : List GrantEvent} {e : GrantEvent}

theorem Approved.concat {r : Request} {subject : String} {code : Hash} {now : Int}
    (h : Approved events r subject code now) : Approved (events ++ [e]) r subject code now := by
  obtain ⟨uri, t, hpushed, hauthorized, hlive⟩ := h
  exact ⟨uri, t, List.mem_append_left _ hpushed, List.mem_append_left _ hauthorized, hlive⟩

theorem Chain.concat {r : Request} {subject : String} {hash : Hash} {now : Int}
    (h : Chain events r subject hash now) : Chain (events ++ [e]) r subject hash now := by
  induction h with
  | exchanged happroved hlive hmem =>
    exact .exchanged happroved.concat hlive (List.mem_append_left _ hmem)
  | refreshed _ hlive hmem ih => exact .refreshed ih hlive (List.mem_append_left _ hmem)

theorem rooted_new (lib : GrantLibrary) (issuer : String) :
    Rooted lib issuer (.new issuer) [] where
  issued_by := rfl
  par _ _ h := by cases h
  code _ _ h := by cases h
  refresh _ _ h := by cases h
  backed before e later h := by cases before <;> cases h

theorem Rooted.within (h : Rooted lib issuer s events) (hwithin : s'.Within s) :
    Rooted lib issuer s' events where
  issued_by := hwithin.issuer.trans h.issued_by
  par uri row hrow := h.par uri row (hwithin.par uri row hrow)
  code hash row hrow := h.code hash row (hwithin.code hash row hrow)
  refresh hash row hrow := h.refresh hash row (hwithin.refresh hash row hrow)
  backed := h.backed

/-- An event that is backed may be written down. -/
theorem Rooted.concat (h : Rooted lib issuer s events) (he : e.Backed lib issuer events) :
    Rooted lib issuer s (events ++ [e]) where
  issued_by := h.issued_by
  par uri row hrow := by
    obtain ⟨r, t, hmem, heq⟩ := h.par uri row hrow
    exact ⟨r, t, List.mem_append_left _ hmem, heq⟩
  code hash row hrow := by
    obtain ⟨r, subject, t, happroved, heq⟩ := h.code hash row hrow
    exact ⟨r, subject, t, happroved.concat, heq⟩
  refresh hash row hrow := by
    obtain ⟨r, subject, t, hchain, heq⟩ := h.refresh hash row hrow
    exact ⟨r, subject, t, hchain.concat, heq⟩
  backed before e' later heq := by
    obtain ⟨rfl, rfl⟩ | ⟨later, hevents⟩ := concat_eq_split heq
    · exact he
    · exact h.backed before e' later hevents

/-- The step lemma. -/
theorem Rooted.served {result : GrantStore × List GrantEvent} (h : Rooted lib issuer s events)
    (hserved : Served lib s result) : Rooted lib issuer result.1 (events ++ result.2) := by
  cases hserved with
  | nothing hwithin =>
    rw [List.append_nil]
    exact h.within hwithin
  | @pushed m uri r now hwithin hnone hvalid =>
    have hm := (h.within hwithin).concat (e := .pushed uri r now) hvalid
    refine ⟨hm.issued_by, fun uri' row hrow => ?_, hm.code, hm.refresh, hm.backed⟩
    obtain ⟨rfl, rfl⟩ | ⟨-, hold⟩ := update_eq_some.mp hrow
    · exact ⟨r, now, List.mem_append_right _ List.mem_cons_self, rfl⟩
    · exact hm.par uri' row hold
  | @authorized m uri subject code row now hwithin hrow hlive hnone =>
    obtain ⟨r, t, hpushed, rfl⟩ := (h.within hwithin).par uri row hrow
    have hm := (h.within hwithin).concat (e := .authorized uri r.clientId subject code now)
      ⟨r, t, hpushed, hlive, rfl⟩
    refine ⟨hm.issued_by, fun uri' row' hrow' => ?_, fun hash row' hrow' => ?_, hm.refresh,
      hm.backed⟩
    · dsimp only at hrow'
      exact hm.par uri' row' (deleteWhere_eq_some.mp hrow').1
    · obtain ⟨rfl, rfl⟩ | ⟨-, hold⟩ := update_eq_some.mp hrow'
      · exact ⟨r, subject, now, ⟨uri, t, List.mem_append_left _ hpushed,
          List.mem_append_right _ List.mem_cons_self, hlive⟩, rfl⟩
      · exact hm.code hash row' hold
  | @exchanged m p o row jti token hwithin hcheck hnone =>
    obtain ⟨hrow, hlive, hclient, hredirect, hpkce, hjkt⟩ := checkCode_eq_ok hcheck
    obtain ⟨r, subject, t, happroved, rfl⟩ := (h.within hwithin).code _ row hrow
    have hkey : r.dpopJkt = p.dpopJkt := Option.some.inj hjkt
    have hm := (h.within hwithin).concat (e := .exchanged p (lib.sha256 p.code)
      (issued m.issuer p.clientId r.scope p.dpopJkt subject jti token o.issue) (lib.sha256 token)
      o.now o.issue.now)
      ⟨rfl, r, subject, t, happroved, hlive, hclient.symm, hredirect.symm, hpkce, hkey.symm,
        (h.within hwithin).issued_by, (h.within hwithin).issued_by, rfl, rfl, hclient.symm,
        hkey.symm⟩
    refine ⟨hm.issued_by, hm.par, fun hash row' hrow' => ?_, fun hash row' hrow' => ?_, hm.backed⟩
    · dsimp only at hrow'
      exact hm.code hash row' (deleteWhere_eq_some.mp hrow').1
    · obtain ⟨rfl, rfl⟩ | ⟨-, hold⟩ := update_eq_some.mp hrow'
      · refine ⟨r, subject, o.issue.now, .exchanged happroved.concat hlive
          (List.mem_append_right _ List.mem_cons_self), ?_⟩
        rw [← hclient, ← hkey]
      · exact hm.refresh hash row' hold
  | @refreshed m p o row jti token hwithin hcheck hnone =>
    obtain ⟨hrow, hlive, hclient, hjkt⟩ := checkRefresh_eq_ok hcheck
    obtain ⟨r, subject, t, hchain, rfl⟩ := (h.within hwithin).refresh _ row hrow
    have hkey : r.dpopJkt = p.dpopJkt := Option.some.inj hjkt
    have hm := (h.within hwithin).concat (e := .refreshed p (lib.sha256 p.refreshToken)
      (issued m.issuer p.clientId r.scope p.dpopJkt subject jti token o.issue) (lib.sha256 token)
      o.now o.issue.now)
      ⟨rfl, r, subject, t, hchain, hlive, hclient.symm, hkey.symm, (h.within hwithin).issued_by,
        (h.within hwithin).issued_by, rfl, rfl, hclient.symm, hkey.symm⟩
    refine ⟨hm.issued_by, hm.par, hm.code, fun hash row' hrow' => ?_, hm.backed⟩
    obtain ⟨rfl, rfl⟩ | ⟨-, hold⟩ := update_eq_some.mp hrow'
    · refine ⟨r, subject, o.issue.now, .refreshed hchain.concat hlive
        (List.mem_append_right _ List.mem_cons_self), ?_⟩
      rw [← hclient, ← hkey]
    · exact hm.refresh hash row' (deleteWhere_eq_some.mp hold).1

/-- The run lemma. -/
theorem rooted_afterCalls (lib : GrantLibrary) (issuer : String) (run : List GrantCall) :
    Rooted lib issuer (afterCalls lib (.new issuer) run).1
      (afterCalls lib (.new issuer) run).2 :=
  exec_of_invariant (P := fun p : GrantStore × List GrantEvent => Rooted lib issuer p.1 p.2)
    (rooted_new lib issuer) fun p call hp => hp.served (served lib p.1 call)

/-- In every run, every grant rests on a chain that leads to a pushed request before it: the proofs
that were presented are those of the request, each link was made before it expired, and the access
token carries the client, the scope and the key of the request, and the subject that approved it. -/
theorem grants_rest_on_requests (lib : GrantLibrary) (issuer : String) (run : List GrantCall) :
    Founded lib issuer (afterCalls lib (.new issuer) run).2 :=
  (rooted_afterCalls lib issuer run).backed

/-! ## Revocation -/

/-- The refresh token comes from an exchange among the events, and the refreshes after it. -/
inductive Renewed (events : List GrantEvent) : Hash → Prop where
  | exchanged {p : CodeProof} {code refresh : Hash} {grant : Grant} {now issued : Int} :
      .exchanged p code grant refresh now issued ∈ events → Renewed events refresh
  | refreshed {p : RefreshProof} {used refresh : Hash} {grant : Grant} {now issued : Int} :
      Renewed events used → .refreshed p used grant refresh now issued ∈ events →
      Renewed events refresh

theorem Renewed.concat {hash : Hash} (h : Renewed events hash) : Renewed (events ++ [e]) hash := by
  induction h with
  | exchanged hmem => exact .exchanged (List.mem_append_left _ hmem)
  | refreshed _ hmem ih => exact .refreshed ih (List.mem_append_left _ hmem)

/-- Each refresh for the subject and the client uses a token that comes from an exchange before it
among the events. -/
def RefreshesAnew (subject clientId : String) (events : List GrantEvent) : Prop :=
  ∀ before p used grant refresh now issued later,
    events = before ++ .refreshed p used grant refresh now issued :: later →
    grant.accessToken.sub = subject → grant.accessToken.clientId = clientId → Renewed before used

/-- So does each row that is left for them. -/
def RowsAnew (subject clientId : String) (s : GrantStore) (events : List GrantEvent) : Prop :=
  ∀ hash row, s.refresh hash = some row → row.subject = subject → row.clientId = clientId →
    Renewed events hash

variable {subject clientId : String}

/-- An event is written down. -/
theorem RefreshesAnew.concat (h : RefreshesAnew subject clientId events)
    (he : ∀ p used grant refresh now issued, e = .refreshed p used grant refresh now issued →
      grant.accessToken.sub = subject → grant.accessToken.clientId = clientId →
      Renewed events used) : RefreshesAnew subject clientId (events ++ [e]) := by
  intro before p used grant refresh now issued later heq
  obtain ⟨rfl, hlast⟩ | ⟨later, hevents⟩ := concat_eq_split heq
  · exact he p used grant refresh now issued hlast.symm
  · exact h before p used grant refresh now issued later hevents

/-- A call for the subject and the client uses and leaves what comes from an exchange. -/
theorem Served.anew {result : GrantStore × List GrantEvent} (hserved : Served lib s result)
    (hrows : RowsAnew subject clientId s events) (h : RefreshesAnew subject clientId events) :
    RowsAnew subject clientId result.1 (events ++ result.2) ∧
      RefreshesAnew subject clientId (events ++ result.2) := by
  cases hserved with
  | nothing hwithin =>
    rw [List.append_nil]
    exact ⟨fun hash row hrow => hrows hash row (hwithin.refresh hash row hrow), h⟩
  | pushed hwithin _ _ =>
    refine ⟨fun hash row hrow hsub hclient => ?_, h.concat fun _ _ _ _ _ _ he => by cases he⟩
    exact (hrows hash row (hwithin.refresh hash row hrow) hsub hclient).concat
  | authorized hwithin _ _ _ =>
    refine ⟨fun hash row hrow hsub hclient => ?_, h.concat fun _ _ _ _ _ _ he => by cases he⟩
    exact (hrows hash row (hwithin.refresh hash row hrow) hsub hclient).concat
  | @exchanged m p o row jti token hwithin _ _ =>
    refine ⟨fun hash row' hrow hsub hclient => ?_, h.concat fun _ _ _ _ _ _ he => by cases he⟩
    obtain ⟨rfl, -⟩ | ⟨-, hold⟩ := update_eq_some.mp hrow
    · exact .exchanged (List.mem_append_right _ List.mem_cons_self)
    · exact (hrows hash row' (hwithin.refresh hash row' hold) hsub hclient).concat
  | @refreshed m p o row jti token hwithin hcheck _ =>
    obtain ⟨hrow, -, hown, -⟩ := checkRefresh_eq_ok hcheck
    have hused : row.subject = subject → p.clientId = clientId →
        Renewed events (lib.sha256 p.refreshToken) := fun hsub hclient =>
      hrows _ row (hwithin.refresh _ row hrow) hsub (hown.trans hclient)
    refine ⟨fun hash row' hrow' hsub hclient => ?_, h.concat fun _ _ _ _ _ _ he hsub hclient => ?_⟩
    · obtain ⟨rfl, rfl⟩ | ⟨-, hold⟩ := update_eq_some.mp hrow'
      · exact .refreshed (hused hsub hclient).concat (List.mem_append_right _ List.mem_cons_self)
      · exact (hrows hash row' (hwithin.refresh hash row' (deleteWhere_eq_some.mp hold).1) hsub
          hclient).concat
    · cases he
      exact hused hsub hclient

/-- Once the grants of a subject to a client are revoked, in whatever state of the store, no refresh
token from before is of use to them: in every run after it, a refresh for them uses a token that
comes from an exchange made since. -/
theorem revoked_grants_start_anew (s : GrantStore) (lib : GrantLibrary) (o : Statement)
    (hok : (grantsRevoke s subject clientId o).2 = .ok ()) (run : List GrantCall) :
    RefreshesAnew subject clientId
      (afterCalls lib (grantsRevoke s subject clientId o).1 run).2 := by
  have hrows : RowsAnew subject clientId (grantsRevoke s subject clientId o).1 [] := by
    intro hash row hrow hsub hclient
    unfold grantsRevoke at hok hrow
    split at hok
    · cases hok
    · next hnamed =>
      rw [if_neg hnamed] at hrow
      split at hok
      · next hdone =>
        rw [if_pos hdone] at hrow
        dsimp only at hrow
        have hspared := (deleteWhere_eq_some.mp hrow).2
        exact absurd ⟨hsub, hclient⟩ (of_decide_eq_false hspared)
      · cases hok
  have hnone : RefreshesAnew subject clientId [] := by
    intro before p used grant refresh now issued later heq
    cases before <;> cases heq
  exact (exec_of_invariant (P := fun p : GrantStore × List GrantEvent =>
      RowsAnew subject clientId p.1 p.2 ∧ RefreshesAnew subject clientId p.2) ⟨hrows, hnone⟩
    fun p call hp => (served lib p.1 call).anew hp.1 hp.2).2

/-- The exchange of the code that was approved before the revocation starts a chain, and the refresh
token from before is refused. -/
theorem revoked_app_starts_anew :
    let after := afterCalls grantLibrary (grantsRevoke approvedStore "did:web:a" "app" .done).1
      [.refresh presentedRefresh (outcomeOf .done), .exchangeCode presentedCode (outcomeOf .done),
        .refresh ⟨"n", "app", "k"⟩ { outcomeOf .done with
          issue := ⟨100, 100, some "j", .ok "m", true, .done⟩ }]
    RefreshesAnew "did:web:a" "app" after.2 ∧ after.2.length = 2 :=
  ⟨revoked_grants_start_anew approvedStore grantLibrary .done rfl _, rfl⟩

/-! ## Random values that do not collide -/

/-- The credential that a call makes of its random value. -/
def drawn (lib : GrantLibrary) : GrantCall → Option Credential
  | .createPar _ o => o.random.toOption.map fun random => .requestUri (requestUriPrefix ++ random)
  | .authorize _ _ _ o => o.code.toOption.map fun code => .code (lib.sha256 code)
  | .exchangeCode _ o | .refresh _ o =>
    o.issue.refreshToken.toOption.map fun token => .refresh (lib.sha256 token)
  | _ => none

theorem issueGrant_token {clientId scope jkt subject : String} {o : IssueOutcome} {grant : Grant}
    (h : (issueGrant lib s clientId scope jkt subject o).2 = .ok grant) :
    o.refreshToken = .ok grant.refreshToken := by
  unfold issueGrant at h
  split at h
  · cases h
  · split at h
    · cases h
    · next token htoken =>
      split at h
      · cases h
      · cases h
        exact htoken

theorem exchangeCode_token {p : CodeProof} {o : GrantOutcome} {grant : Grant}
    (h : (exchangeCode lib s p o).2 = .ok grant) :
    o.issue.refreshToken = .ok grant.refreshToken := by
  unfold exchangeCode at h
  split at h
  · cases h
  · dsimp only at h
    split at h
    · cases h
    · split at h
      · cases h
      · exact issueGrant_token h

theorem refreshGrant_token {p : RefreshProof} {o : GrantOutcome} {grant : Grant}
    (h : (refreshGrant lib s p o).2 = .ok grant) :
    o.issue.refreshToken = .ok grant.refreshToken := by
  unfold refreshGrant at h
  split at h
  · cases h
  · dsimp only at h
    split at h
    · cases h
    · split at h
      · cases h
      · exact issueGrant_token h

theorem createPar_random {r : Request} {o : ParOutcome} {given : String × Int}
    (h : (createPar s r o).2 = .ok given) :
    ∃ random, o.random = .ok random ∧ given.1 = requestUriPrefix ++ random := by
  unfold createPar at h
  split at h
  · cases h
  · split at h
    · cases h
    · next random hrandom =>
      split at h
      · cases h
      · dsimp only at h
        split at h
        · cases h
        · cases h
          exact ⟨random, hrandom, rfl⟩

theorem authorize_code {uri clientId subject : String} {o : AuthorizeOutcome} {given : Authorized}
    (h : (authorize lib s uri clientId subject o).2 = .ok given) : o.code = .ok given.code := by
  unfold authorize at h
  split at h
  · cases h
  · next code hcode =>
    dsimp only at h
    split at h
    · cases h
    · split at h
      · cases h
      · cases h
        exact hcode

/-- A call gives at most the credential that it makes of its random value. -/
theorem gives_drawn (lib : GrantLibrary) (s : GrantStore) (call : GrantCall) :
    ((serve lib s call).2.filterMap grantLedger.gives).Sublist (drawn lib call).toList := by
  cases call with
  | createPar r o =>
    rw [serve]
    dsimp only
    cases h : (createPar s r o).2 with
    | error e => exact List.nil_sublist _
    | ok given =>
      obtain ⟨random, hrandom, hgiven⟩ := createPar_random h
      simp [eventOf, drawn, grantLedger, GrantEvent.gives, hrandom, hgiven, Except.toOption]
  | authorize uri clientId subject o =>
    rw [serve]
    dsimp only
    cases h : (authorize lib s uri clientId subject o).2 with
    | error e => exact List.nil_sublist _
    | ok given =>
      simp [eventOf, drawn, grantLedger, GrantEvent.gives, authorize_code h, Except.toOption]
  | exchangeCode p o =>
    rw [serve]
    dsimp only
    cases h : (exchangeCode lib s p o).2 with
    | error e => exact List.nil_sublist _
    | ok grant =>
      simp [eventOf, drawn, grantLedger, GrantEvent.gives, exchangeCode_token h, Except.toOption]
  | refresh p o =>
    rw [serve]
    dsimp only
    cases h : (refreshGrant lib s p o).2 with
    | error e => exact List.nil_sublist _
    | ok grant =>
      simp [eventOf, drawn, grantLedger, GrantEvent.gives, refreshGrant_token h, Except.toOption]
  | revoke token o => exact List.nil_sublist _
  | grantsRevoke subject clientId o => exact List.nil_sublist _

theorem gives_sublist (lib : GrantLibrary) (s : GrantStore) (run : List GrantCall) :
    ((afterCalls lib s run).2.filterMap grantLedger.gives).Sublist
      (run.filterMap (drawn lib)) :=
  gives_exec_sublist (serve lib) (drawn lib) (gives_drawn lib) s [] run

/-- Where nothing is given twice, a code was approved for one client and subject. -/
theorem Approved.unique (hfresh : (events.filterMap grantLedger.gives).Nodup) {r r' : Request}
    {subject subject' : String} {code : Hash} {now now' : Int}
    (h : Approved events r subject code now) (h' : Approved events r' subject' code now') :
    r.clientId = r'.clientId ∧ subject = subject' := by
  obtain ⟨uri, t, -, hmem, -⟩ := h
  obtain ⟨uri', t', -, hmem', -⟩ := h'
  have heq := eq_of_gives (k := .code code) hfresh hmem hmem' rfl rfl
  injection heq with _ hclient hsubject
  exact ⟨hclient, hsubject⟩

/-- So was a refresh token. -/
theorem Chain.unique (hfresh : (events.filterMap grantLedger.gives).Nodup) {r r' : Request}
    {subject subject' : String} {hash : Hash} {now now' : Int}
    (h : Chain events r subject hash now) (h' : Chain events r' subject' hash now') :
    r.clientId = r'.clientId ∧ subject = subject' := by
  induction h generalizing now' with
  | @exchanged p code refresh grant t now issued happroved _ hmem =>
    cases h' with
    | exchanged happroved' _ hmem' =>
      have heq := eq_of_gives (k := .refresh refresh) hfresh hmem hmem' rfl rfl
      cases heq
      exact happroved.unique hfresh happroved'
    | refreshed _ _ hmem' =>
      have heq := eq_of_gives (k := .refresh refresh) hfresh hmem hmem' rfl rfl
      cases heq
  | @refreshed p used refresh grant t now issued _ _ hmem ih =>
    cases h' with
    | exchanged _ _ hmem' =>
      have heq := eq_of_gives (k := .refresh refresh) hfresh hmem hmem' rfl rfl
      cases heq
    | refreshed hchain' _ hmem' =>
      have heq := eq_of_gives (k := .refresh refresh) hfresh hmem hmem' rfl rfl
      cases heq
      exact ih hchain'

theorem Chain.mono {events' : List GrantEvent} {r : Request} {hash : Hash} {now : Int}
    (hsub : ∀ e ∈ events, e ∈ events') (h : Chain events r subject hash now) :
    Chain events' r subject hash now := by
  induction h with
  | exchanged happroved hlive hmem =>
    obtain ⟨uri, t, hpushed, hauthorized, hlive₀⟩ := happroved
    exact .exchanged ⟨uri, t, hsub _ hpushed, hsub _ hauthorized, hlive₀⟩ hlive (hsub _ hmem)
  | refreshed _ hlive hmem ih => exact .refreshed ih hlive (hsub _ hmem)

/-- A grant for the subject and the client came with this refresh token. -/
def IssuedFor (events : List GrantEvent) (subject clientId : String) (hash : Hash) : Prop :=
  ∃ e ∈ events, ∃ grant : Grant, grant.accessToken.sub = subject ∧
    grant.accessToken.clientId = clientId ∧
    ((∃ p code now issued, e = .exchanged p code grant hash now issued) ∨
      ∃ p used now issued, e = .refreshed p used grant hash now issued)

theorem IssuedFor.exists_gives {hash : Hash} (h : IssuedFor events subject clientId hash) :
    ∃ e ∈ events, grantLedger.gives e = some (.refresh hash) := by
  obtain ⟨e, he, grant, -, -, hevent⟩ := h
  obtain ⟨p, code, now, issued, rfl⟩ | ⟨p, used, now, issued, rfl⟩ := hevent
  · exact ⟨_, he, rfl⟩
  · exact ⟨_, he, rfl⟩

/-- Where nothing is given twice, the row of a refresh token is one for whom it was issued. -/
theorem Rooted.row_issuedFor (h : Rooted lib issuer s events)
    (hfresh : (events.filterMap grantLedger.gives).Nodup) {hash : Hash}
    (hissued : IssuedFor events subject clientId hash) {row : RefreshRow}
    (hrow : s.refresh hash = some row) : row.subject = subject ∧ row.clientId = clientId := by
  obtain ⟨r, subject', t, hchain, rfl⟩ := h.refresh hash row hrow
  obtain ⟨e, he, grant, rfl, rfl, hevent⟩ := hissued
  obtain ⟨before, later, hsplit⟩ := List.append_of_mem he
  have hbacked := h.backed before e later hsplit
  have hmem : ∀ e' ∈ before, e' ∈ events := fun e' he' => hsplit ▸ List.mem_append_left _ he'
  obtain ⟨p, code, now, issued, rfl⟩ | ⟨p, used, now, issued, rfl⟩ := hevent
  · obtain ⟨-, r', subject'', t', ⟨uri, t₀, hpushed, hauthorized, hlive₀⟩, hlive, -, -, -, -,
      hcarries⟩ := hbacked
    have hchain' : Chain events r' subject'' hash issued :=
      .exchanged ⟨uri, t₀, hmem _ hpushed, hmem _ hauthorized, hlive₀⟩ hlive he
    obtain ⟨hclient, hsubject⟩ := hchain.unique hfresh hchain'
    exact ⟨hsubject.trans hcarries.sub.symm, hclient.trans hcarries.clientId.symm⟩
  · obtain ⟨-, r', subject'', t', hused, hlive, -, -, hcarries⟩ := hbacked
    have hchain' : Chain events r' subject'' hash issued := .refreshed (hused.mono hmem) hlive he
    obtain ⟨hclient, hsubject⟩ := hchain.unique hfresh hchain'
    exact ⟨hsubject.trans hcarries.sub.symm, hclient.trans hcarries.clientId.symm⟩

/-- What a run of the calls, from an empty store, makes sure of. -/
structure GrantsChained (lib : GrantLibrary) (issuer : String) (run : List GrantCall) : Prop where
  /-- A request gives one code, a code one grant, and a refresh token one successor. -/
  once : ∀ k, grantLedger.spent (afterCalls lib (.new issuer) run).2 k ≤ 1
  /-- Each was spent before it expired, by a proof that the request at the start of its chain asked
  for, and the grants carry what that request says. -/
  founded : Founded lib issuer (afterCalls lib (.new issuer) run).2
  /-- After a revocation, no refresh token is spent that was issued before for the pair. -/
  revoked : ∀ before subject clientId o later,
    run = before ++ .grantsRevoke subject clientId o :: later →
    (grantsRevoke (afterCalls lib (.new issuer) before).1 subject clientId o).2 = .ok () →
    ∀ hash, IssuedFor (afterCalls lib (.new issuer) before).2 subject clientId hash →
      grantLedger.spent (afterCalls lib
        (grantsRevoke (afterCalls lib (.new issuer) before).1 subject clientId o).1 later).2
        (.refresh hash) = 0
  /-- A revocation that names both and whose statement is done is answered with ok. -/
  answered : ∀ before subject clientId later,
    run = before ++ .grantsRevoke subject clientId .done :: later →
    subject ≠ "" → clientId ≠ "" →
    (grantsRevoke (afterCalls lib (.new issuer) before).1 subject clientId .done).2 = .ok ()

/-- In every run whose random values make different credentials, a request gives one code, a code
one grant and a refresh token one successor, all of them rest on a chain that leads to the request,
and what was issued before a revocation is of no use after it. -/
theorem grants_chained (lib : GrantLibrary) (issuer : String) (run : List GrantCall)
    (hdrawn : (run.filterMap (drawn lib)).Nodup) : GrantsChained lib issuer run where
  once k := by
    have haccounts := accounts_exec (serve lib) GrantStore.holds
      (fun s call => (served lib s call).accounts) (.new issuer) run k
    have hnew : (GrantStore.new issuer).holds k = false := by cases k <;> rfl
    have hgiven : grantLedger.given (afterCalls lib (.new issuer) run).2 k ≤ 1 := by
      rw [Ledger.given_eq_count]
      exact List.nodup_iff_count_le_one.mp (hdrawn.sublist (gives_sublist lib _ run)) k
    rw [hnew, Bool.toNat_false, Nat.add_zero] at haccounts
    exact (Nat.le_add_right _ _).trans (haccounts.trans hgiven)
  founded := grants_rest_on_requests lib issuer run
  revoked before subject clientId o later hrun hok hash hissued := by
    subst hrun
    rw [List.filterMap_append, List.nodup_append] at hdrawn
    obtain ⟨hbefore, -, hapart⟩ := hdrawn
    have hfresh := hbefore.sublist (gives_sublist lib (.new issuer) before)
    -- the token has no row when the revocation is done
    have hnone : (grantsRevoke (afterCalls lib (.new issuer) before).1 subject clientId o).1.refresh
        hash = none := by
      unfold grantsRevoke at hok ⊢
      split at hok
      · cases hok
      · next hnamed =>
        rw [if_neg hnamed]
        split at hok
        · next hdone =>
          rw [if_pos hdone]
          refine Option.eq_none_iff_forall_ne_some.mpr fun row hrow => ?_
          dsimp only at hrow
          obtain ⟨hold, hspared⟩ := deleteWhere_eq_some.mp hrow
          exact absurd ((rooted_afterCalls lib issuer before).row_issuedFor hfresh hissued hold)
            (of_decide_eq_false hspared)
        · cases hok
    -- and none is given again
    have hgiven : grantLedger.given (afterCalls lib (grantsRevoke (afterCalls lib (.new issuer)
        before).1 subject clientId o).1 later).2 (.refresh hash) = 0 := by
      rw [Ledger.given_eq_count]
      refine List.count_eq_zero_of_not_mem fun hmem => ?_
      have hlater : Credential.refresh hash ∈
          (GrantCall.grantsRevoke subject clientId o :: later).filterMap (drawn lib) :=
        (gives_sublist lib _ later).subset hmem
      obtain ⟨e, he, hgives⟩ := hissued.exists_gives
      exact hapart _ ((gives_sublist lib _ before).subset
        (List.mem_filterMap.mpr ⟨e, he, hgives⟩)) _ hlater rfl
    have haccounts := accounts_exec (serve lib) GrantStore.holds
      (fun s call => (served lib s call).accounts)
      (grantsRevoke (afterCalls lib (.new issuer) before).1 subject clientId o).1 later
      (.refresh hash)
    have hlost : (grantsRevoke (afterCalls lib (.new issuer) before).1 subject clientId o).1.holds
        (.refresh hash) = false := by
      rw [GrantStore.holds, hnone]
      rfl
    rw [hlost, Bool.toNat_false, Nat.add_zero] at haccounts
    exact Nat.eq_zero_of_le_zero ((Nat.le_add_right _ _).trans (haccounts.trans hgiven.le))
  answered before subject clientId later _ hsubject hclientId := by
    rw [grantsRevoke, if_neg (not_or.mpr ⟨hsubject, hclientId⟩), if_pos rfl]

/-- A request that is pushed, approved and exchanged, and a revocation before the refresh. -/
def chainedRun : List GrantCall :=
  let key := "0123456789012345678901234567890123456789012"
  let pruned : PruneOutcome := ⟨.done, .done, .done⟩
  [.createPar ⟨"app", "app:/", "atproto", none, key, key⟩ ⟨0, .ok "u", true, pruned, .done⟩,
    .authorize (requestUriPrefix ++ "u") "app" "did:web:a"
      ⟨0, .ok "c", pruned, .done, true, true, .done, .done, true⟩,
    .exchangeCode ⟨"c", "app", "app:/", key, key⟩ (outcomeOf .done),
    .grantsRevoke "did:web:a" "app" .done,
    .refresh ⟨"n", "app", key⟩ { outcomeOf .done with
      issue := ⟨100, 100, some "j", .ok "m", true, .done⟩ }]

theorem chainedRun_chained : GrantsChained grantLibrary "https://pds.test" chainedRun :=
  grants_chained grantLibrary "https://pds.test" chainedRun (by decide)

end MetalBear.OAuth.Grants
