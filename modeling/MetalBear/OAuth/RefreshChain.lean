import MetalBear.Library.Machine
import MetalBear.OAuth.Refresh

/-!
# Chains of refresh tokens

Runs of the calls on `refresh_token`. A row never forgets its successor, the row of a successor
outlives the grace of the token before it, and what makes a token unusable stays.
-/

namespace MetalBear.OAuth

open KeyTable

variable {lib : TokenLibrary} {store : AuthStore} {t t' : RefreshTable} {token : String}
  {env : RotateEnv} {result : Issued} {k : String} {now now' : Int}

/-! ## What a rotation does -/

/-- No presentation of the token is granted: it has no row, or the tests on the row fail, or the
successor is revoked or gone. -/
def Unusable (t : RefreshTable) (k : String) (now : Int) : Prop :=
  ∀ row, t k = some row → row.refused now = true ∨
    ∃ next, row.nextJti = some next ∧ ∀ succ, t next = some succ → succ.revoked = true

/-- The row of a token that is rotated. -/
def RefreshRow.rotated (row : RefreshRow) (env : RotateEnv) : RefreshRow :=
  { row with
    nextJti := some env.jti
    graceExpiresAt := some (min (env.check + refreshGraceSeconds) row.expiresAt) }

/-- The row of the successor. -/
def RefreshRow.successor (row : RefreshRow) (store : AuthStore) (env : RotateEnv) : RefreshRow :=
  ⟨store.accountDid, env.check + refreshLifetimeSeconds, none, none, false, row.accessScope,
    row.appPasswordName⟩

/-- All that a presentation can do: be refused, establish the successor or return it. -/
inductive Rotation (lib : TokenLibrary) (store : AuthStore) (t : RefreshTable) (token : String)
    (env : RotateEnv) : RefreshTable → Issued → Prop
  | unverified (e : WfError)
      (h : ∀ c, refreshClaims lib store token = some c → ¬ c.Timely env.verify false) :
      Rotation lib store t token env t (.error e)
  | refused (c : RefreshClaims) (hclaims : refreshClaims lib store token = some c)
      (h : Unusable (pruneExpiredRefreshes t env.prune) c.jti env.check) :
      Rotation lib store t token env (pruneExpiredRefreshes t env.prune) (.error .permission)
  | minted (c : RefreshClaims) (row : RefreshRow)
      (hclaims : refreshClaims lib store token = some c)
      (hrow : pruneExpiredRefreshes t env.prune c.jti = some row)
      (hnext : row.nextJti = none) (hgranted : row.refused env.check = false) :
      Rotation lib store t token env
        (Function.update (Function.update (pruneExpiredRefreshes t env.prune) c.jti
          (some (row.rotated env))) env.jti (some (row.successor store env)))
        (.ok (issuePair env.issue env.jti (env.check + refreshLifetimeSeconds) row.accessScope))
  | reused (c : RefreshClaims) (row succ : RefreshRow) (next : String)
      (hclaims : refreshClaims lib store token = some c)
      (hrow : pruneExpiredRefreshes t env.prune c.jti = some row)
      (hnext : row.nextJti = some next) (hgranted : row.refused env.check = false)
      (hsucc : pruneExpiredRefreshes t env.prune next = some succ)
      (hlive : succ.revoked = false) :
      Rotation lib store t token env (pruneExpiredRefreshes t env.prune)
        (.ok (issuePair env.issue next succ.expiresAt succ.accessScope))

theorem pruneExpiredRefreshes_eq_some {row : RefreshRow} :
    pruneExpiredRefreshes t now k = some row ↔ t k = some row ∧ row.pruned now = false :=
  deleteWhere_eq_some

theorem pruneExpiredRefreshes_of_none (h : t k = none) : pruneExpiredRefreshes t now k = none :=
  deleteWhere_eq_none_of_none h

theorem RefreshRow.not_refused {row : RefreshRow} (h : row.refused now = false) :
    row.revoked = false ∧ now < row.expiresAt ∧
      (row.nextJti.isSome = true → now < row.graceExpiresAt.getD 0) := by
  simpa [RefreshRow.refused, and_assoc] using h

/-- The transaction marks the row that was selected and adds the successor. -/
theorem mintSuccessor_eq {row : RefreshRow} (hrow : t k = some row) (hnext : row.nextJti = none)
    (hlive : row.revoked = false) (hne : k ≠ env.jti) (hfresh : t env.jti = none) :
    mintSuccessor store t k row env =
      .done (Function.update (Function.update t k (some (row.rotated env))) env.jti
          (some (row.successor store env)))
        (.ok (issuePair env.issue env.jti (env.check + refreshLifetimeSeconds)
          row.accessScope)) := by
  have hmatch : unrotated k k row = true := by simp [unrotated, hnext, hlive]
  have hmarked : (t.updateWhere (unrotated k) fun r =>
      { r with
        nextJti := some env.jti
        graceExpiresAt := some (min (env.check + refreshGraceSeconds) row.expiresAt) }) =
      Function.update t k (some (row.rotated env)) := by
    funext k'
    by_cases hk : k' = k
    · subst hk
      simp [updateWhere, hrow, hmatch, RefreshRow.rotated]
    · rw [Function.update_of_ne hk, updateWhere]
      cases t k' <;> simp [unrotated, hk]
  have hfree : Function.update t k (some (row.rotated env)) env.jti = none := by
    rw [Function.update_of_ne (Ne.symm hne), hfresh]
  rw [mintSuccessor, if_neg (by simp [hrow, hmatch]), hmarked]
  simp only [persistRefresh, insert_of_none hfree]
  rfl

/-- A presentation ends at its first attempt. -/
theorem rotateRefresh_rotation (more : List RotateEnv) (hdid : ∀ k row, t k = some row →
    row.did = store.accountDid) (hfresh : t env.jti = none) :
    ∃ t' result, rotateRefresh lib store t token (env :: more) = some (t', result) ∧
      Rotation lib store t token env t' result := by
  rw [rotateRefresh, rotateAttempt]
  cases hverify : verifyJwt lib store env.verify token .refresh false with
  | error e =>
    refine ⟨_, _, rfl, .unverified e fun c hclaims htimely => ?_⟩
    have hok := verifyJwt_refresh_eq_ok_iff.mpr ⟨c, hclaims, htimely, rfl⟩
    rw [hverify] at hok
    cases hok
  | ok verified =>
    obtain ⟨c, hclaims, -, rfl⟩ := verifyJwt_refresh_eq_ok_iff.mp hverify
    simp only [Option.getD_some]
    cases hrow : pruneExpiredRefreshes t env.prune c.jti with
    | none => exact ⟨_, _, rfl, .refused c hclaims fun row h => by simp [hrow] at h⟩
    | some row =>
      have hown : row.did = store.accountDid := hdid _ _ (pruneExpiredRefreshes_eq_some.mp hrow).1
      simp only [Option.filter_some, hown, decide_true, if_true]
      cases hrefused : row.refused env.check with
      | true =>
        refine ⟨_, _, rfl, .refused c hclaims fun r h => ?_⟩
        rw [hrow] at h
        cases h
        exact .inl hrefused
      | false =>
        cases hnext : row.nextJti with
        | none =>
          have hgone : pruneExpiredRefreshes t env.prune env.jti = none :=
            pruneExpiredRefreshes_of_none hfresh
          have hne : c.jti ≠ env.jti := by
            rintro heq
            rw [heq, hgone] at hrow
            cases hrow
          have hmint : mintSuccessor store _ c.jti row env = _ :=
            mintSuccessor_eq hrow hnext (RefreshRow.not_refused hrefused).1 hne hgone
          simp only [Bool.false_eq_true, if_false, hmint]
          exact ⟨_, _, rfl, .minted c row hclaims hrow hnext hrefused⟩
        | some next =>
          simp only [Bool.false_eq_true, if_false, reuseSuccessor]
          cases hsucc : pruneExpiredRefreshes t env.prune next with
          | none =>
            refine ⟨_, _, rfl, .refused c hclaims fun r h => .inr ⟨next, ?_, ?_⟩⟩
            · rw [hrow] at h
              cases h
              exact hnext
            · intro succ h
              rw [hsucc] at h
              cases h
          | some succ =>
            cases hlive : succ.revoked with
            | false =>
              simp only [Option.filter_some, hlive, Bool.not_false, if_true]
              exact ⟨_, _, rfl, .reused c row succ next hclaims hrow hnext hrefused hsucc hlive⟩
            | true =>
              simp only [Option.filter_some, hlive, Bool.not_true, Bool.false_eq_true, if_false]
              refine ⟨_, _, rfl, .refused c hclaims fun r h => .inr ⟨next, ?_, ?_⟩⟩
              · rw [hrow] at h
                cases h
                exact hnext
              · intro s h
                rw [hsucc] at h
                cases h
                exact hlive

/-! ## Runs -/

/-- The calls of a run, with what the environment makes of each. -/
inductive RefreshCall where
  | create (scope : AccessScope) (appPasswordName : Option String) (env : CreateEnv)
  | rotate (token : String) (env : RotateEnv) (more : List RotateEnv)
  | revoke (token : String) (now : Int)
  | revokeAppPassword (appPasswordName : String)
  | prune (now : Int)

/-- What a session was opened with. -/
structure Login where
  accessScope : AccessScope
  appPasswordName : Option String
  deriving DecidableEq, Repr

/-- A state of a run: the table, and what happened so far. -/
structure RefreshRun where
  table : RefreshTable
  /-- The last reading of the clock. -/
  clock : Int
  /-- The ids that were drawn. -/
  used : List String
  /-- The claims of the refresh tokens that were signed. -/
  issued : List RefreshClaims
  /-- The login that the chain of an id began with. -/
  origin : String → Option Login

/-- An empty table. -/
def RefreshRun.opened (clock : Int) : RefreshRun := ⟨KeyTable.empty, clock, [], [], fun _ => none⟩

/-- The result of a call that issues tokens. -/
def RefreshRun.answer (lib : TokenLibrary) (store : AuthStore) (s : RefreshRun) :
    RefreshCall → Option (RefreshTable × Issued)
  | .create scope appPasswordName env =>
    some (createScopedSession store s.table scope appPasswordName env)
  | .rotate token env more => rotateRefresh lib store s.table token (env :: more)
  | _ => none

/-- The tokens of an answer are issued, and the id of a new one belongs to this login. -/
def RefreshRun.record (s : RefreshRun) (clock : Int) (jti : String) (login : Option Login) :
    Option (RefreshTable × Issued) → RefreshRun
  | none => s
  | some (table, .error _) => { s with table, clock, used := jti :: s.used }
  | some (table, .ok tokens) =>
    { table, clock
      used := jti :: s.used
      issued := tokens.refresh :: s.issued
      origin := if tokens.refresh.jti = jti then Function.update s.origin jti login
        else s.origin }

/-- One call. -/
def RefreshRun.step (lib : TokenLibrary) (store : AuthStore) (s : RefreshRun)
    (call : RefreshCall) : RefreshRun :=
  match call with
  | .create scope appPasswordName env =>
    s.record env.issue env.jti (some ⟨scope, appPasswordName⟩) (s.answer lib store call)
  | .rotate token env _ =>
    s.record env.issue env.jti ((refreshClaims lib store token).bind fun c => s.origin c.jti)
      (s.answer lib store call)
  | .revoke token now =>
    { s with table := (revokeRefresh lib store s.table token now).1, clock := now }
  | .revokeAppPassword appPasswordName =>
    { s with table := (revokeAppPasswordSessions store s.table appPasswordName).1 }
  | .prune now => { s with table := pruneExpiredRefreshes s.table now, clock := now }

/-- A text that passes for a refresh token of the store was signed by it. -/
def RefreshRun.Genuine (lib : TokenLibrary) (store : AuthStore) (s : RefreshRun)
    (token : String) : Prop :=
  ∀ c, refreshClaims lib store token = some c → c ∈ s.issued

/-- The clock does not go back, an id that is drawn is new, and no token is forged. -/
def RefreshRun.Allows (lib : TokenLibrary) (store : AuthStore) (s : RefreshRun) :
    RefreshCall → Prop
  | .create _ _ env => s.clock ≤ env.now ∧ env.now ≤ env.issue ∧ env.jti ∉ s.used
  | .rotate token env _ => s.clock ≤ env.verify ∧ env.verify ≤ env.prune ∧
      env.prune ≤ env.check ∧ env.check ≤ env.issue ∧ env.jti ∉ s.used ∧ s.Genuine lib store token
  | .revoke token now => s.clock ≤ now ∧ s.Genuine lib store token
  | .revokeAppPassword _ => True
  | .prune now => s.clock ≤ now

/-- The runs from an empty table. -/
def RefreshRun.Reachable (lib : TokenLibrary) (store : AuthStore) (s : RefreshRun) : Prop :=
  ∃ clock run, Machine.Steps (RefreshRun.step lib store) (RefreshRun.Allows lib store)
    (.opened clock) run ∧ Machine.exec (RefreshRun.step lib store) (.opened clock) run = s

/-- A later state of the same run. -/
def RefreshRun.Later (lib : TokenLibrary) (store : AuthStore) (s s' : RefreshRun) : Prop :=
  ∃ run, Machine.Steps (RefreshRun.step lib store) (RefreshRun.Allows lib store) s run ∧
    Machine.exec (RefreshRun.step lib store) s run = s'

/-! ## What a call does -/

/-- What holds in every state of a run. The successor of a token whose grace is not over is there,
with an expiry and, once it is rotated itself, a grace that are no earlier. -/
structure RefreshRun.Sound (store : AuthStore) (s : RefreshRun) : Prop where
  did : ∀ k row, s.table k = some row → row.did = store.accountDid
  used : ∀ k row, s.table k = some row → k ∈ s.used
  scope : ∀ k row, s.table k = some row → row.accessScope ≠ .takendown
  origin : ∀ k row, s.table k = some row →
    s.origin k = some ⟨row.accessScope, row.appPasswordName⟩
  next_used : ∀ k row next, s.table k = some row → row.nextJti = some next →
    next ∈ s.used ∧ s.origin next = s.origin k
  grace : ∀ k row next, s.table k = some row → row.nextJti = some next →
    ∃ grace, row.graceExpiresAt = some grace ∧ grace ≤ row.expiresAt ∧
      grace ≤ s.clock + refreshGraceSeconds ∧
      (grace ≤ s.clock ∨ ∃ succ, s.table next = some succ ∧ grace ≤ succ.expiresAt ∧
        (succ.nextJti.isSome = true → ∀ g, succ.graceExpiresAt = some g → grace ≤ g))
  issued : ∀ c ∈ s.issued, c.jti ∈ s.used ∧ ∃ iat exp : Int, c = .signed c.jti iat exp ∧
    iat ≤ s.clock ∧ ∀ row, s.table c.jti = some row → row.expiresAt = exp

/-- What becomes of a row whose token establishes its successor. -/
structure Establishes (s s' : RefreshRun) (k : String) (row row' : RefreshRow) (now : Int)
    (next : String) : Prop where
  unrotated : row.nextJti = none
  granted : row.refused now = false
  clock_le : s.clock ≤ now
  le_clock : now ≤ s'.clock
  next_eq : row'.nextJti = some next
  grace_eq : row'.graceExpiresAt = some (min (now + refreshGraceSeconds) row.expiresAt)
  fresh : next ∉ s.used
  used : next ∈ s'.used
  origin : s'.origin next = s.origin k
  succ : ∃ succ, s'.table next = some succ ∧ succ.expiresAt = now + refreshLifetimeSeconds ∧
    succ.nextJti = none

/-- What a call can do to a row. -/
structure RowStep (s s' : RefreshRun) (k : String) (row row' : RefreshRow) : Prop where
  did : row'.did = row.did
  expiresAt : row'.expiresAt = row.expiresAt
  accessScope : row'.accessScope = row.accessScope
  appPasswordName : row'.appPasswordName = row.appPasswordName
  revoked : row.revoked = true → row'.revoked = true
  next : row'.nextJti = row.nextJti ∧ row'.graceExpiresAt = row.graceExpiresAt ∨
    ∃ now next, Establishes s s' k row row' now next

/-- What a call can do. -/
structure Evolves (store : AuthStore) (s s' : RefreshRun) : Prop where
  clock_le : s.clock ≤ s'.clock
  used : ∀ k ∈ s.used, k ∈ s'.used
  origin : ∀ k ∈ s.used, s'.origin k = s.origin k
  old : ∀ k ∈ s.used, ∀ row', s'.table k = some row' →
    ∃ row, s.table k = some row ∧ RowStep s s' k row row'
  kept : ∀ k row, s.table k = some row → row.pruned s'.clock = false → (s'.table k).isSome = true
  new : ∀ k row', k ∉ s.used → s'.table k = some row' → k ∈ s'.used ∧
    row'.did = store.accountDid ∧ row'.nextJti = none ∧ row'.accessScope ≠ .takendown ∧
    s'.origin k = some ⟨row'.accessScope, row'.appPasswordName⟩
  issued : ∀ c ∈ s'.issued, c ∈ s.issued ∨ c.jti ∈ s'.used ∧ ∃ iat exp : Int,
    c = .signed c.jti iat exp ∧ iat ≤ s'.clock ∧
      ∀ row, s'.table c.jti = some row → row.expiresAt = exp

variable {s s' : RefreshRun}

theorem RowStep.refl (s s' : RefreshRun) (k : String) (row : RefreshRow) :
    RowStep s s' k row row := ⟨rfl, rfl, rfl, rfl, id, .inl ⟨rfl, rfl⟩⟩

theorem grace_le_lifetime : refreshGraceSeconds ≤ refreshLifetimeSeconds := by decide

/-- Pruning later deletes more. -/
theorem RefreshRow.pruned_mono {row : RefreshRow} (hle : now ≤ now')
    (h : row.pruned now' = false) : row.pruned now = false := by
  simp only [RefreshRow.pruned, Bool.or_eq_false_iff, Bool.and_eq_false_iff,
    decide_eq_false_iff_not, not_le] at h ⊢
  refine ⟨by omega, h.2.imp id fun hgrace => ?_⟩
  cases hg : row.graceExpiresAt with
  | none => rfl
  | some grace =>
    simp only [hg, Option.any_some, decide_eq_false_iff_not, not_le] at hgrace ⊢
    omega

/-- Where a grace is not over, the row of the successor stays, and keeps what the grace needs. -/
theorem Evolves.grace_succ (h : Evolves store s s') (hs : s.Sound store) {next : String}
    {grace : Int} {succ : RefreshRow} (hsucc : s.table next = some succ)
    (hexp : grace ≤ succ.expiresAt) (hclock : grace ≤ s.clock + refreshGraceSeconds)
    (hgrace : succ.nextJti.isSome = true → ∀ g, succ.graceExpiresAt = some g → grace ≤ g) :
    grace ≤ s'.clock ∨ ∃ succ', s'.table next = some succ' ∧ grace ≤ succ'.expiresAt ∧
      (succ'.nextJti.isSome = true → ∀ g, succ'.graceExpiresAt = some g → grace ≤ g) := by
  cases hpruned : succ.pruned s'.clock with
  | true =>
    left
    simp only [RefreshRow.pruned, Bool.or_eq_true, Bool.and_eq_true, decide_eq_true_eq] at hpruned
    rcases hpruned with hexpired | ⟨hnext, hover⟩
    · exact hexp.trans hexpired
    · cases hg : succ.graceExpiresAt with
      | none => simp [hg] at hover
      | some g => exact (hgrace hnext g hg).trans (by simpa [hg] using hover)
  | false =>
    right
    obtain ⟨succ', hsucc'⟩ := Option.isSome_iff_exists.mp (h.kept next succ hsucc hpruned)
    obtain ⟨q, hq, hstep⟩ := h.old next (hs.used _ _ hsucc) succ' hsucc'
    rw [hsucc] at hq
    cases hq
    refine ⟨succ', hsucc', by rw [hstep.expiresAt]; exact hexp, fun hnext' g hg => ?_⟩
    rcases hstep.next with ⟨hn, hgr⟩ | ⟨now, n, hestablishes⟩
    · exact hgrace (by rw [← hn]; exact hnext') g (by rw [← hgr]; exact hg)
    · rw [hestablishes.grace_eq] at hg
      cases hg
      have hnow := hestablishes.clock_le
      exact le_min (by omega) hexp

theorem Evolves.sound (h : Evolves store s s') (hs : s.Sound store) : s'.Sound store where
  did k row' hrow' := by
    by_cases hk : k ∈ s.used
    · obtain ⟨row, hrow, hstep⟩ := h.old k hk row' hrow'
      rw [hstep.did, hs.did k row hrow]
    · exact (h.new k row' hk hrow').2.1
  used k row' hrow' := by
    by_cases hk : k ∈ s.used
    · exact h.used k hk
    · exact (h.new k row' hk hrow').1
  scope k row' hrow' := by
    by_cases hk : k ∈ s.used
    · obtain ⟨row, hrow, hstep⟩ := h.old k hk row' hrow'
      rw [hstep.accessScope]
      exact hs.scope k row hrow
    · exact (h.new k row' hk hrow').2.2.2.1
  origin k row' hrow' := by
    by_cases hk : k ∈ s.used
    · obtain ⟨row, hrow, hstep⟩ := h.old k hk row' hrow'
      rw [h.origin k hk, hs.origin k row hrow, hstep.accessScope, hstep.appPasswordName]
    · exact (h.new k row' hk hrow').2.2.2.2
  next_used k row' next hrow' hnext := by
    by_cases hk : k ∈ s.used
    · obtain ⟨row, hrow, hstep⟩ := h.old k hk row' hrow'
      rcases hstep.next with ⟨hn, -⟩ | ⟨now, n, hestablishes⟩
      · obtain ⟨hused, horigin⟩ := hs.next_used k row next hrow (by rw [← hn]; exact hnext)
        exact ⟨h.used next hused, by rw [h.origin next hused, horigin, h.origin k hk]⟩
      · obtain rfl : n = next := by
          rw [hestablishes.next_eq] at hnext
          exact Option.some.inj hnext
        exact ⟨hestablishes.used, by rw [hestablishes.origin, h.origin k hk]⟩
    · rw [(h.new k row' hk hrow').2.2.1] at hnext
      cases hnext
  grace k row' next hrow' hnext := by
    by_cases hk : k ∈ s.used
    · obtain ⟨row, hrow, hstep⟩ := h.old k hk row' hrow'
      have hclock := h.clock_le
      rcases hstep.next with ⟨hn, hgr⟩ | ⟨now, n, hestablishes⟩
      · rw [hn] at hnext
        obtain ⟨grace, hgrace, hexp, hle, hsucc⟩ := hs.grace k row next hrow hnext
        refine ⟨grace, by rw [hgr]; exact hgrace, by rw [hstep.expiresAt]; exact hexp, by omega, ?_⟩
        rcases hsucc with hover | ⟨succ, hsucc, hexp', hgrace'⟩
        · exact .inl (hover.trans hclock)
        · exact h.grace_succ hs hsucc hexp' hle hgrace'
      · obtain rfl : n = next := by
          rw [hestablishes.next_eq] at hnext
          exact Option.some.inj hnext
        obtain ⟨succ, hsucc, hexp, hnone⟩ := hestablishes.succ
        have hnow := hestablishes.le_clock
        refine ⟨_, hestablishes.grace_eq, ?_, ?_, .inr ⟨succ, hsucc, ?_, by simp [hnone]⟩⟩
        · rw [hstep.expiresAt]
          exact min_le_right _ _
        · exact (min_le_left _ _).trans (by omega)
        · rw [hexp]
          exact (min_le_left _ _).trans (Int.add_le_add_left grace_le_lifetime now)
    · rw [(h.new k row' hk hrow').2.2.1] at hnext
      cases hnext
  issued c hc := by
    rcases h.issued c hc with hold | hnew
    · obtain ⟨hused, iat, exp, hsigned, hiat, hexp⟩ := hs.issued c hold
      refine ⟨h.used _ hused, iat, exp, hsigned, hiat.trans h.clock_le, fun row' hrow' => ?_⟩
      obtain ⟨row, hrow, hstep⟩ := h.old c.jti hused row' hrow'
      rw [hstep.expiresAt, hexp row hrow]
    · exact hnew

/-! ## Every call evolves the run -/

variable {clock : Int} {jti : String} {login : Option Login}

/-- Pruning keeps what it does not delete as it is. -/
theorem rowStep_of_pruned {row' : RefreshRow} (s' : RefreshRun)
    (h : pruneExpiredRefreshes s.table now k = some row') :
    ∃ row, s.table k = some row ∧ RowStep s s' k row row' :=
  ⟨row', (pruneExpiredRefreshes_eq_some.mp h).1, RowStep.refl s s' k row'⟩

theorem isSome_pruned {row : RefreshRow} (hrow : t k = some row) (hle : now ≤ now')
    (h : row.pruned now' = false) : (pruneExpiredRefreshes t now k).isSome = true := by
  rw [pruneExpiredRefreshes_eq_some.mpr ⟨hrow, RefreshRow.pruned_mono hle h⟩]
  rfl

theorem evolves_record (hclock : s.clock ≤ clock) (hjti : jti ∉ s.used)
    (hold : ∀ k ∈ s.used, ∀ row', t' k = some row' → ∃ row, s.table k = some row ∧
      RowStep s (s.record clock jti login (some (t', result))) k row row')
    (hkept : ∀ k row, s.table k = some row → row.pruned clock = false → (t' k).isSome = true)
    (hnew : ∀ k row', k ∉ s.used → t' k = some row' → k = jti ∧
      row'.did = store.accountDid ∧ row'.nextJti = none ∧ row'.accessScope ≠ .takendown ∧
      login = some ⟨row'.accessScope, row'.appPasswordName⟩ ∧
      ∃ tokens, result = .ok tokens ∧ tokens.refresh.jti = jti)
    (hissued : ∀ tokens, result = .ok tokens → tokens.refresh.jti ∈ jti :: s.used ∧
      ∃ iat exp : Int, tokens.refresh = .signed tokens.refresh.jti iat exp ∧ iat ≤ clock ∧
        ∀ row, t' tokens.refresh.jti = some row → row.expiresAt = exp) :
    Evolves store s (s.record clock jti login (some (t', result))) := by
  have hne {k : String} (hk : k ∈ s.used) : k ≠ jti := fun heq => hjti (by rwa [← heq])
  cases result with
  | error e =>
    exact
      { clock_le := hclock
        used := fun k hk => List.mem_cons_of_mem _ hk
        origin := fun _ _ => rfl
        old := hold
        kept := hkept
        new := fun k row' hk hrow' => by
          obtain ⟨-, -, -, -, -, tokens, hok, -⟩ := hnew k row' hk hrow'
          cases hok
        issued := fun c hc => .inl hc }
  | ok tokens =>
    exact
      { clock_le := hclock
        used := fun k hk => List.mem_cons_of_mem _ hk
        origin := fun k hk => by
          simp only [RefreshRun.record]
          split
          · exact Function.update_of_ne (hne hk) _ _
          · rfl
        old := hold
        kept := hkept
        new := fun k row' hk hrow' => by
          obtain ⟨rfl, hdid, hnext, hscope, hlogin, tok, hok, htok⟩ := hnew k row' hk hrow'
          cases hok
          refine ⟨List.mem_cons_self, hdid, hnext, hscope, ?_⟩
          simp only [RefreshRun.record, if_pos htok, Function.update_self]
          exact hlogin
        issued := fun c hc => by
          rcases List.mem_cons.mp hc with rfl | hc
          · exact .inr (hissued tokens rfl)
          · exact .inl hc }

theorem create_evolves (hs : s.Sound store) {scope : AccessScope} {name : Option String}
    {env : CreateEnv} (ha : s.Allows lib store (.create scope name env)) :
    Evolves store s (s.step lib store (.create scope name env)) := by
  obtain ⟨hnow, hissue, hfresh⟩ := ha
  have hgone : pruneExpiredRefreshes s.table env.now env.jti = none := by
    apply pruneExpiredRefreshes_of_none
    cases hrow : s.table env.jti with
    | none => rfl
    | some row => exact absurd (hs.used _ _ hrow) hfresh
  have hnone {k : String} {row : RefreshRow} (hk : k ∉ s.used) (hrow : s.table k = some row) :
      False := hk (hs.used k row hrow)
  simp only [RefreshRun.step, RefreshRun.answer, createScopedSession]
  split
  · apply evolves_record (hnow.trans hissue) hfresh
    · intro k _ row hrow
      exact ⟨row, hrow, RowStep.refl _ _ _ _⟩
    · intro k row hrow _
      simp [hrow]
    · intro k row hk hrow
      exact (hnone hk hrow).elim
    · nofun
  · split
    · apply evolves_record (hnow.trans hissue) hfresh
      · intro k _ row hrow
        exact rowStep_of_pruned _ hrow
      · intro k row hrow hpruned
        exact isSome_pruned hrow hissue hpruned
      · intro k row hk hrow
        exact (hnone hk (pruneExpiredRefreshes_eq_some.mp hrow).1).elim
      · intro tokens htokens
        cases htokens
        refine ⟨List.mem_cons_self, env.issue, _, rfl, le_rfl, fun row hrow => ?_⟩
        exact (hnone hfresh (pruneExpiredRefreshes_eq_some.mp hrow).1).elim
    · next hscope =>
      simp only [persistRefresh, insert_of_none hgone]
      apply evolves_record (hnow.trans hissue) hfresh
      · intro k hk row hrow
        rcases update_eq_some.mp hrow with ⟨rfl, -⟩ | ⟨-, hrow⟩
        · exact absurd hk hfresh
        · exact rowStep_of_pruned _ hrow
      · intro k row hrow hpruned
        have hne : k ≠ env.jti := fun heq => hfresh (heq ▸ hs.used _ _ hrow)
        rw [Function.update_of_ne hne]
        exact isSome_pruned hrow hissue hpruned
      · intro k row hk hrow
        rcases update_eq_some.mp hrow with ⟨rfl, rfl⟩ | ⟨-, hrow⟩
        · exact ⟨rfl, rfl, rfl, hscope, rfl, _, rfl, rfl⟩
        · exact (hnone hk (pruneExpiredRefreshes_eq_some.mp hrow).1).elim
      · intro tokens htokens
        cases htokens
        refine ⟨List.mem_cons_self, env.issue, _, rfl, le_rfl, fun row hrow => ?_⟩
        rcases update_eq_some.mp hrow with ⟨-, rfl⟩ | ⟨hne, -⟩
        · rfl
        · exact absurd rfl hne

/-- The rotation of a run, and the state after it. -/
theorem rotate_step (hs : s.Sound store) {more : List RotateEnv}
    (ha : s.Allows lib store (.rotate token env more)) :
    ∃ t' result, s.answer lib store (.rotate token env more) = some (t', result) ∧
      Rotation lib store s.table token env t' result ∧
      s.step lib store (.rotate token env more) = s.record env.issue env.jti
        ((refreshClaims lib store token).bind fun c => s.origin c.jti) (some (t', result)) := by
  have hfresh : s.table env.jti = none := by
    cases hrow : s.table env.jti with
    | none => rfl
    | some row => exact absurd (hs.used _ _ hrow) ha.2.2.2.2.1
  obtain ⟨t', result, heq, hrotation⟩ := rotateRefresh_rotation more hs.did hfresh
  refine ⟨t', result, heq, hrotation, ?_⟩
  rw [RefreshRun.step, RefreshRun.answer, heq]

theorem rotate_evolves (hs : s.Sound store) {more : List RotateEnv}
    (ha : s.Allows lib store (.rotate token env more)) :
    Evolves store s (s.step lib store (.rotate token env more)) := by
  obtain ⟨t', result, -, hrotation, hstep⟩ := rotate_step hs ha
  obtain ⟨hverify, hprune, hcheck, hissue, hfresh, -⟩ := ha
  have hclock : s.clock ≤ env.issue := by omega
  have hnone {k : String} {row : RefreshRow} (hk : k ∉ s.used)
      (hrow : pruneExpiredRefreshes s.table env.prune k = some row) : False :=
    hk (hs.used k row (pruneExpiredRefreshes_eq_some.mp hrow).1)
  have hkept (k : String) (row : RefreshRow) (hrow : s.table k = some row)
      (hpruned : row.pruned env.issue = false) :
      (pruneExpiredRefreshes s.table env.prune k).isSome = true :=
    isSome_pruned hrow (hcheck.trans hissue) hpruned
  rw [hstep]
  cases hrotation with
  | unverified e h =>
    apply evolves_record hclock hfresh
    · intro k _ row hrow
      exact ⟨row, hrow, RowStep.refl _ _ _ _⟩
    · intro k row hrow _
      simp [hrow]
    · intro k row hk hrow
      exact absurd (hs.used k row hrow) hk
    · nofun
  | refused c hclaims h =>
    apply evolves_record hclock hfresh
    · intro k _ row hrow
      exact rowStep_of_pruned _ hrow
    · exact hkept
    · intro k row hk hrow
      exact (hnone hk hrow).elim
    · nofun
  | minted c row hclaims hrow hnext hgranted =>
    apply evolves_record hclock hfresh
    · intro k hk row' hrow'
      rcases update_eq_some.mp hrow' with ⟨rfl, -⟩ | ⟨hne, hrow'⟩
      · exact absurd hk hfresh
      rcases update_eq_some.mp hrow' with ⟨rfl, rfl⟩ | ⟨-, hrow'⟩
      · refine ⟨row, (pruneExpiredRefreshes_eq_some.mp hrow).1, rfl, rfl, rfl, rfl, id, .inr
          ⟨env.check, env.jti, hnext, hgranted, by omega, hissue, rfl, rfl, hfresh,
            List.mem_cons_self, ?_, row.successor store env, ?_, rfl, rfl⟩⟩
        · simp [RefreshRun.record, issuePair, RefreshClaims.signed, hclaims]
        · simp [RefreshRun.record]
      · exact rowStep_of_pruned _ hrow'
    · intro k q hq hpruned
      by_cases hk : k = env.jti
      · simp [hk]
      · rw [Function.update_of_ne hk]
        by_cases hk' : k = c.jti
        · simp [hk']
        · rw [Function.update_of_ne hk']
          exact hkept k q hq hpruned
    · intro k row' hk hrow'
      rcases update_eq_some.mp hrow' with ⟨rfl, rfl⟩ | ⟨-, hrow'⟩
      · have hold := (pruneExpiredRefreshes_eq_some.mp hrow).1
        refine ⟨rfl, rfl, rfl, hs.scope c.jti row hold, ?_, _, rfl, rfl⟩
        rw [hclaims, Option.bind_some, hs.origin _ _ hold]
        rfl
      rcases update_eq_some.mp hrow' with ⟨rfl, -⟩ | ⟨-, hrow'⟩
      · exact (hnone hk hrow).elim
      · exact (hnone hk hrow').elim
    · intro tokens htokens
      cases htokens
      refine ⟨List.mem_cons_self, env.issue, _, rfl, le_rfl, fun row' hrow' => ?_⟩
      rcases update_eq_some.mp hrow' with ⟨-, rfl⟩ | ⟨hne, -⟩
      · rfl
      · exact absurd rfl hne
  | reused c row succ next hclaims hrow hnext hgranted hsucc hlive =>
    apply evolves_record hclock hfresh
    · intro k _ row hrow
      exact rowStep_of_pruned _ hrow
    · exact hkept
    · intro k row hk hrow
      exact (hnone hk hrow).elim
    · intro tokens htokens
      cases htokens
      have hused := (hs.next_used _ _ _ (pruneExpiredRefreshes_eq_some.mp hrow).1 hnext).1
      refine ⟨List.mem_cons_of_mem _ hused, env.issue, _, rfl, le_rfl, fun row' hrow' => ?_⟩
      have heq : some succ = some row' := hsucc.symm.trans hrow'
      cases heq
      rfl

/-- The clock may go on by itself. -/
theorem evolves_of_same (hs : s.Sound store) (hclock : s.clock ≤ clock) :
    Evolves store s { s with clock := clock } where
  clock_le := hclock
  used _ hk := hk
  origin _ _ := rfl
  old k _ row hrow := ⟨row, hrow, RowStep.refl _ _ _ _⟩
  kept k row hrow _ := by simp [hrow]
  new k row hk hrow := absurd (hs.used k row hrow) hk
  issued _ hc := .inl hc

/-- Revoking marks rows and does nothing else. -/
theorem evolves_of_revoked (hs : s.Sound store) {p : String → RefreshRow → Bool}
    (hclock : s.clock ≤ clock) : Evolves store s
      { s with
        table := s.table.updateWhere p fun row => { row with revoked := true }
        clock := clock } where
  clock_le := hclock
  used _ hk := hk
  origin _ _ := rfl
  old k _ row' hrow' := by
    obtain ⟨row, hrow, rfl⟩ := updateWhere_eq_some.mp hrow'
    refine ⟨row, hrow, ?_⟩
    split
    · exact ⟨rfl, rfl, rfl, rfl, fun _ => rfl, .inl ⟨rfl, rfl⟩⟩
    · exact RowStep.refl _ _ _ _
  kept k row hrow _ := by simp [updateWhere, hrow]
  new k row' hk hrow' := by
    obtain ⟨row, hrow, -⟩ := updateWhere_eq_some.mp hrow'
    exact absurd (hs.used k row hrow) hk
  issued _ hc := .inl hc

/-- Every call of a run evolves it. -/
theorem step_evolves (hs : s.Sound store) {call : RefreshCall} (ha : s.Allows lib store call) :
    Evolves store s (s.step lib store call) := by
  cases call with
  | create scope name env => exact create_evolves hs ha
  | rotate token env more => exact rotate_evolves hs ha
  | revoke token now =>
    rw [RefreshRun.step, revokeRefresh]
    split
    · exact evolves_of_same hs ha.1
    · exact evolves_of_revoked hs ha.1
  | revokeAppPassword name =>
    rw [RefreshRun.step, revokeAppPasswordSessions]
    split
    · exact evolves_of_same hs le_rfl
    · exact evolves_of_revoked hs le_rfl
  | prune now =>
    exact
      { clock_le := ha
        used := fun _ hk => hk
        origin := fun _ _ => rfl
        old := fun k _ row hrow => rowStep_of_pruned _ hrow
        kept := fun k row hrow hpruned => isSome_pruned hrow le_rfl hpruned
        new := fun k row hk hrow =>
          absurd (hs.used k row (pruneExpiredRefreshes_eq_some.mp hrow).1) hk
        issued := fun _ hc => .inl hc }

theorem sound_opened (clock : Int) : (RefreshRun.opened clock).Sound store where
  did _ _ h := by cases h
  used _ _ h := by cases h
  scope _ _ h := by cases h
  origin _ _ h := by cases h
  next_used _ _ _ h := by cases h
  grace _ _ _ h := by cases h
  issued _ h := by cases h

theorem RefreshRun.Reachable.step (h : s.Reachable lib store) {call : RefreshCall}
    (ha : s.Allows lib store call) : (s.step lib store call).Reachable lib store := by
  obtain ⟨clock, run, hsteps, rfl⟩ := h
  exact ⟨clock, run ++ [call], Machine.steps_append.mpr ⟨hsteps, ha, trivial⟩,
    Machine.exec_append [call]⟩

theorem RefreshRun.Reachable.sound (h : s.Reachable lib store) : s.Sound store := by
  obtain ⟨clock, run, hsteps, rfl⟩ := h
  exact Machine.exec_of_steps (sound_opened clock)
    (fun s call hs ha => (step_evolves hs ha).sound hs) hsteps

/-- What holds with soundness and survives every call holds later in the run. -/
theorem RefreshRun.Later.invariant {P : RefreshRun → Prop} (h : s.Later lib store s')
    (hs : s.Sound store) (h0 : P s)
    (hstep : ∀ s s', s.Sound store → Evolves store s s' → P s → P s') : P s' := by
  obtain ⟨run, hsteps, rfl⟩ := h
  refine (Machine.exec_of_steps (P := fun s => s.Sound store ∧ P s) ⟨hs, h0⟩
    (fun s call hs ha => ?_) hsteps).2
  have hevolves := step_evolves hs.1 ha
  exact ⟨hevolves.sound hs.1, hstep s _ hs.1 hevolves hs.2⟩

theorem RefreshRun.Later.sound (h : s.Later lib store s') (hs : s.Sound store) :
    s'.Sound store :=
  h.invariant hs hs fun _ _ hs hevolves _ => hevolves.sound hs

/-! ## What stays -/

/-- The token is unusable, at this moment and later. -/
def RefreshRun.Dead (s : RefreshRun) (k : String) : Prop :=
  k ∈ s.used ∧ Unusable s.table k s.clock

/-- A row of the token names this successor. -/
def RefreshRun.Follows (s : RefreshRun) (k next : String) : Prop :=
  k ∈ s.used ∧ ∀ row, s.table k = some row → row.nextJti = some next

/-- The successor is on offer until the grace is over. -/
def RefreshRun.Offers (s : RefreshRun) (k next : String) (grace : Int) : Prop :=
  grace ≤ s.clock ∨ ∃ row, s.table k = some row ∧ row.nextJti = some next ∧
    row.graceExpiresAt = some grace

theorem RefreshRow.refused_mono {row : RefreshRow} (hle : now ≤ now')
    (h : row.refused now = true) : row.refused now' = true := by
  simp only [RefreshRow.refused, Bool.or_eq_true, Bool.and_eq_true, decide_eq_true_eq] at h ⊢
  rcases h with (hrevoked | hexpired) | ⟨hnext, hover⟩
  · exact .inl (.inl hrevoked)
  · exact .inl (.inr (hexpired.trans hle))
  · exact .inr ⟨hnext, hover.trans hle⟩

theorem Evolves.dead (h : Evolves store s s') (hs : s.Sound store) (hdead : s.Dead k) :
    s'.Dead k := by
  refine ⟨h.used k hdead.1, fun row' hrow' => ?_⟩
  obtain ⟨row, hrow, hstep⟩ := h.old k hdead.1 row' hrow'
  rcases hstep.next with ⟨hnext, hgrace⟩ | ⟨now, next, hestablishes⟩
  · rcases hdead.2 row hrow with hrefused | ⟨next, hn, hsucc⟩
    · have hlater := RefreshRow.refused_mono h.clock_le hrefused
      left
      simp only [RefreshRow.refused, Bool.or_eq_true, hnext, hgrace, hstep.expiresAt] at hlater ⊢
      exact hlater.imp (Or.imp hstep.revoked id) id
    · refine .inr ⟨next, hnext.trans hn, fun succ' hsucc' => ?_⟩
      obtain ⟨succ, hold, hsuccStep⟩ := h.old next (hs.next_used k row next hrow hn).1 succ' hsucc'
      exact hsuccStep.revoked (hsucc succ hold)
  · -- A token that establishes its successor was not dead.
    rcases hdead.2 row hrow with hrefused | ⟨n, hn, -⟩
    · have hlater := RefreshRow.refused_mono hestablishes.clock_le hrefused
      rw [hestablishes.granted] at hlater
      cases hlater
    · rw [hestablishes.unrotated] at hn
      cases hn

theorem Evolves.follows {next : String} (h : Evolves store s s') (hfollows : s.Follows k next) :
    s'.Follows k next := by
  refine ⟨h.used k hfollows.1, fun row' hrow' => ?_⟩
  obtain ⟨row, hrow, hstep⟩ := h.old k hfollows.1 row' hrow'
  have hn := hfollows.2 row hrow
  rcases hstep.next with ⟨hnext, -⟩ | ⟨now, n, hestablishes⟩
  · rw [hnext, hn]
  · rw [hestablishes.unrotated] at hn
    cases hn

theorem Evolves.offers {next : String} {grace : Int} (h : Evolves store s s')
    (hs : s.Sound store) (hoffers : s.Offers k next grace) : s'.Offers k next grace := by
  rcases hoffers with hover | ⟨row, hrow, hnext, hgrace⟩
  · exact .inl (hover.trans h.clock_le)
  cases hpruned : row.pruned s'.clock with
  | true =>
    left
    obtain ⟨g, hg, hexp, -, -⟩ := hs.grace k row next hrow hnext
    rw [hgrace] at hg
    cases hg
    simp only [RefreshRow.pruned, hnext, hgrace, Option.isSome_some, Option.any_some, Bool.true_and,
      Bool.or_eq_true, decide_eq_true_eq] at hpruned
    omega
  | false =>
    right
    obtain ⟨row', hrow'⟩ := Option.isSome_iff_exists.mp (h.kept k row hrow hpruned)
    obtain ⟨q, hq, hstep⟩ := h.old k (hs.used k row hrow) row' hrow'
    rw [hrow] at hq
    cases hq
    rcases hstep.next with ⟨hn, hg⟩ | ⟨now, n, hestablishes⟩
    · exact ⟨row', hrow', hn.trans hnext, hg.trans hgrace⟩
    · rw [hestablishes.unrotated] at hnext
      cases hnext

/-! ## Presentations -/

/-- A presentation of a token in a run, its result and the state after it. -/
structure Presentation (lib : TokenLibrary) (store : AuthStore) (s : RefreshRun) (token : String)
    (env : RotateEnv) (result : Issued) (s' : RefreshRun) : Prop where
  reachable : s.Reachable lib store
  exists_call : ∃ more t', s.Allows lib store (.rotate token env more) ∧
    s.answer lib store (.rotate token env more) = some (t', result) ∧
    s.step lib store (.rotate token env more) = s'

/-- What the environment promises of a presentation. -/
structure PresentedNow (lib : TokenLibrary) (store : AuthStore) (s : RefreshRun) (token : String)
    (env : RotateEnv) : Prop where
  verify : s.clock ≤ env.verify
  prune : env.verify ≤ env.prune
  check : env.prune ≤ env.check
  issue : env.check ≤ env.issue
  fresh : env.jti ∉ s.used
  genuine : s.Genuine lib store token

theorem Presentation.sound (h : Presentation lib store s token env result s') : s.Sound store :=
  h.reachable.sound

theorem Presentation.presented (h : Presentation lib store s token env result s') :
    PresentedNow lib store s token env := by
  obtain ⟨more, t', ⟨hverify, hprune, hcheck, hissue, hfresh, hgenuine⟩, -, -⟩ := h.exists_call
  exact ⟨hverify, hprune, hcheck, hissue, hfresh, hgenuine⟩

theorem Presentation.rotation (h : Presentation lib store s token env result s') :
    ∃ t', Rotation lib store s.table token env t' result ∧ s' = s.record env.issue env.jti
      ((refreshClaims lib store token).bind fun c => s.origin c.jti) (some (t', result)) := by
  obtain ⟨more, t', hallows, hanswer, rfl⟩ := h.exists_call
  obtain ⟨t₀, result₀, hanswer₀, hrotation, hstep⟩ := rotate_step h.sound hallows
  rw [hanswer] at hanswer₀
  cases hanswer₀
  exact ⟨t', hrotation, hstep⟩

theorem Presentation.evolves (h : Presentation lib store s token env result s') :
    Evolves store s s' := by
  obtain ⟨more, t', hallows, -, rfl⟩ := h.exists_call
  exact step_evolves h.sound hallows

theorem Presentation.sound_after (h : Presentation lib store s token env result s') :
    s'.Sound store := h.evolves.sound h.sound

variable {c : RefreshClaims} {tokens : SessionTokens} {e : WfError}

/-- A dead token is rejected. -/
theorem Presentation.rejected_of_dead (h : Presentation lib store s token env result s')
    (hclaims : refreshClaims lib store token = some c) (hdead : s.Dead c.jti) :
    ∃ e, result = .error e := by
  obtain ⟨t', hrotation, -⟩ := h.rotation
  have hnow := h.presented
  have hclock : s.clock ≤ env.check := by
    have := hnow.verify
    have := hnow.prune
    have := hnow.check
    omega
  cases hrotation with
  | unverified e _ => exact ⟨e, rfl⟩
  | refused _ _ _ => exact ⟨_, rfl⟩
  | minted c' row hclaims' hrow hnext hgranted =>
    rw [hclaims] at hclaims'
    cases hclaims'
    rcases hdead.2 row (pruneExpiredRefreshes_eq_some.mp hrow).1 with hrefused | ⟨n, hn, -⟩
    · rw [RefreshRow.refused_mono hclock hrefused] at hgranted
      cases hgranted
    · rw [hnext] at hn
      cases hn
  | reused c' row succ next hclaims' hrow hnext hgranted hsucc hlive =>
    rw [hclaims] at hclaims'
    cases hclaims'
    rcases hdead.2 row (pruneExpiredRefreshes_eq_some.mp hrow).1 with hrefused | ⟨n, hn, hrevoked⟩
    · rw [RefreshRow.refused_mono hclock hrefused] at hgranted
      cases hgranted
    · rw [hnext] at hn
      cases hn
      rw [hrevoked succ (pruneExpiredRefreshes_eq_some.mp hsucc).1] at hlive
      cases hlive

theorem Double.finite_le_finite {a b : ℚ} : Double.finite a ≤ Double.finite b ↔ a ≤ b := by
  simp [Double.finite]

theorem Double.finite_lt_finite {a b : ℚ} : Double.finite a < Double.finite b ↔ a < b := by
  simp [Double.finite]

theorem RefreshClaims.timely_signed {jti : String} {iat exp : Int} {allowExpired : Bool} :
    (RefreshClaims.signed jti iat exp).Timely now allowExpired ↔
      iat ≤ now + 60 ∧ (allowExpired = true ∨ now < exp) := by
  rw [RefreshClaims.Timely, RefreshClaims.signed]
  simp only [Double.finite_le_finite, Double.finite_lt_finite]
  norm_cast

/-- A token that was rejected is dead. -/
theorem Presentation.dead_of_rejected (h : Presentation lib store s token env (.error e) s')
    (hclaims : refreshClaims lib store token = some c) : s'.Dead c.jti := by
  obtain ⟨t', hrotation, rfl⟩ := h.rotation
  have hnow := h.presented
  obtain ⟨hused, iat, exp, hsigned, hiat, hexp⟩ := h.sound.issued c (hnow.genuine c hclaims)
  refine ⟨List.mem_cons_of_mem _ hused, ?_⟩
  cases hrotation with
  | unverified e hlate =>
    intro row hrow
    have hnot := hlate c hclaims
    rw [hsigned, RefreshClaims.timely_signed] at hnot
    have hexpired : row.expiresAt ≤ env.issue := by
      rw [hexp row hrow]
      have := hnow.verify
      have := hnow.prune
      have := hnow.check
      have := hnow.issue
      by_contra hlt
      exact hnot ⟨by omega, .inr (by omega)⟩
    left
    simp only [RefreshRow.refused, Bool.or_eq_true, decide_eq_true_eq]
    exact .inl (.inr hexpired)
  | refused c' hclaims' hunusable =>
    rw [hclaims] at hclaims'
    cases hclaims'
    intro row hrow
    exact (hunusable row hrow).imp (RefreshRow.refused_mono hnow.issue) id

/-- A granted presentation leaves the row of the token, which names the successor. -/
theorem Presentation.granted (h : Presentation lib store s token env (.ok tokens) s')
    (hclaims : refreshClaims lib store token = some c) :
    ∃ row grace, s'.table c.jti = some row ∧ row.nextJti = some tokens.refresh.jti ∧
      row.graceExpiresAt = some grace ∧
      ∀ row₀, s.table c.jti = some row₀ → row₀.nextJti = none →
        grace = min (env.check + refreshGraceSeconds) row₀.expiresAt := by
  obtain ⟨t', hrotation, rfl⟩ := h.rotation
  have hnow := h.presented
  cases hrotation with
  | minted c' row hclaims' hrow hnext hgranted =>
    rw [hclaims] at hclaims'
    cases hclaims'
    have hold := (pruneExpiredRefreshes_eq_some.mp hrow).1
    have hne : c.jti ≠ env.jti := fun heq => hnow.fresh (heq ▸ h.sound.used _ _ hold)
    refine ⟨row.rotated env, _, ?_, rfl, rfl, fun row₀ hrow₀ _ => ?_⟩
    · simp [RefreshRun.record, hne]
    · rw [hold] at hrow₀
      cases hrow₀
      rfl
  | reused c' row succ next hclaims' hrow hnext hgranted hsucc hlive =>
    rw [hclaims] at hclaims'
    cases hclaims'
    have hold := (pruneExpiredRefreshes_eq_some.mp hrow).1
    obtain ⟨grace, hgrace, -⟩ := h.sound.grace _ _ _ hold hnext
    refine ⟨row, grace, hrow, hnext, hgrace, fun row₀ hrow₀ hnone => ?_⟩
    rw [hold] at hrow₀
    cases hrow₀
    rw [hnone] at hnext
    cases hnext

/-- A token that has a successor is granted no other. -/
theorem Presentation.follows {next : String}
    (h : Presentation lib store s token env (.ok tokens) s')
    (hclaims : refreshClaims lib store token = some c) (hfollows : s.Follows c.jti next) :
    tokens.refresh.jti = next := by
  obtain ⟨row, -, hrow, hnext, -, -⟩ := h.granted hclaims
  have hlater := (h.evolves.follows hfollows).2 row hrow
  rw [hnext] at hlater
  exact Option.some.inj hlater

/-- Within the grace, and not revoked, the successor is returned and no row is added. -/
theorem Presentation.offered {next : String} {grace : Int}
    (h : Presentation lib store s token env result s')
    (hclaims : refreshClaims lib store token = some c) (hoffers : s.Offers c.jti next grace)
    (hgrace : env.check < grace)
    (hlive : ∀ row, s.table c.jti = some row → row.revoked = false)
    (hsuccLive : ∀ row, s.table next = some row → row.revoked = false) :
    ∃ tokens, result = .ok tokens ∧ tokens.refresh.jti = next ∧
      ∀ k, (s'.table k).isSome = true → (s.table k).isSome = true := by
  obtain ⟨hverify, hprune, hcheck, -, -, hgenuine⟩ := h.presented
  obtain ⟨t', hrotation, rfl⟩ := h.rotation
  rcases hoffers with hover | ⟨row, hrow, hnext, hrowGrace⟩
  · omega
  obtain ⟨g, hg, hexp, -, hsucc⟩ := h.sound.grace _ _ _ hrow hnext
  obtain rfl : grace = g := Option.some.inj (hrowGrace.symm.trans hg)
  obtain ⟨succ, hsuccRow, hsuccExp, hsuccGrace⟩ := hsucc.resolve_left (by omega)
  have hkept : pruneExpiredRefreshes s.table env.prune c.jti = some row := by
    refine pruneExpiredRefreshes_eq_some.mpr ⟨hrow, ?_⟩
    simp only [RefreshRow.pruned, hrowGrace, Option.any_some, Bool.or_eq_false_iff,
      Bool.and_eq_false_iff, decide_eq_false_iff_not]
    exact ⟨by omega, .inr (by omega)⟩
  have hsuccKept : pruneExpiredRefreshes s.table env.prune next = some succ := by
    refine pruneExpiredRefreshes_eq_some.mpr ⟨hsuccRow, ?_⟩
    rw [RefreshRow.pruned, Bool.or_eq_false_iff, Bool.and_eq_false_iff, decide_eq_false_iff_not]
    refine ⟨by omega, ?_⟩
    cases hrotated : succ.nextJti.isSome with
    | false => exact .inl rfl
    | true =>
      right
      cases hsg : succ.graceExpiresAt with
      | none => rfl
      | some g =>
        have := hsuccGrace hrotated g hsg
        simp only [Option.any_some, decide_eq_false_iff_not]
        omega
  have hgranted : row.refused env.check = false := by
    simp only [RefreshRow.refused, hlive row hrow, hrowGrace, Option.getD_some, Bool.false_or,
      Bool.or_eq_false_iff, Bool.and_eq_false_iff, decide_eq_false_iff_not]
    exact ⟨by omega, .inr (by omega)⟩
  cases hrotation with
  | unverified e hlate =>
    obtain ⟨-, iat, exp, hsigned, hiat, hexpires⟩ := h.sound.issued c (hgenuine c hclaims)
    have hnot := hlate c hclaims
    rw [hsigned, RefreshClaims.timely_signed, ← hexpires row hrow] at hnot
    exact absurd ⟨by omega, .inr (by omega)⟩ hnot
  | refused c' hclaims' hunusable =>
    rw [hclaims] at hclaims'
    cases hclaims'
    rcases hunusable row hkept with hrefused | ⟨n, hn, hrevoked⟩
    · rw [hgranted] at hrefused
      cases hrefused
    · obtain rfl : next = n := Option.some.inj (hnext.symm.trans hn)
      have hfalse := hsuccLive succ hsuccRow
      rw [hrevoked succ hsuccKept] at hfalse
      cases hfalse
  | minted c' q hclaims' hq hnone _ =>
    rw [hclaims] at hclaims'
    cases hclaims'
    rw [hkept] at hq
    cases hq
    rw [hnone] at hnext
    cases hnext
  | reused c' q succ' n hclaims' hq hn _ _ _ =>
    rw [hclaims] at hclaims'
    cases hclaims'
    rw [hkept] at hq
    cases hq
    obtain rfl : next = n := Option.some.inj (hnext.symm.trans hn)
    refine ⟨_, rfl, rfl, fun k hk => ?_⟩
    obtain ⟨r, hr⟩ := Option.isSome_iff_exists.mp hk
    rw [(pruneExpiredRefreshes_eq_some.mp hr).1]
    rfl

/-- A granted presentation hands the login of the token on to the successor. -/
theorem Presentation.handed_on (h : Presentation lib store s token env (.ok tokens) s')
    (hclaims : refreshClaims lib store token = some c) :
    ∃ login, s.origin c.jti = some login ∧ login.accessScope ≠ .takendown ∧
      tokens.accessScope = login.accessScope ∧
      s'.origin tokens.refresh.jti = some login ∧
      ∃ row, s'.table tokens.refresh.jti = some row ∧ row.accessScope = login.accessScope ∧
        row.appPasswordName = login.appPasswordName := by
  obtain ⟨t', hrotation, rfl⟩ := h.rotation
  have hsound := h.sound
  have hfresh := h.presented.fresh
  cases hrotation with
  | minted c' row hclaims' hrow hnext hgranted =>
    rw [hclaims] at hclaims'
    cases hclaims'
    have hold := (pruneExpiredRefreshes_eq_some.mp hrow).1
    refine ⟨_, hsound.origin _ _ hold, hsound.scope _ _ hold, rfl, ?_,
      row.successor store env, ?_, rfl, rfl⟩
    · simp [RefreshRun.record, issuePair, RefreshClaims.signed, hclaims, hsound.origin _ _ hold]
    · simp [RefreshRun.record, issuePair, RefreshClaims.signed]
  | reused c' row succ next hclaims' hrow hnext hgranted hsucc hlive =>
    rw [hclaims] at hclaims'
    cases hclaims'
    have hold := (pruneExpiredRefreshes_eq_some.mp hrow).1
    have hsuccOld := (pruneExpiredRefreshes_eq_some.mp hsucc).1
    obtain ⟨hused, horigin⟩ := hsound.next_used _ _ _ hold hnext
    have hlogin := hsound.origin _ _ hsuccOld
    have hne : next ≠ env.jti := fun heq => hfresh (heq ▸ hused)
    refine ⟨_, horigin.symm.trans hlogin, hsound.scope _ _ hsuccOld, rfl, ?_, succ, hsucc, rfl,
      rfl⟩
    simpa [RefreshRun.record, issuePair, RefreshClaims.signed, hne] using hlogin

/-! ## The laws -/

/-- What a client can rely on, in every run. -/
structure RotationLaws (lib : TokenLibrary) (store : AuthStore) : Prop where
  /-- A presentation ends. -/
  answered : ∀ (s : RefreshRun) token env more, s.Reachable lib store →
    s.Allows lib store (.rotate token env more) →
    ∃ result s', Presentation lib store s token env result s'
  /-- An id has one successor. -/
  one_successor : ∀ s token env tokens s' s₁ token₁ env₁ tokens₁ s₁' c c₁,
    Presentation lib store s token env (.ok tokens) s' → s'.Later lib store s₁ →
    Presentation lib store s₁ token₁ env₁ (.ok tokens₁) s₁' →
    refreshClaims lib store token = some c → refreshClaims lib store token₁ = some c₁ →
    c₁.jti = c.jti → tokens₁.refresh.jti = tokens.refresh.jti
  /-- A rotated token is given the same successor until its grace is over or one of the two is
  revoked, and nothing is added to the table. -/
  same_successor : ∀ s token env tokens s' c,
    Presentation lib store s token env (.ok tokens) s' →
    refreshClaims lib store token = some c →
    ∃ row grace, s'.table c.jti = some row ∧ row.graceExpiresAt = some grace ∧
      (∀ row₀, s.table c.jti = some row₀ → row₀.nextJti = none →
        grace = min (env.check + refreshGraceSeconds) row₀.expiresAt) ∧
      ∀ s₁ token₁ env₁ result₁ s₁' c₁, s'.Later lib store s₁ →
        Presentation lib store s₁ token₁ env₁ result₁ s₁' →
        refreshClaims lib store token₁ = some c₁ → c₁.jti = c.jti → env₁.check < grace →
        (∀ row, s₁.table c.jti = some row → row.revoked = false) →
        (∀ row, s₁.table tokens.refresh.jti = some row → row.revoked = false) →
        ∃ tokens₁, result₁ = .ok tokens₁ ∧ tokens₁.refresh.jti = tokens.refresh.jti ∧
          ∀ k, (s₁'.table k).isSome = true → (s₁.table k).isSome = true
  /-- A token that was rejected is rejected. -/
  rejected_stays : ∀ s token env e s' s₁ env₁ result₁ s₁',
    Presentation lib store s token env (.error e) s' → s'.Later lib store s₁ →
    Presentation lib store s₁ token env₁ result₁ s₁' → ∃ e₁, result₁ = .error e₁
  /-- A session that is opened begins a chain with its scope and app password. -/
  opened : ∀ (s : RefreshRun) scope name env t tokens s', s.Reachable lib store →
    s.Allows lib store (.create scope name env) →
    s.answer lib store (.create scope name env) = some (t, .ok tokens) →
    (s.step lib store (.create scope name env)).Later lib store s' →
    s'.origin tokens.refresh.jti = some ⟨scope, name⟩
  /-- A rotation keeps both. -/
  login_kept : ∀ s token env tokens s' c,
    Presentation lib store s token env (.ok tokens) s' →
    refreshClaims lib store token = some c →
    ∃ login, s.origin c.jti = some login ∧ tokens.accessScope = login.accessScope ∧
      s'.origin tokens.refresh.jti = some login ∧
      ∃ row, s'.table tokens.refresh.jti = some row ∧ row.accessScope = login.accessScope ∧
        row.appPasswordName = login.appPasswordName
  /-- The token of an account that is taken down never rotates. -/
  takendown : ∀ s token env result s' c login, Presentation lib store s token env result s' →
    refreshClaims lib store token = some c → s.origin c.jti = some login →
    login.accessScope = .takendown → ∃ e, result = .error e

/-- A rejected token stays rejected, whatever it is. -/
theorem Presentation.stays_rejected {s₁ s₁' : RefreshRun} {env₁ : RotateEnv} {result₁ : Issued}
    (h : Presentation lib store s token env (.error e) s') (hlater : s'.Later lib store s₁)
    (h₁ : Presentation lib store s₁ token env₁ result₁ s₁') : ∃ e₁, result₁ = .error e₁ := by
  cases hclaims : refreshClaims lib store token with
  | none =>
    -- The text is no token of the store.
    obtain ⟨t', hrotation, -⟩ := h₁.rotation
    cases hrotation with
    | unverified e _ => exact ⟨e, rfl⟩
    | refused _ _ _ => exact ⟨_, rfl⟩
    | minted c row hc _ _ _ =>
      rw [hclaims] at hc
      cases hc
    | reused c row succ next hc _ _ _ _ _ =>
      rw [hclaims] at hc
      cases hc
  | some c =>
    have hdead : s₁.Dead c.jti := hlater.invariant h.sound_after (h.dead_of_rejected hclaims)
      fun _ _ hs hevolves hdead => hevolves.dead hs hdead
    exact h₁.rejected_of_dead hclaims hdead

/-- The origin of a chain never changes. -/
theorem RefreshRun.Later.origin (h : s.Later lib store s') (hs : s.Sound store)
    (hk : k ∈ s.used) (hlogin : s.origin k = login) : s'.origin k = login :=
  (h.invariant (P := fun s => k ∈ s.used ∧ s.origin k = login) hs ⟨hk, hlogin⟩
    fun _ _ _ hevolves hold =>
      ⟨hevolves.used k hold.1, (hevolves.origin k hold.1).trans hold.2⟩).2

/-- A session that is opened records what it was opened with. -/
theorem create_origin {scope : AccessScope} {name : Option String} {env : CreateEnv}
    (h : s.answer lib store (.create scope name env) = some (t', .ok tokens)) :
    tokens.refresh.jti ∈ (s.step lib store (.create scope name env)).used ∧
      (s.step lib store (.create scope name env)).origin tokens.refresh.jti =
        some ⟨scope, name⟩ := by
  have hjti : tokens.refresh.jti = env.jti := by
    simp only [RefreshRun.answer, Option.some.injEq, createScopedSession] at h
    split at h
    · cases h
    · split at h
      · cases h
        rfl
      · cases hpersist : persistRefresh store (pruneExpiredRefreshes s.table env.now) env.jti
          (env.now + refreshLifetimeSeconds) scope name with
        | none => simp [hpersist] at h
        | some table =>
          simp only [hpersist] at h
          cases h
          rfl
  rw [RefreshRun.step, h, RefreshRun.record, hjti]
  simp

/-- Sessions rotate by these laws, in every run. -/
theorem refreshes_obey_laws (lib : TokenLibrary) (store : AuthStore) : RotationLaws lib store where
  answered s token env more hreachable hallows := by
    obtain ⟨t', result, hanswer, -, -⟩ := rotate_step hreachable.sound hallows
    exact ⟨result, _, hreachable, more, t', hallows, hanswer, rfl⟩
  one_successor s token env tokens s' s₁ token₁ env₁ tokens₁ s₁' c c₁ h hlater h₁ hc hc₁ heq := by
    obtain ⟨row, -, hrow, hnext, -, -⟩ := h.granted hc
    have hfollows : s'.Follows c.jti tokens.refresh.jti := by
      refine ⟨h.sound_after.used _ _ hrow, fun q hq => ?_⟩
      rw [hrow] at hq
      cases hq
      exact hnext
    have hfollows₁ := hlater.invariant h.sound_after hfollows
      fun _ _ _ hevolves hf => hevolves.follows hf
    exact h₁.follows hc₁ (heq ▸ hfollows₁)
  same_successor s token env tokens s' c h hc := by
    obtain ⟨row, grace, hrow, hnext, hgrace, hminted⟩ := h.granted hc
    refine ⟨row, grace, hrow, hgrace, hminted, ?_⟩
    intro s₁ token₁ env₁ result₁ s₁' c₁ hlater h₁ hc₁ heq hcheck hlive hsuccLive
    have hoffers : s₁.Offers c.jti tokens.refresh.jti grace :=
      hlater.invariant h.sound_after (.inr ⟨row, hrow, hnext, hgrace⟩)
        fun _ _ hs hevolves ho => hevolves.offers hs ho
    rw [← heq] at hoffers hlive
    exact h₁.offered hc₁ hoffers hcheck hlive hsuccLive
  rejected_stays s token env e s' s₁ env₁ result₁ s₁' h hlater h₁ := h.stays_rejected hlater h₁
  opened s scope name env t tokens s' hreachable hallows hanswer hlater := by
    obtain ⟨hused, horigin⟩ := create_origin hanswer
    exact hlater.origin ((step_evolves hreachable.sound hallows).sound hreachable.sound) hused
      horigin
  login_kept s token env tokens s' c h hc := by
    obtain ⟨login, horigin, -, hscope, hnext, hrow⟩ := h.handed_on hc
    exact ⟨login, horigin, hscope, hnext, hrow⟩
  takendown s token env result s' c login h hc horigin htakendown := by
    cases result with
    | error e => exact ⟨e, rfl⟩
    | ok tokens =>
      obtain ⟨kept, hkept, hnot, -⟩ := h.handed_on hc
      rw [horigin] at hkept
      cases hkept
      exact absurd htakendown hnot

/-! ## A revoked token within its grace -/

/-- The header of a refresh token. -/
def exampleHeader : String := "\x7b\"typ\":\"refresh+jwt\",\"alg\":\"HS256\"\x7d"

/-- The payload of a refresh token of `did:plc:alice`. -/
def examplePayload : String :=
  "\x7b\"scope\":\"com.atproto.refresh\",\"aud\":\"did:web:pds.test\"," ++
    "\"sub\":\"did:plc:alice\",\"jti\":\"00000000000000000000000000000001\"," ++
    "\"iat\":1700000000,\"exp\":1707776000\x7d"

/-- The key of 32 zero bytes, under which only the one token is signed here. -/
def exampleStore : AuthStore := ⟨List.replicate 32 0, "did:web:pds.test", "did:plc:alice"⟩

/-- The library on the one token. -/
def exampleLibrary : TokenLibrary where
  hmacSha256 _ _ := [
    130, 13, 147, 110, 125, 80, 97, 204, 146, 160, 237, 224, 249, 41, 26, 124, 246, 123, 238,
    245, 208, 92, 135, 74, 252, 209, 144, 95, 189, 188, 213, 20]
  parseJson bytes :=
    if bytes = exampleHeader.toUTF8.toList then
      some (.object [("typ", .string "refresh+jwt"), ("alg", .string "HS256")])
    else if bytes = examplePayload.toUTF8.toList then
      some (.object [("scope", .string "com.atproto.refresh"), ("aud", .string "did:web:pds.test"),
        ("sub", .string "did:plc:alice"), ("jti", .string "00000000000000000000000000000001"),
        ("iat", .number (.finite 1700000000)), ("exp", .number (.finite 1707776000))])
    else none
  wfBase64urlDecode _ := none

/-- The refresh token of the session. -/
def exampleToken : String :=
    "eyJ0eXAiOiJyZWZyZXNoK2p3dCIsImFsZyI6IkhTMjU2In0.eyJzY29wZSI6ImNvbS5hdHByb3RvLnJl" ++
    "ZnJlc2giLCJhdWQiOiJkaWQ6d2ViOnBkcy50ZXN0Iiwic3ViIjoiZGlkOnBsYzphbGljZSIsImp0aSI6" ++
    "IjAwMDAwMDAwMDAwMDAwMDAwMDAwMDAwMDAwMDAwMDAxIiwiaWF0IjoxNzAwMDAwMDAwLCJleHAiOjE3" ++
    "MDc3NzYwMDB9.gg2Tbn1QYcySoO3g-SkafPZ77vXQXIdK_NGQX7281RQ"

/-- The ids that are drawn. -/
def exampleJti (n : Nat) : String := "0000000000000000000000000000000" ++ toString n

/-- A rotation at this time. -/
def rotateAt (now : Int) (n : Nat) : RefreshCall :=
  .rotate exampleToken ⟨now, now, now, now, exampleJti n⟩ []

/-- The session is opened. -/
def openedCalls : List RefreshCall := [.create .full none ⟨1700000000, 1700000000, exampleJti 1⟩]

/-- Its token is rotated. -/
def rotatedCalls : List RefreshCall := openedCalls ++ [rotateAt 1700000010 2]

/-- The rotated token itself is revoked. -/
def revokedCalls : List RefreshCall := rotatedCalls ++ [.revoke exampleToken 1700000020]

/-- The state after these calls. -/
def exampleRun (calls : List RefreshCall) : RefreshRun :=
  Machine.exec (RefreshRun.step exampleLibrary exampleStore) (.opened 1700000000) calls

theorem exampleRun_concat (calls : List RefreshCall) (call : RefreshCall) :
    (exampleRun calls).step exampleLibrary exampleStore call = exampleRun (calls ++ [call]) := by
  rw [exampleRun, exampleRun, Machine.exec_append, Machine.exec_cons, Machine.exec_nil]

theorem toList_append_of_eq {s t : String} {l m : List Char} (hs : s.toList = l)
    (ht : t.toList = m) : (s ++ t).toList = l ++ m := by
  rw [String.toList_append, hs, ht]

set_option maxRecDepth 4000 in
theorem exampleToken_claims : refreshClaims exampleLibrary exampleStore exampleToken =
    some (.signed (exampleJti 1) 1700000000 1707776000) := by
  have hsize : ¬ (exampleToken = "" ∨ jwtMaxBytes < exampleToken.utf8ByteSize) := by
    decide +kernel
  -- The text is long: its characters are read off line by line.
  have htext : exampleToken.toList = _ :=
    toList_append_of_eq (toList_append_of_eq (toList_append_of_eq String.toList_ofList
      String.toList_ofList) String.toList_ofList) String.toList_ofList
  rw [refreshClaims, if_neg hsize, htext]
  decide +kernel

theorem exampleToken_genuine {s : RefreshRun}
    (h : RefreshClaims.signed (exampleJti 1) 1700000000 1707776000 ∈ s.issued) :
    s.Genuine exampleLibrary exampleStore exampleToken := by
  intro c hc
  rw [exampleToken_claims] at hc
  cases hc
  exact h

theorem openedCalls_reachable : (exampleRun openedCalls).Reachable exampleLibrary exampleStore :=
  ⟨_, openedCalls, ⟨⟨le_rfl, le_rfl, List.not_mem_nil⟩, trivial⟩, rfl⟩

/-- What the calls leave. The text of the token is long: only its claims are evaluated. -/
theorem exampleRun_facts_of {token : String}
    (hclaims : refreshClaims exampleLibrary exampleStore token =
      some (.signed (exampleJti 1) 1700000000 1707776000)) :
    let rotate (now : Int) (n : Nat) : RefreshCall :=
      .rotate token ⟨now, now, now, now, exampleJti n⟩ []
    let opened := exampleRun openedCalls
    let rotated := exampleRun (openedCalls ++ [rotate 1700000010 2])
    let revoked := exampleRun (openedCalls ++ [rotate 1700000010 2] ++ [.revoke token 1700000020])
    ((opened.clock ≤ 1700000010 ∧ exampleJti 2 ∉ opened.used ∧
      RefreshClaims.signed (exampleJti 1) 1700000000 1707776000 ∈ opened.issued) ∧
    (rotated.clock ≤ 1700000020 ∧
      RefreshClaims.signed (exampleJti 1) 1700000000 1707776000 ∈ rotated.issued) ∧
    (revoked.clock ≤ 1700000030 ∧ exampleJti 3 ∉ revoked.used ∧
      RefreshClaims.signed (exampleJti 1) 1700000000 1707776000 ∈ revoked.issued)) ∧
    (opened.answer exampleLibrary exampleStore (rotate 1700000010 2)).map
        (fun r => r.2.toOption.map fun t => t.refresh.jti) = some (some (exampleJti 2)) ∧
      (revoked.answer exampleLibrary exampleStore (rotate 1700000030 3)).map
        (fun r => r.2.toOption.isSome) = some false ∧
      (rotated.table (exampleJti 1)).map RefreshRow.graceExpiresAt = some (some 1700007210) ∧
      (revoked.table (exampleJti 2)).map RefreshRow.revoked = some false := by
  simp only [exampleRun, Machine.exec_append, Machine.exec_cons, Machine.exec_nil, RefreshRun.step,
    RefreshRun.answer, rotateRefresh, rotateAttempt, revokeRefresh,
    verifyJwt_refresh_eq _ _ hclaims, hclaims]
  clear hclaims token
  decide +kernel

/-- What the calls of the one token leave. -/
theorem exampleRun_facts :
    (((exampleRun openedCalls).clock ≤ 1700000010 ∧ exampleJti 2 ∉ (exampleRun openedCalls).used ∧
      RefreshClaims.signed (exampleJti 1) 1700000000 1707776000 ∈
        (exampleRun openedCalls).issued) ∧
    ((exampleRun rotatedCalls).clock ≤ 1700000020 ∧
      RefreshClaims.signed (exampleJti 1) 1700000000 1707776000 ∈
        (exampleRun rotatedCalls).issued) ∧
    ((exampleRun revokedCalls).clock ≤ 1700000030 ∧ exampleJti 3 ∉ (exampleRun revokedCalls).used ∧
      RefreshClaims.signed (exampleJti 1) 1700000000 1707776000 ∈
        (exampleRun revokedCalls).issued)) ∧
    ((exampleRun openedCalls).answer exampleLibrary exampleStore (rotateAt 1700000010 2)).map
        (fun r => r.2.toOption.map fun t => t.refresh.jti) = some (some (exampleJti 2)) ∧
      ((exampleRun revokedCalls).answer exampleLibrary exampleStore (rotateAt 1700000030 3)).map
        (fun r => r.2.toOption.isSome) = some false ∧
      ((exampleRun rotatedCalls).table (exampleJti 1)).map RefreshRow.graceExpiresAt =
        some (some 1700007210) ∧
      ((exampleRun revokedCalls).table (exampleJti 2)).map RefreshRow.revoked = some false := by
  have h := exampleRun_facts_of exampleToken_claims
  simp only [rotatedCalls, revokedCalls, rotateAt]
  dsimp only at h
  exact h

theorem rotate_allowed : (exampleRun openedCalls).Allows exampleLibrary exampleStore
    (rotateAt 1700000010 2) :=
  have h := exampleRun_facts.1.1
  ⟨h.1, le_rfl, le_rfl, le_rfl, h.2.1, exampleToken_genuine h.2.2⟩

theorem revoke_allowed : (exampleRun rotatedCalls).Allows exampleLibrary exampleStore
    (.revoke exampleToken 1700000020) :=
  have h := exampleRun_facts.1.2.1
  ⟨h.1, exampleToken_genuine h.2⟩

theorem rotate_again_allowed : (exampleRun revokedCalls).Allows exampleLibrary exampleStore
    (rotateAt 1700000030 3) :=
  have h := exampleRun_facts.1.2.2
  ⟨h.1, le_rfl, le_rfl, le_rfl, h.2.1, exampleToken_genuine h.2.2⟩

theorem revokedCalls_reachable :
    (exampleRun revokedCalls).Reachable exampleLibrary exampleStore := by
  have hrotated := openedCalls_reachable.step rotate_allowed
  rw [exampleRun_concat] at hrotated
  have hrevoked := RefreshRun.Reachable.step hrotated revoke_allowed
  rw [exampleRun_concat] at hrevoked
  exact hrevoked

/-- A rotated token that was revoked is refused although its grace lasts and its successor is not
revoked. -/
theorem revoked_token_is_refused_within_its_grace :
    ∃ tokens row e s', Presentation exampleLibrary exampleStore (exampleRun openedCalls)
        exampleToken ⟨1700000010, 1700000010, 1700000010, 1700000010, exampleJti 2⟩ (.ok tokens)
        (exampleRun rotatedCalls) ∧
      (exampleRun rotatedCalls).table (exampleJti 1) = some row ∧
      row.graceExpiresAt = some 1700007210 ∧
      (exampleRun rotatedCalls).Later exampleLibrary exampleStore (exampleRun revokedCalls) ∧
      Presentation exampleLibrary exampleStore (exampleRun revokedCalls) exampleToken
        ⟨1700000030, 1700000030, 1700000030, 1700000030, exampleJti 3⟩ (.error e) s' ∧
      ∀ row, (exampleRun revokedCalls).table tokens.refresh.jti = some row →
        row.revoked = false := by
  obtain ⟨-, hfirst, hsecond, hrow, hlive⟩ := exampleRun_facts
  obtain ⟨⟨t', result⟩, hanswer, hjti⟩ := Option.map_eq_some_iff.mp hfirst
  obtain ⟨⟨t₁, result₁⟩, hanswer₁, herror⟩ := Option.map_eq_some_iff.mp hsecond
  obtain ⟨row, hrow, hgrace⟩ := Option.map_eq_some_iff.mp hrow
  cases result with
  | error e => cases hjti
  | ok tokens =>
    cases result₁ with
    | ok _ => cases herror
    | error e =>
      have hnext : tokens.refresh.jti = exampleJti 2 := by simpa [Except.toOption] using hjti
      refine ⟨tokens, row, e, exampleRun (revokedCalls ++ [rotateAt 1700000030 3]), ?_, hrow,
        hgrace, ?_, ?_, fun succ hsucc => ?_⟩
      · exact ⟨openedCalls_reachable, [], t', rotate_allowed, hanswer, exampleRun_concat _ _⟩
      · refine ⟨[.revoke exampleToken 1700000020], ⟨revoke_allowed, trivial⟩, ?_⟩
        rw [Machine.exec_cons, Machine.exec_nil, exampleRun_concat, revokedCalls]
      · exact ⟨revokedCalls_reachable, [], t₁, rotate_again_allowed, hanswer₁,
          exampleRun_concat _ _⟩
      · rw [hnext] at hsucc
        rw [hsucc] at hlive
        exact Option.some.inj hlive

end MetalBear.OAuth
